import IMServer.Base.Bytes

/-!
# SQL text and the string literals in it

Library: the tokens of an SQL text under the rules MySQL has for string literals, and the texts
that are made by writing values between quotes without escaping them. Such a text, cut to the
size of a buffer, has the tokens it is meant to have exactly if every value is free of quotes
and of effective backslashes and only blanks were cut off.

Texts are bytes of a character set in which no byte of a longer character is a quote or a
backslash. Comments are not recognised: they are read as the symbols they are written with.
-/

namespace IMServer.Base.Sql

/-! ### Tokens -/

inductive Token where
  | word (text : List UInt8)
  | symbol (b : UInt8)
  | literal (value : List UInt8)
  deriving DecidableEq, Repr

/-- `'`. -/
abbrev quoteByte : UInt8 := 39

/-- `\`. -/
abbrev backslash : UInt8 := 92

/-- String literals are quoted with `'` or `"`. -/
def isQuote (b : UInt8) : Bool := b = quoteByte || b = 34

/-- Letters, digits, `_`, `$`, the point of a number, and everything above ASCII. -/
def isWordByte (b : UInt8) : Bool :=
  (48 ≤ b && b ≤ 57) || (65 ≤ b && b ≤ 90) || (97 ≤ b && b ≤ 122) || b = 95 || b = 36 ||
    b = 46 || 128 ≤ b

/-- `%` and `_`, before which a backslash stays. -/
def isWildcard (b : UInt8) : Bool := b = 37 || b = 95

/-- The byte an escape stands for: `\0`, `\b`, `\n`, `\r`, `\t`, `\Z`, or the byte itself. -/
def escaped (b : UInt8) : UInt8 :=
  if b = 48 then 0
  else if b = 98 then 8
  else if b = 110 then 10
  else if b = 114 then 13
  else if b = 116 then 9
  else if b = 90 then 26
  else b

/-- What a byte denotes after a backslash. -/
def unescape (b : UInt8) : List UInt8 :=
  if isWildcard b then [backslash, b] else [escaped b]

/-- Where the reading of a text stands. -/
inductive Mode where
  | between
  | word (text : List UInt8)
  /-- In a literal opened by `q`. -/
  | literal (q : UInt8) (value : List UInt8)
  /-- After a backslash in a literal. -/
  | escape (q : UInt8) (value : List UInt8)
  /-- After a `q` in a literal: its end, or the first of two. -/
  | quote (q : UInt8) (value : List UInt8)
  deriving DecidableEq, Repr

namespace Mode

/-- Read a byte that begins something. -/
def start (b : UInt8) : Mode × List Token :=
  if isSpace b then (between, [])
  else if isWordByte b then (word [b], [])
  else if isQuote b then (literal b [], [])
  else (between, [.symbol b])

/-- Read one byte: the tokens it completes. -/
def step : Mode → UInt8 → Mode × List Token
  | between, b => start b
  | word w, b =>
    if isWordByte b then (word (w ++ [b]), []) else ((start b).1, .word w :: (start b).2)
  | literal q v, b =>
    if b = q then (quote q v, [])
    else if b = backslash then (escape q v, [])
    else (literal q (v ++ [b]), [])
  | escape q v, b => (literal q (v ++ unescape b), [])
  | quote q v, b =>
    if b = q then (literal q (v ++ [q]), []) else ((start b).1, .literal v :: (start b).2)

/-- The end of the text: an open literal is an error. -/
def finish : Mode → Option (List Token)
  | between => some []
  | word w => some [.word w]
  | quote _ v => some [.literal v]
  | literal _ _ | escape _ _ => none

end Mode

/-- The tokens of the rest of a text. -/
def tokens : Mode → List UInt8 → Option (List Token)
  | m, [] => m.finish
  | m, b :: bs => (tokens (m.step b).1 bs).map ((m.step b).2 ++ ·)

def tokenise (text : List UInt8) : Option (List Token) := tokens .between text

/-! ### Text without literals -/

/-- A text that opens no literal. -/
def Plain (t : List UInt8) : Prop := ∀ b ∈ t, isQuote b = false

instance (t : List UInt8) : Decidable (Plain t) :=
  List.decidableBAll (fun b => isQuote b = false) t

/-- Plain texts joined are plain. -/
theorem plain_append {s t : List UInt8} (hs : Plain s) (ht : Plain t) : Plain (s ++ t) := by
  intro b hb
  rcases List.mem_append.mp hb with h | h
  · exact hs b h
  · exact ht b h

private theorem Plain.take {t : List UInt8} (h : Plain t) (n : Nat) : Plain (t.take n) :=
  fun b hb => h b (List.mem_of_mem_take hb)

private theorem isSpace_of_isQuote {b : UInt8} (h : isQuote b = true) : isSpace b = false := by
  rcases Bool.or_eq_true _ _ ▸ h with h | h <;> (rw [of_decide_eq_true h]; rfl)

private theorem isWordByte_of_isQuote {b : UInt8} (h : isQuote b = true) :
    isWordByte b = false := by
  rcases Bool.or_eq_true _ _ ▸ h with h | h <;> (rw [of_decide_eq_true h]; rfl)

private theorem start_quote {q : UInt8} (h : isQuote q = true) :
    Mode.start q = (.literal q [], []) := by
  simp [Mode.start, isSpace_of_isQuote h, isWordByte_of_isQuote h, h]

private theorem isSpace_of_isWordByte {b : UInt8} (h : isWordByte b = true) :
    isSpace b = false := by
  simp only [isWordByte, Bool.or_eq_true, Bool.and_eq_true, decide_eq_true_eq,
    UInt8.le_iff_toNat_le, ← UInt8.toNat_inj] at h
  simp only [isSpace, Bool.or_eq_false_iff, Bool.and_eq_false_iff, decide_eq_false_iff_not,
    UInt8.le_iff_toNat_le, ← UInt8.toNat_inj]
  simp only [UInt8.reduceToNat] at h ⊢
  omega

/-- Not in a literal. -/
def Mode.Outside : Mode → Prop
  | between | word _ => True
  | literal _ _ | escape _ _ | quote _ _ => False

private theorem Mode.Outside.cases {m : Mode} (hm : m.Outside) :
    m = .between ∨ ∃ w, m = .word w := by
  cases m with
  | between => exact .inl rfl
  | word w => exact .inr ⟨w, rfl⟩
  | literal q v => exact hm.elim
  | escape q v => exact hm.elim
  | quote q v => exact hm.elim

/-- The bytes of the word that is being read. -/
def Mode.pending : Mode → Nat
  | word w => w.length
  | between | literal _ _ | escape _ _ | quote _ _ => 0

/-- The bytes of the words and symbols. -/
def weight : List Token → Nat
  | [] => 0
  | .word w :: ts => w.length + weight ts
  | .symbol _ :: ts => 1 + weight ts
  | .literal _ :: ts => weight ts

private theorem weight_append (ts us : List Token) : weight (ts ++ us) = weight ts + weight us := by
  induction ts with
  | nil => simp [weight]
  | cons t ts ih => cases t <;> simp [weight, ih, Nat.add_assoc]

/-- The bytes of a text that are not blank. -/
def visible (t : List UInt8) : Nat := t.countP (fun b => !isSpace b)

/-- What a byte that opens no literal does outside of literals: it stays outside, and it is
counted once unless it is blank. -/
structure Counted (k : Nat) (b : UInt8) (r : Mode × List Token) : Prop where
  outside : r.1.Outside
  no_literal : ∀ v, .literal v ∉ r.2
  count : weight r.2 + r.1.pending = k + if isSpace b then 0 else 1

private theorem start_counted {b : UInt8} (h : isQuote b = false) : Counted 0 b (Mode.start b) := by
  rw [Mode.start]
  by_cases hs : isSpace b = true
  · rw [if_pos hs]
    exact ⟨trivial, by simp, by simp [weight, Mode.pending, hs]⟩
  · rw [if_neg hs]
    split
    · exact ⟨trivial, by simp, by simp [weight, Mode.pending, hs]⟩
    · rw [if_neg (by simp [h])]
      exact ⟨trivial, by simp, by simp [weight, Mode.pending, hs]⟩

private theorem step_counted {m : Mode} (hm : m.Outside) {b : UInt8} (h : isQuote b = false) :
    Counted m.pending b (m.step b) := by
  have hstart := start_counted h
  obtain rfl | ⟨w, rfl⟩ := hm.cases
  · exact hstart
  · rw [Mode.step]
    split
    · next hw =>
      exact ⟨trivial, by simp, by simp [weight, Mode.pending, isSpace_of_isWordByte hw]⟩
    · refine ⟨hstart.outside, by simpa using hstart.no_literal, ?_⟩
      rw [weight, Nat.add_assoc, hstart.count, Nat.zero_add, Mode.pending]

/-- Reading a plain text: every byte that is not blank is in one of its tokens, and a quote
after it opens a literal. -/
theorem tokens_plain {t : List UInt8} (ht : Plain t) {m : Mode} (hm : m.Outside) :
    ∃ ts, tokens m t = some ts ∧ (∀ v, .literal v ∉ ts) ∧ weight ts = m.pending + visible t ∧
      ∀ q, isQuote q = true → ∀ y,
        tokens m (t ++ q :: y) = (tokens (.literal q []) y).map (ts ++ ·) := by
  induction t generalizing m with
  | nil =>
    obtain rfl | ⟨w, rfl⟩ := hm.cases
    · refine ⟨[], rfl, by simp, rfl, fun q hq y => ?_⟩
      rw [List.nil_append, tokens, Mode.step, start_quote hq]
    · refine ⟨[.word w], rfl, by simp, rfl, fun q hq y => ?_⟩
      rw [List.nil_append, tokens, Mode.step, isWordByte_of_isQuote hq, start_quote hq]
      rfl
  | cons b t ih =>
    have hb := step_counted hm (ht b List.mem_cons_self)
    obtain ⟨ts, hts, hno, hw, hq⟩ := ih (fun c hc => ht c (List.mem_cons_of_mem b hc)) hb.outside
    refine ⟨(m.step b).2 ++ ts, ?_, ?_, ?_, ?_⟩
    · rw [tokens, hts, Option.map_some]
    · intro v hv
      rcases List.mem_append.mp hv with h | h
      · exact hb.no_literal v h
      · exact hno v h
    · have hc := hb.count
      rw [weight_append, hw, visible, visible, List.countP_cons]
      cases hsp : isSpace b <;> simp [hsp] at hc ⊢ <;> omega
    · intro q hqq y
      rw [List.cons_append, tokens, hq q hqq y, Option.map_map]
      congr 1
      funext us
      simp

/-- The tokens of a plain text. -/
def textTokens (t : List UInt8) : List Token := (tokenise t).getD []

private theorem textTokens_eq {t : List UInt8} {ts : List Token} (h : tokenise t = some ts) :
    textTokens t = ts := by
  rw [textTokens, h, Option.getD_some]

private theorem tokenise_plain {t : List UInt8} (ht : Plain t) :
    tokenise t = some (textTokens t) := by
  obtain ⟨ts, hts, -⟩ := tokens_plain ht (m := .between) trivial
  rw [textTokens_eq hts]
  exact hts

private theorem literal_notMem_textTokens {t : List UInt8} (ht : Plain t) (v : List UInt8) :
    .literal v ∉ textTokens t := by
  obtain ⟨ts, hts, hno, -⟩ := tokens_plain ht (m := .between) trivial
  rw [textTokens_eq hts]
  exact hno v

private theorem weight_textTokens {t : List UInt8} (ht : Plain t) :
    weight (textTokens t) = visible t := by
  obtain ⟨ts, hts, -, hw, -⟩ := tokens_plain ht (m := .between) trivial
  rw [textTokens_eq hts, hw]
  exact Nat.zero_add _

private theorem tokenise_append_quote {t : List UInt8} (ht : Plain t) (y : List UInt8) :
    tokenise (t ++ quoteByte :: y) =
      (tokens (.literal quoteByte []) y).map (textTokens t ++ ·) := by
  obtain ⟨ts, hts, -, -, hq⟩ := tokens_plain ht (m := .between) trivial
  rw [textTokens_eq hts]
  exact hq quoteByte rfl y

/-- No word goes on over the place between the two texts. -/
def Boundary (s t : List UInt8) : Prop :=
  (∀ b ∈ t.head?, isWordByte b = false) ∨ ∀ b ∈ s.getLast?, isWordByte b = false

/-- The word that is being read. -/
def Mode.pendingTokens : Mode → List Token
  | word w => [.word w]
  | between | literal _ _ | escape _ _ | quote _ _ => []

/-- A word ends before a byte that it does not go on with. -/
theorem tokens_of_head {m : Mode} (hm : m.Outside) {t : List UInt8}
    (h : ∀ b ∈ t.head?, isWordByte b = false) :
    tokens m t = (tokenise t).map (m.pendingTokens ++ ·) := by
  obtain rfl | ⟨w, rfl⟩ := hm.cases
  · simp [tokenise, Mode.pendingTokens]
  · cases t with
    | nil => rfl
    | cons b t =>
      simp [tokens, tokenise, Mode.step, Mode.pendingTokens, h b rfl, Function.comp_def]

private theorem tokens_append_of_head {s : List UInt8} (hs : Plain s) {m : Mode} (hm : m.Outside)
    {t : List UInt8} (h : ∀ b ∈ t.head?, isWordByte b = false) :
    ∃ us, tokens m s = some us ∧ tokens m (s ++ t) = (tokenise t).map (us ++ ·) := by
  induction s generalizing m with
  | nil =>
    refine ⟨m.pendingTokens, ?_, tokens_of_head hm h⟩
    rw [tokens_of_head hm fun b hb => by cases hb]
    simp [tokenise, tokens, Mode.finish]
  | cons b s ih =>
    have hb := step_counted hm (hs b List.mem_cons_self)
    obtain ⟨us, hus, happ⟩ := ih (fun c hc => hs c (List.mem_cons_of_mem b hc)) hb.outside
    refine ⟨(m.step b).2 ++ us, ?_, ?_⟩
    · rw [tokens, hus, Option.map_some]
    · rw [List.cons_append, tokens, happ, Option.map_map]
      congr 1
      funext ts
      simp

private theorem textTokens_append_head {s t : List UInt8} (hs : Plain s) (ht : Plain t)
    (h : ∀ b ∈ t.head?, isWordByte b = false) :
    textTokens (s ++ t) = textTokens s ++ textTokens t := by
  obtain ⟨us, hus, happ⟩ := tokens_append_of_head hs (m := .between) trivial h
  rw [tokenise_plain ht, Option.map_some] at happ
  rw [textTokens_eq hus]
  exact textTokens_eq happ

/-- A byte that is in no word is read by itself. -/
private theorem textTokens_cons {b : UInt8} {t : List UInt8} (hb : isWordByte b = false)
    (hp : Plain (b :: t)) : textTokens (b :: t) = textTokens [b] ++ textTokens t := by
  have ht : Plain t := fun c hc => hp c (List.mem_cons_of_mem b hc)
  have hq : isQuote b = false := hp b List.mem_cons_self
  have hstart : (Mode.start b).1 = .between := by
    simp only [Mode.start, hb, hq, Bool.false_eq_true, if_false]
    split <;> rfl
  have hcons (u : List UInt8) (hu : Plain u) :
      tokenise (b :: u) = some ((Mode.start b).2 ++ textTokens u) := by
    rw [tokenise, tokens, Mode.step, hstart, ← tokenise, tokenise_plain hu, Option.map_some]
  rw [textTokens_eq (hcons t ht), textTokens_eq (hcons [] (by simp [Plain]))]
  simp [textTokens_eq (t := []) rfl]

/-- Plain texts are read one by one if no word goes on from one to the other. -/
theorem textTokens_append {s t : List UInt8} (hs : Plain s) (ht : Plain t)
    (h : Boundary s t) : textTokens (s ++ t) = textTokens s ++ textTokens t := by
  rcases h with h | h
  · exact textTokens_append_head hs ht h
  · rcases List.eq_nil_or_concat' s with rfl | ⟨s, b, rfl⟩
    · rfl
    · have hb : isWordByte b = false := h b (by simp)
      have hp : Plain (b :: t) := by
        intro c hc
        rcases List.mem_cons.mp hc with rfl | hc
        · exact hs c (by simp)
        · exact ht c hc
      have hs' : Plain s := fun c hc => hs c (by simp [hc])
      have hsingle : Plain [b] := fun c hc => hp c (by simp_all)
      rw [List.append_assoc, List.singleton_append,
        textTokens_append_head hs' hp (by simpa using hb),
        textTokens_append_head hs' hsingle (by simpa using hb), textTokens_cons hb hp,
        List.append_assoc]

private theorem tokens_word {w ds : List UInt8} (h : ∀ b ∈ ds, isWordByte b = true) :
    tokens (.word w) ds = some [.word (w ++ ds)] := by
  induction ds generalizing w with
  | nil => simp [tokens, Mode.finish]
  | cons d ds ih =>
    rw [tokens, Mode.step, if_pos (h d List.mem_cons_self),
      ih fun b hb => h b (List.mem_cons_of_mem d hb)]
    simp

/-- A text of word bytes is one word. -/
theorem textTokens_word {ds : List UInt8} (h : ∀ b ∈ ds, isWordByte b = true) (hne : ds ≠ []) :
    textTokens ds = [.word ds] := by
  cases ds with
  | nil => exact absurd rfl hne
  | cons d ds =>
    have hd := h d List.mem_cons_self
    have hword := tokens_word (w := [d]) fun b hb => h b (List.mem_cons_of_mem d hb)
    simp [textTokens, tokenise, tokens, Mode.step, Mode.start, hd, isSpace_of_isWordByte hd, hword]

/-- A word is plain. -/
theorem plain_of_isWordByte {ds : List UInt8} (h : ∀ b ∈ ds, isWordByte b = true) : Plain ds := by
  intro b hb
  by_contra hq
  have hw := h b hb
  rw [isWordByte_of_isQuote (by simpa using hq)] at hw
  cases hw

/-- Blanks at the end are not seen. -/
theorem tokens_spaces {m : Mode} (hm : m.Outside) {s : List UInt8}
    (hs : ∀ b ∈ s, isSpace b = true) : tokens m s = m.finish := by
  induction s generalizing m with
  | nil => rfl
  | cons b s ih =>
    have hb := hs b List.mem_cons_self
    have hw : isWordByte b = false := by
      by_contra h
      rw [isSpace_of_isWordByte (by simpa using h)] at hb
      cases hb
    have hbetween := ih (m := .between) trivial fun c hc => hs c (List.mem_cons_of_mem b hc)
    obtain rfl | ⟨w, rfl⟩ := hm.cases
    · simp [tokens, Mode.step, Mode.start, hb, hbetween, Mode.finish]
    · simp [tokens, Mode.step, Mode.start, hb, hw, hbetween, Mode.finish]

private theorem tokens_append_spaces {t : List UInt8} (ht : Plain t) {m : Mode} (hm : m.Outside)
    {s : List UInt8} (hs : ∀ b ∈ s, isSpace b = true) : tokens m (t ++ s) = tokens m t := by
  induction t generalizing m with
  | nil => exact tokens_spaces hm hs
  | cons b t ih =>
    have hb := step_counted hm (ht b List.mem_cons_self)
    rw [List.cons_append, tokens, tokens,
      ih (fun c hc => ht c (List.mem_cons_of_mem b hc)) hb.outside]

/-- A plain text keeps its tokens exactly if only blanks are cut off. -/
theorem tokenise_take_iff {t : List UInt8} (ht : Plain t) (n : Nat) :
    tokenise (t.take n) = some (textTokens t) ↔ ∀ b ∈ t.drop n, isSpace b = true := by
  constructor
  · intro h
    have hw := weight_textTokens (ht.take n)
    rw [tokenise_plain (ht.take n)] at h
    rw [Option.some.inj h, weight_textTokens ht, ← List.take_append_drop n t, visible,
      List.countP_append, List.take_append_drop] at hw
    have hz : (t.drop n).countP (fun b => !isSpace b) = 0 := by
      rw [visible] at hw
      omega
    simpa [List.countP_eq_zero] using hz
  · intro h
    rw [← tokenise_plain ht]
    conv_rhs => rw [← List.take_append_drop n t]
    exact (tokens_append_spaces (ht.take n) (m := .between) trivial h).symm

/-! ### The value of a literal -/

section Steps

variable (v : List UInt8) {b : UInt8} (bs : List UInt8)

private theorem tokens_literal_quote :
    tokens (.literal quoteByte v) (quoteByte :: bs) = tokens (.quote quoteByte v) bs := by
  simp [tokens, Mode.step]

private theorem tokens_literal_backslash :
    tokens (.literal quoteByte v) (backslash :: bs) = tokens (.escape quoteByte v) bs := by
  have hne : backslash ≠ quoteByte := by decide
  simp [tokens, Mode.step, hne]

private theorem tokens_literal_other (hq : b ≠ quoteByte) (hb : b ≠ backslash) :
    tokens (.literal quoteByte v) (b :: bs) = tokens (.literal quoteByte (v ++ [b])) bs := by
  simp [tokens, Mode.step, hq, hb]

private theorem tokens_escape (b : UInt8) :
    tokens (.escape quoteByte v) (b :: bs) = tokens (.literal quoteByte (v ++ unescape b)) bs := by
  simp [tokens, Mode.step]

private theorem tokens_quote_quote :
    tokens (.quote quoteByte v) (quoteByte :: bs) =
      tokens (.literal quoteByte (v ++ [quoteByte])) bs := by
  simp [tokens, Mode.step]

private theorem tokens_quote_other (hq : b ≠ quoteByte) :
    tokens (.quote quoteByte v) (b :: bs) = (tokenise (b :: bs)).map (.literal v :: ·) := by
  simp [tokens, tokenise, Mode.step, hq, Function.comp_def]

end Steps

/-- Bytes that stand for themselves in a literal, also behind a backslash, and that no other
byte stands for. -/
structure Steady (P : UInt8 → Bool) : Prop where
  quote : P quoteByte = false
  backslash : P backslash = false
  hit : ∀ b, P b = true → unescape b = [b]
  miss : ∀ b, P b = false → ∀ c ∈ unescape b, P c = false

/-- The first steady byte of a value comes at most `n` bytes in, and a value without one is
shorter than that. -/
def Lags (P : UInt8 → Bool) (value : List UInt8) (n : Nat) : Prop :=
  value.findIdx P ≤ n ∧ ((∀ b ∈ value, P b = false) → value.length < n)

section Lags

variable {P : UInt8 → Bool} {value : List UInt8} {n : Nat}

private theorem Lags.nil (h : 0 < n) : Lags P [] n := ⟨Nat.zero_le n, fun _ => h⟩

private theorem Lags.hit {b : UInt8} (hb : P b = true) : Lags P (b :: value) n := by
  refine ⟨?_, fun h => ?_⟩
  · rw [List.findIdx_cons, hb]
    exact Nat.zero_le n
  · rw [h b List.mem_cons_self] at hb
    cases hb

private theorem Lags.miss {b : UInt8} (hb : P b = false) (h : Lags P value n) :
    Lags P (b :: value) (n + 1) := by
  refine ⟨?_, fun hall => ?_⟩
  · rw [List.findIdx_cons, hb]
    exact Nat.succ_le_succ h.1
  · exact Nat.succ_lt_succ (h.2 fun c hc => hall c (List.mem_cons_of_mem b hc))

private theorem Lags.mono {k : Nat} (h : Lags P value n) (hk : n ≤ k) : Lags P value k :=
  ⟨Nat.le_trans h.1 hk, fun hall => Nat.lt_of_lt_of_le (h.2 hall) hk⟩

/-- What a byte denotes behind a backslash has at most one byte more. -/
theorem Lags.unescape (hP : Steady P) (b : UInt8) (h : Lags P value n) (hb : P b = false) :
    Lags P (unescape b ++ value) (n + 2) := by
  have hm := hP.miss b hb
  unfold Sql.unescape at hm ⊢
  split at hm
  · next hw =>
    rw [if_pos hw]
    exact (h.miss hb).miss hP.backslash
  · next hw =>
    rw [if_neg hw]
    exact (h.miss (hm _ List.mem_cons_self)).mono (Nat.le_succ _)

/-- What was read since the value was `v` lags `n` bytes behind. -/
def Extends (P : UInt8 → Bool) (n : Nat) (v w : List UInt8) : Prop :=
  ∃ value, w = v ++ value ∧ Lags P value n

private theorem extends_self (v : List UInt8) (h : 0 < n) : Extends P n v v :=
  ⟨[], (List.append_nil v).symm, Lags.nil h⟩

variable {b : UInt8} {text v w : List UInt8}

private theorem findIdx_miss (hb : P b = false) : (b :: text).findIdx P = text.findIdx P + 1 := by
  rw [List.findIdx_cons, hb, cond_false]

/-- A byte that stands for itself. -/
theorem Extends.byte (h : Extends P (text.findIdx P) (v ++ [b]) w) :
    Extends P ((b :: text).findIdx P) v w := by
  obtain ⟨value, rfl, hl⟩ := h
  refine ⟨b :: value, by simp, ?_⟩
  cases hb : P b with
  | true => exact Lags.hit hb
  | false =>
    rw [findIdx_miss hb]
    exact hl.miss hb

/-- A byte behind a backslash. -/
theorem Extends.escape (hP : Steady P) (h : Extends P (text.findIdx P) (v ++ Sql.unescape b) w) :
    Extends P ((b :: text).findIdx P + 1) v w := by
  obtain ⟨value, rfl, hl⟩ := h
  refine ⟨Sql.unescape b ++ value, by simp, ?_⟩
  cases hb : P b with
  | true => exact hP.hit b hb ▸ Lags.hit hb
  | false =>
    rw [findIdx_miss hb]
    exact hl.unescape hP b hb

private theorem Extends.mono {k : Nat} (h : Extends P n v w) (hk : n ≤ k) : Extends P k v w := by
  obtain ⟨value, hv, hl⟩ := h
  exact ⟨value, hv, hl.mono hk⟩

end Lags

/-- The value of a literal never gets ahead of the text it is read from. -/
theorem literal_lags {P : UInt8 → Bool} (hP : Steady P) (text : List UInt8) :
    ∀ v w ts,
      (tokens (.literal quoteByte v) text = some (.literal w :: ts) →
        Extends P (text.findIdx P) v w) ∧
      (tokens (.escape quoteByte v) text = some (.literal w :: ts) →
        Extends P (text.findIdx P + 1) v w) ∧
      (tokens (.quote quoteByte v) text = some (.literal w :: ts) →
        Extends P (text.findIdx P + 1) v w) := by
  induction text with
  | nil =>
    intro v w ts
    refine ⟨fun h => (by cases h), fun h => (by cases h), fun h => ?_⟩
    cases h
    exact extends_self v (Nat.succ_pos _)
  | cons b text ih =>
    intro v w ts
    refine ⟨fun h => ?_, fun h => ?_, fun h => ?_⟩
    · by_cases hq : b = quoteByte
      · subst hq
        rw [tokens_literal_quote] at h
        rw [findIdx_miss hP.quote]
        exact (ih v w ts).2.2 h
      · by_cases hb : b = backslash
        · subst hb
          rw [tokens_literal_backslash] at h
          rw [findIdx_miss hP.backslash]
          exact (ih v w ts).2.1 h
        · rw [tokens_literal_other v text hq hb] at h
          exact ((ih (v ++ [b]) w ts).1 h).byte
    · rw [tokens_escape] at h
      exact ((ih (v ++ unescape b) w ts).1 h).escape hP
    · by_cases hq : b = quoteByte
      · subst hq
        rw [tokens_quote_quote] at h
        exact ((ih (v ++ [quoteByte]) w ts).1 h).byte.mono (Nat.le_succ _)
      · rw [tokens_quote_other v text hq] at h
        obtain ⟨us, -, hus⟩ := Option.map_eq_some_iff.mp h
        cases hus
        exact extends_self v (Nat.succ_pos _)

/-! ### Values that a literal denotes as they are -/

/-- No quote, and no backslash but before `%` or `_`. -/
def Clean : List UInt8 → Prop
  | [] => True
  | b :: bs =>
    if b = backslash then
      match bs with
      | [] => False
      | c :: cs => isWildcard c = true ∧ Clean cs
    else b ≠ quoteByte ∧ Clean bs

instance decidableClean : (value : List UInt8) → Decidable (Clean value)
  | [] => .isTrue trivial
  | [b] => by
    unfold Clean
    have := decidableClean []
    infer_instance
  | b :: c :: cs => by
    unfold Clean
    have := decidableClean cs
    have := decidableClean (c :: cs)
    infer_instance

example : Clean [97, 92, 37] ∧ ¬ Clean [97, 92] ∧ ¬ Clean [39] := by decide

private theorem clean_cons {b : UInt8} (hb : b ≠ backslash) (bs : List UInt8) :
    Clean (b :: bs) ↔ b ≠ quoteByte ∧ Clean bs := by
  cases bs <;> simp [Clean, hb]

/-- A text without quotes and backslashes is clean. -/
theorem clean_of_forall {value : List UInt8}
    (h : ∀ b ∈ value, b ≠ backslash ∧ b ≠ quoteByte) : Clean value := by
  induction value with
  | nil => trivial
  | cons b bs ih =>
    have hb := h b List.mem_cons_self
    exact (clean_cons hb.1 bs).mpr ⟨hb.2, ih fun c hc => h c (List.mem_cons_of_mem b hc)⟩

/-- A byte by which the text goes on after a literal: a blank, `,` or `)`. -/
def isSeparator (b : UInt8) : Bool := b = 32 || b = 44 || b = 41

/-- The text is at its end or goes on with a separator. -/
def Resumes (rest : List UInt8) : Prop := ∀ b ∈ rest.head?, isSeparator b = true

/-- An escape stands for another byte than a control character only as itself. -/
theorem eq_of_escaped {b r : UInt8} (hr : r = backslash ∨ isSeparator r = true)
    (h : escaped b = r) : b = r := by
  subst h
  revert hr
  unfold escaped
  split_ifs <;> first | exact fun _ => rfl | exact fun h => absurd h (by decide)

private theorem steady_separator {r : UInt8} (hr : isSeparator r = true) : Steady (· == r) := by
  have hcases : r = 32 ∨ r = 44 ∨ r = 41 := by simpa [isSeparator, or_assoc] using hr
  have hquote : (quoteByte == r) = false := by rcases hcases with rfl | rfl | rfl <;> rfl
  have hback : (backslash == r) = false := by rcases hcases with rfl | rfl | rfl <;> rfl
  have hself : unescape r = [r] := by rcases hcases with rfl | rfl | rfl <;> rfl
  refine ⟨hquote, hback, ?_, ?_⟩
  · intro b hb
    rw [beq_iff_eq.mp hb, hself]
  · intro b hb c hc
    unfold unescape at hc
    split at hc
    · rcases List.mem_pair.mp hc with rfl | rfl
      · exact hback
      · exact hb
    · rw [List.mem_singleton.mp hc, beq_eq_false_iff_ne]
      exact fun h => (beq_eq_false_iff_ne.mp hb) (eq_of_escaped (.inr hr) h)

private theorem steady_none : Steady fun _ => false := by
  refine ⟨rfl, rfl, ?_, ?_⟩
  · intro b h
    cases h
  · intros
    rfl

/-- A literal that has fallen behind its value never catches up: its first separator would come
before the first one of the text it is read from. -/
theorem tokens_ne_of_behind {v p g rest : List UInt8} (hp : p ≠ [])
    (hsep : ∀ b ∈ p, isSeparator b = false) (hr : Resumes rest) (ts : List Token) :
    tokens (.literal quoteByte v) (g ++ quoteByte :: rest) ≠
      some (.literal (v ++ (p ++ g)) :: ts) := by
  intro h
  obtain ⟨r, hsr, hrest⟩ : ∃ r, isSeparator r = true ∧ rest.findIdx (· == r) = 0 := by
    cases rest with
    | nil => exact ⟨32, rfl, rfl⟩
    | cons r rest => exact ⟨r, hr r rfl, by simp [List.findIdx_cons]⟩
  have hP := steady_separator hsr
  obtain ⟨value, hv, hidx, hlen⟩ := (literal_lags hP _ v _ ts).1 h
  obtain rfl := List.append_cancel_left hv
  have hlp : 0 < p.length := List.length_pos_iff.mpr hp
  have hpmiss : ∀ b ∈ p, (b == r) = false := by
    intro b hb
    rw [beq_eq_false_iff_ne]
    rintro rfl
    rw [hsep b hb] at hsr
    cases hsr
  have htext : (quoteByte :: rest).findIdx (· == r) = 1 := by
    rw [List.findIdx_cons, hP.quote, cond_false, hrest]
  rw [List.findIdx_append, List.findIdx_eq_length.mpr hpmiss, if_neg (Nat.lt_irrefl _),
    List.findIdx_append, htext] at hidx
  rw [List.findIdx_append, htext, List.length_append] at hlen
  by_cases hg : g.findIdx (· == r) < g.length
  · rw [if_pos hg] at hidx
    omega
  · have hgl : g.findIdx (· == r) = g.length := Nat.le_antisymm List.findIdx_le_length (by omega)
    have hall : ∀ b ∈ p ++ g, (b == r) = false := by
      intro b hb
      rcases List.mem_append.mp hb with h | h
      · exact hpmiss b h
      · exact List.findIdx_eq_length.mp hgl b h
    have hlt := hlen hall
    rw [if_neg hg] at hlt
    omega

/-- After its value a literal ends, and the text goes on. -/
theorem tokens_literal_end {rest : List UInt8} (hr : Resumes rest) (v : List UInt8) :
    tokens (.literal quoteByte v) (quoteByte :: rest) =
      (tokenise rest).map (.literal v :: ·) := by
  rw [tokens_literal_quote]
  cases rest with
  | nil => rfl
  | cons r rest =>
    apply tokens_quote_other
    rintro rfl
    exact absurd (hr quoteByte rfl) (by decide)

/-- A literal reads on behind a value that is complete: it is longer than that. -/
theorem tokens_rest_ne {rest : List UInt8} (hr : Resumes rest) (v : List UInt8)
    (ts : List Token) : tokens (.literal quoteByte v) rest ≠ some (.literal v :: ts) := by
  intro h
  cases rest with
  | nil => cases h
  | cons r rest =>
    obtain ⟨value, hv, -, hlen⟩ := (literal_lags (steady_separator (hr r rfl)) _ v _ ts).1 h
    obtain rfl : value = [] := by simpa using hv
    have hlt := hlen fun b hb => absurd hb List.not_mem_nil
    simp [List.findIdx_cons] at hlt

/-- A quote in a value ends its literal or makes it fall behind. -/
theorem tokens_quote_ne {f rest : List UInt8} (hr : Resumes rest) (v : List UInt8)
    (ts : List Token) :
    tokens (.literal quoteByte v) (quoteByte :: (f ++ quoteByte :: rest)) ≠
      some (.literal (v ++ quoteByte :: f) :: ts) := by
  rw [tokens_literal_quote]
  cases f with
  | nil =>
    rw [List.nil_append, tokens_quote_quote]
    exact tokens_rest_ne hr _ ts
  | cons c cs =>
    by_cases hc : c = quoteByte
    · subst hc
      rw [List.cons_append, tokens_quote_quote,
        show v ++ quoteByte :: quoteByte :: cs = (v ++ [quoteByte]) ++ ([quoteByte] ++ cs) by simp]
      exact tokens_ne_of_behind (by simp) (List.forall_mem_singleton.mpr rfl) hr ts
    · rw [List.cons_append, tokens_quote_other _ _ hc]
      intro h
      obtain ⟨us, -, hus⟩ := Option.map_eq_some_iff.mp h
      simp at hus

/-- A backslash in a value changes it unless it stands before `%` or `_`. -/
theorem tokens_backslash_ne {f rest : List UInt8} (hr : Resumes rest) (v : List UInt8)
    (ts : List Token) (hf : ∀ c ∈ f.head?, isWildcard c = false) :
    tokens (.literal quoteByte v) (backslash :: (f ++ quoteByte :: rest)) ≠
      some (.literal (v ++ backslash :: f) :: ts) := by
  rw [tokens_literal_backslash]
  intro h
  obtain ⟨c, y, hcy, hw⟩ : ∃ c y, f ++ quoteByte :: rest = c :: y ∧ isWildcard c = false := by
    cases f with
    | nil => exact ⟨quoteByte, rest, rfl, rfl⟩
    | cons c cs => exact ⟨c, cs ++ quoteByte :: rest, rfl, hf c rfl⟩
  rw [hcy, tokens_escape, unescape, if_neg (by simp [hw])] at h
  obtain ⟨value, hv, -⟩ := (literal_lags steady_none _ _ _ ts).1 h
  -- the byte behind the backslash is a second one, and the literal has lost one of the two
  have hc : c = backslash := by
    apply eq_of_escaped (.inl rfl)
    simp at hv
    exact hv.1.symm
  subst hc
  cases f with
  | nil => cases hcy
  | cons d cs =>
    obtain ⟨rfl, rfl⟩ := List.cons.inj hcy
    refine tokens_ne_of_behind (v := v ++ [backslash]) (p := [backslash]) (g := cs) (by simp)
      (List.forall_mem_singleton.mpr rfl) hr ts ?_
    simpa [show escaped backslash = backslash from rfl] using h

/-- A quoted value is denoted by its literal exactly if it is clean. -/
theorem tokens_literal_iff {f rest : List UInt8} (hr : Resumes rest) (v : List UInt8)
    (ts : List Token) :
    tokens (.literal quoteByte v) (f ++ quoteByte :: rest) = some (.literal (v ++ f) :: ts) ↔
      Clean f ∧ tokenise rest = some ts := by
  induction f using Clean.induct generalizing v with
  | case1 =>
    rw [List.nil_append, List.append_nil, tokens_literal_end hr]
    simp [Clean]
  | case2 =>
    refine iff_of_false (tokens_backslash_ne hr v ts fun c hc => by cases hc) ?_
    simp [Clean]
  | case3 c cs ih =>
    by_cases hw : isWildcard c = true
    · have hv : v ++ backslash :: c :: cs = (v ++ [backslash, c]) ++ cs := by simp
      rw [List.cons_append, List.cons_append, tokens_literal_backslash, tokens_escape, unescape,
        if_pos hw, hv, ih]
      simp [Clean, hw]
    · refine iff_of_false (tokens_backslash_ne hr v ts fun d hd => ?_) ?_
      · cases hd
        exact Bool.eq_false_iff.mpr hw
      · simp [Clean, hw]
  | case4 b bs hb ih =>
    by_cases hq : b = quoteByte
    · subst hq
      refine iff_of_false (tokens_quote_ne hr v ts) ?_
      simp [clean_cons hb]
    · have hv : v ++ b :: bs = (v ++ [b]) ++ bs := by simp
      rw [List.cons_append, tokens_literal_other v _ hq hb, hv, ih, clean_cons hb]
      simp [hq]

/-! ### Statements with quoted values -/

/-- A value written between quotes, and the text up to the next one. -/
structure Slot where
  value : List UInt8
  text : List UInt8

/-- `'value'` and the text behind it. -/
def Slot.render (s : Slot) : List UInt8 := quoteByte :: (s.value ++ quoteByte :: s.text)

/-- Every text but the last begins with a separator. -/
def Separated : List Slot → Prop
  | [] => True
  | s :: slots => Resumes s.text ∧ (s.text = [] → slots = []) ∧ Separated slots

/-- A statement whose values are written between quotes as they are. Its own texts open no
literal. -/
structure Statement where
  first : List UInt8
  slots : List Slot
  plain : ∀ t ∈ first :: slots.map Slot.text, Plain t
  separated : Separated slots

namespace Statement

def render (st : Statement) : List UInt8 := st.first ++ st.slots.flatMap Slot.render

/-- The tokens of its texts, and each value as one literal. -/
def tokens (st : Statement) : List Token :=
  textTokens st.first ++ st.slots.flatMap fun s => .literal s.value :: textTokens s.text

end Statement

private theorem map_append_eq_some_iff {us ts : List Token} {x : Option (List Token)} :
    x.map (us ++ ·) = some (us ++ ts) ↔ x = some ts := by
  simp

/-- A cut at or before a quote cuts off more than blanks. -/
theorem not_spaces_of_quote {x y : List UInt8} {n : Nat} (hn : n ≤ x.length) :
    ¬ ∀ b ∈ (x ++ quoteByte :: y).drop n, isSpace b = true := by
  intro h
  have hq := h quoteByte (by rw [List.drop_append_of_le_length hn]; simp)
  cases hq

/-- A literal that the cut leaves out is missing. -/
theorem tokenise_take_text_ne {t y : List UInt8} (ht : Plain t) {n : Nat} (hn : n ≤ t.length)
    (value : List UInt8) (ts : List Token) :
    tokenise ((t ++ y).take n) ≠ some (textTokens t ++ .literal value :: ts) := by
  intro h
  rw [List.take_append_of_le_length hn, tokenise_plain (ht.take n)] at h
  refine literal_notMem_textTokens (ht.take n) value ?_
  rw [Option.some.inj h]
  simp

/-- A literal that is cut within its value is not its value. -/
theorem tokens_take_ne {value y : List UInt8} {n : Nat} (hn : n ≤ value.length)
    (ts : List Token) :
    tokens (.literal quoteByte []) ((value ++ y).take n) ≠ some (.literal value :: ts) := by
  intro h
  rw [List.take_append_of_le_length hn] at h
  obtain ⟨w, hw, -, hlen⟩ := (literal_lags steady_none _ _ _ ts).1 h
  rw [List.nil_append] at hw
  subst hw
  have hlt := hlen fun _ _ => rfl
  have hle : (value.take n).findIdx (fun _ => false) ≤ (value.take n).length :=
    List.findIdx_le_length
  rw [List.length_take] at hle
  omega

private theorem resumes_take {s : Slot} {slots : List Slot} (h : Separated (s :: slots)) (n : Nat) :
    Resumes ((s.text ++ slots.flatMap Slot.render).take n) := by
  obtain ⟨hs, hnil, -⟩ := h
  intro b hb
  cases n with
  | zero => cases hb
  | succ n =>
    cases ht : s.text with
    | nil =>
      rw [ht, hnil ht] at hb
      cases hb
    | cons c cs =>
      rw [ht] at hb
      cases hb
      exact hs b (by rw [ht]; rfl)

/-- Cut to `n` bytes, a text followed by quoted values keeps its tokens exactly if the values
are clean and only blanks are cut off. -/
theorem tokenise_take_slots_iff (slots : List Slot) {t : List UInt8}
    (hp : ∀ u ∈ t :: slots.map Slot.text, Plain u) (hs : Separated slots) (n : Nat) :
    tokenise ((t ++ slots.flatMap Slot.render).take n) =
        some (textTokens t ++ slots.flatMap fun s => .literal s.value :: textTokens s.text) ↔
      (∀ s ∈ slots, Clean s.value) ∧
        ∀ b ∈ (t ++ slots.flatMap Slot.render).drop n, isSpace b = true := by
  induction slots generalizing t n with
  | nil =>
    simp only [List.flatMap_nil, List.append_nil, List.not_mem_nil, false_implies,
      implies_true, true_and]
    exact tokenise_take_iff (hp t List.mem_cons_self) n
  | cons s slots ih =>
    have ht : Plain t := hp t List.mem_cons_self
    have hp' : ∀ u ∈ s.text :: slots.map Slot.text, Plain u :=
      fun u hu => hp u (List.mem_cons_of_mem t hu)
    have hrender : (s :: slots).flatMap Slot.render = quoteByte ::
        (s.value ++ quoteByte :: (s.text ++ slots.flatMap Slot.render)) := by
      simp [Slot.render]
    rw [hrender, List.flatMap_cons, List.cons_append]
    by_cases hn : n ≤ t.length
    · exact iff_of_false (tokenise_take_text_ne ht hn _ _) fun h => not_spaces_of_quote hn h.2
    · obtain ⟨m, rfl⟩ : ∃ m, n = t.length + (m + 1) := ⟨n - t.length - 1, by omega⟩
      rw [List.take_length_add_append, List.drop_length_add_append, List.take_succ_cons,
        List.drop_succ_cons, tokenise_append_quote ht, map_append_eq_some_iff]
      by_cases hm : m ≤ s.value.length
      · exact iff_of_false (tokens_take_ne hm _) fun h => not_spaces_of_quote hm h.2
      · obtain ⟨k, rfl⟩ : ∃ k, m = s.value.length + (k + 1) := ⟨m - s.value.length - 1, by omega⟩
        rw [List.take_length_add_append, List.drop_length_add_append, List.take_succ_cons,
          List.drop_succ_cons]
        have hlit := tokens_literal_iff (f := s.value) (resumes_take hs k) []
        simp only [List.nil_append] at hlit
        rw [hlit, ih hp' hs.2.2 k]
        simp [and_assoc]

/-- A rendered statement that is cut off reads as its tokens exactly if its values are clean and
only spaces are lost. -/
theorem Statement.tokenise_take_iff (st : Statement) (n : Nat) :
    tokenise (st.render.take n) = some st.tokens ↔
      (∀ s ∈ st.slots, Clean s.value) ∧ ∀ b ∈ st.render.drop n, isSpace b = true :=
  tokenise_take_slots_iff st.slots st.plain st.separated n

end IMServer.Base.Sql
