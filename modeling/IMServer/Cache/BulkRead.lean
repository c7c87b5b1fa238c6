import IMServer.Base.Decimal
import IMServer.Base.OrderedMap
import IMServer.Cache.Encoding

/-!
# Reading several keys at once

`CacheConn::mget` and `CacheConn::get` of `server/src/CachePool.cc`, over a model of how hiredis
reads its command format. `get` passes its key as the argument of `%s` and copies the value by its
length. `mget` joins the keys into the format itself, pairs the replies with the keys by position,
and copies each value as a C string.

The two agree for every content whose values have no zero byte exactly when no key has a space and
no `%` stands before the end of the format; and then exactly where the values that are read have no
zero byte.
-/

namespace IMServer.Cache.CacheConn

open IMServer.Base

/-! ### hiredis -/

def percent : UInt8 := 37

/-- The arguments of a command format, when `cur` has been read of the first one: they are separated
by spaces, `%s` stands for the next of `vargs` and `%%` for `%`, and `%` at the end for itself. Any
other conversion, and `%s` without an argument, read memory that is not theirs. -/
def format : List (List UInt8) → Option (List UInt8) → List UInt8 → Option (List (List UInt8))
  | _, cur, [] => some cur.toList
  | _, cur, [c] => some (if c = space then cur.toList else [cur.getD [] ++ [c]])
  | vargs, cur, c :: d :: rest =>
    if c = percent then
      if d = 115 then
        match vargs with
        | [] => none
        | arg :: vargs => format vargs (some (cur.getD [] ++ arg)) rest
      else if d = percent then format vargs (some (cur.getD [] ++ [percent])) rest
      else none
    else if c = space then (format vargs none (d :: rest)).map (cur.toList ++ ·)
    else format vargs (some (cur.getD [] ++ [c])) (d :: rest)

/-! ### Redis -/

/-- A value is a string, or a list, a hash and so on. -/
inductive Value where
  | string (v : List UInt8)
  | other

abbrev Content := List UInt8 → Option Value

/-- The string that a key holds. -/
def stringAt (content : Content) (key : List UInt8) : Option (List UInt8) :=
  match content key with
  | some (.string v) => some v
  | _ => none

/-- A `redisReply`; the elements of an array are strings or nil. -/
inductive Reply where
  | string (v : List UInt8)
  | nil
  | error
  | array (elements : List (Option (List UInt8)))

/-- What Redis answers to `GET` and `MGET`. -/
def execute (content : Content) : List (List UInt8) → Reply
  | [] => .error
  | command :: args =>
    if command = bytesOf "GET" then
      match args with
      | [key] =>
        match content key with
        | some (.string v) => .string v
        | some .other => .error
        | none => .nil
      | _ => .error
    else if command = bytesOf "MGET" ∧ args ≠ [] then .array (args.map (stringAt content))
    else .error

/-! ### The connection -/

/-- The map that `mget` fills. -/
abbrev Map := OrderedMap ByteString (List UInt8)

/-- `CacheConn::get`, `CachePool.cc:66–99`, when Redis can be reached. -/
def get (content : Content) (key : List UInt8) : Option (List UInt8) :=
  (format [cString key] none (bytesOf "GET %s")).map fun args =>
    match execute content args with
    | .string v => v
    | _ => []

/-- `strKey` after the loop of `mget`, :265–276. -/
def joinKeys : List (List UInt8) → List UInt8
  | [] => []
  | key :: keys => key ++ keys.flatMap (space :: ·)

/-- The loop over the reply, :293–300; nothing when `keys[i]` is outside the vector. -/
def fill : List (List UInt8) → List (Option (List UInt8)) → Map → Option Map
  | _, [], ret => some ret
  | keys, none :: elements, ret => fill keys.tail elements ret
  | [], some _ :: _, _ => none
  | key :: keys, some v :: elements, ret => fill keys elements (ret.set ⟨key⟩ (cString v))

/-- `CacheConn::mget`, `CachePool.cc:251–304`, when Redis can be reached. -/
def mget (content : Content) (keys : List (List UInt8)) (ret : Map) : Option (Bool × Map) :=
  if keys = [] then some (false, ret)
  else if joinKeys keys = [] then some (false, ret)
  else
    (format [] none (cString (bytesOf "MGET " ++ joinKeys keys))).bind fun args =>
      match execute content args with
      | .array elements => (fill keys elements ret).map (true, ·)
      | _ => some (true, ret)

/-- `mget` returns `true` and the map holds the keys with a string value and what `get` returns for
them. -/
def Agrees (content : Content) (keys : List (List UInt8)) : Prop :=
  ∃ m, mget content keys OrderedMap.empty = some (true, m) ∧
    ∀ key, m.find ⟨key⟩ =
      if key ∈ keys ∧ stringAt content key ≠ none then get content key else none

/-- No key has a space, and no `%` stands before the end of the format. -/
def Plain (keys : List (List UInt8)) : Prop :=
  (∀ key ∈ keys, space ∉ key) ∧ percent ∉ (joinKeys keys).dropLast

instance (keys : List (List UInt8)) : Decidable (Plain keys) := inferInstanceAs (Decidable (_ ∧ _))

/-! ### Single reads -/

/-- `get` is the value of the key without its zero byte, or the empty string. -/
theorem get_eq (content : Content) (key : List UInt8) :
    get content key = some ((stringAt content (cString key)).getD []) := by
  have hformat : format [cString key] none (bytesOf "GET %s") =
      some [bytesOf "GET", cString key] := rfl
  rw [get, hformat, Option.map_some, execute, if_pos rfl, stringAt]
  cases content (cString key) with
  | none => rfl
  | some value => cases value <;> rfl

private theorem execute_mget {args : List (List UInt8)} (content : Content) (h : args ≠ []) :
    execute content (bytesOf "MGET" :: args) = .array (args.map (stringAt content)) := by
  unfold execute
  dsimp only
  rw [if_neg (by decide), if_pos ⟨rfl, h⟩]

/-! ### The format of a bulk read -/

section Format

variable {cur : Option (List UInt8)} {word rest : List UInt8} {args : List (List UInt8)}

private theorem format_cons (hc : word ≠ []) {c : UInt8} (hp : c ≠ percent) (hs : c ≠ space) :
    format [] cur (c :: word) = format [] (some (cur.getD [] ++ [c])) word := by
  cases word with
  | nil => exact absurd rfl hc
  | cons d word => rw [format, if_neg hp, if_neg hs]

/-- A word before a space is an argument. -/
theorem format_word (hp : percent ∉ word) (hs : space ∉ word) (hrest : rest ≠ []) :
    format [] cur (word ++ space :: rest) =
      (format [] none rest).map
        ((if word = [] then cur.toList else [cur.getD [] ++ word]) ++ ·) := by
  induction word generalizing cur with
  | nil =>
    cases rest with
    | nil => exact absurd rfl hrest
    | cons d rest =>
      rw [List.nil_append, format, if_neg (by decide), if_pos rfl]
      rfl
  | cons c word ih =>
    obtain ⟨hpc, hp⟩ := not_or.mp (mt List.mem_cons.mpr hp)
    obtain ⟨hsc, hs⟩ := not_or.mp (mt List.mem_cons.mpr hs)
    rw [List.cons_append, format_cons (by simp) (Ne.symm hpc) (Ne.symm hsc), ih hp hs,
      if_neg (List.cons_ne_nil c word)]
    split
    · next hword => rw [hword]; rfl
    · rw [Option.getD_some, List.append_assoc, List.singleton_append]

/-- The last word is an argument, also with a `%` at its end. -/
theorem format_last (hp : percent ∉ word.dropLast) (hs : space ∉ word) (hne : word ≠ []) :
    format [] cur word = some [cur.getD [] ++ word] := by
  induction word generalizing cur with
  | nil => exact absurd rfl hne
  | cons c word ih =>
    obtain ⟨hsc, hs⟩ := not_or.mp (mt List.mem_cons.mpr hs)
    cases word with
    | nil => rw [format, if_neg (Ne.symm hsc)]
    | cons d word =>
      rw [List.dropLast_cons_of_ne_nil (List.cons_ne_nil d word)] at hp
      obtain ⟨hpc, hp⟩ := not_or.mp (mt List.mem_cons.mpr hp)
      rw [format_cons (List.cons_ne_nil d word) (Ne.symm hpc) (Ne.symm hsc),
        ih hp hs (List.cons_ne_nil d word), Option.getD_some, List.append_assoc,
        List.singleton_append]

/-- How many bytes arguments can have: a space separates, and `%%` counts for one byte. -/
def literal (text : List UInt8) : Nat := text.countP (· ≠ space)

private theorem literal_cons_of_ne {c : UInt8} (h : c ≠ space) (text : List UInt8) :
    literal (c :: text) = literal text + 1 :=
  List.countP_cons_of_pos (decide_eq_true h)

private theorem literal_space (text : List UInt8) : literal (space :: text) = literal text :=
  List.countP_cons_of_neg (by decide)

/-- What is known of the arguments of a format without conversions: they have no space, they are no
longer than the format, and shorter if a `%` stands before its end. -/
structure Literal (cur : Option (List UInt8)) (text : List UInt8) (args : List (List UInt8)) :
    Prop where
  spaceless : ∀ arg ∈ args, space ∈ arg → space ∈ cur.getD []
  length_le : args.flatten.length ≤ (cur.getD []).length + literal text
  whole : args.flatten.length = (cur.getD []).length + literal text → percent ∉ text.dropLast

private theorem Literal.toList (cur : Option (List UInt8)) : Literal cur [] cur.toList := by
  cases cur with
  | none => exact ⟨fun _ h => absurd h List.not_mem_nil, Nat.zero_le _, fun _ => List.not_mem_nil⟩
  | some a =>
    refine ⟨fun arg harg hs => ?_, ?_, fun _ => List.not_mem_nil⟩
    · rwa [List.mem_singleton.mp harg] at hs
    · rw [Option.toList_some, List.flatten_singleton]
      exact Nat.le_add_right _ _

private theorem Literal.space (h : Literal none rest args) :
    Literal cur (space :: rest) (cur.toList ++ args) := by
  have hcur : cur.toList.flatten.length = (cur.getD []).length := by
    cases cur with
    | none => rfl
    | some a => rw [Option.toList_some, List.flatten_singleton, Option.getD_some]
  have hle : args.flatten.length ≤ 0 + literal rest := h.length_le
  refine ⟨fun arg harg hs => ?_, ?_, fun heq => ?_⟩
  · rcases List.mem_append.mp harg with harg | harg
    · rwa [Option.mem_toList.mp harg]
    · exact absurd (h.spaceless arg harg hs) List.not_mem_nil
  · rw [List.flatten_append, List.length_append, hcur, literal_space]
    omega
  · rw [List.flatten_append, List.length_append, hcur, literal_space] at heq
    have hrest : percent ∉ rest.dropLast :=
      h.whole (by rw [Option.getD_none, List.length_nil]; omega)
    cases rest with
    | nil => exact List.not_mem_nil
    | cons d rest =>
      rw [List.dropLast_cons_of_ne_nil (List.cons_ne_nil d rest)]
      exact fun hp => (List.mem_cons.mp hp).elim (by decide) hrest

private theorem Literal.char {c : UInt8} (hs : c ≠ Base.space) (hp : c ≠ percent ∨ rest = [])
    (h : Literal (some (cur.getD [] ++ [c])) rest args) : Literal cur (c :: rest) args := by
  have hcur : ((some (cur.getD [] ++ [c])).getD []).length = (cur.getD []).length + 1 := by
    rw [Option.getD_some, List.length_append, List.length_singleton]
  have hle := h.length_le
  rw [hcur] at hle
  refine ⟨fun arg harg hsp => ?_, ?_, fun heq => ?_⟩
  · rcases List.mem_append.mp (h.spaceless arg harg hsp) with hmem | hmem
    · exact hmem
    · exact absurd (List.mem_singleton.mp hmem).symm hs
  · rw [literal_cons_of_ne hs]
    omega
  · rw [literal_cons_of_ne hs] at heq
    have hrest : percent ∉ rest.dropLast := h.whole (by rw [hcur]; omega)
    cases rest with
    | nil => exact List.not_mem_nil
    | cons d rest =>
      rw [List.dropLast_cons_of_ne_nil (List.cons_ne_nil d rest)]
      have hc : c ≠ percent := hp.resolve_right (List.cons_ne_nil d rest)
      exact fun hmem => (List.mem_cons.mp hmem).elim (fun heq => hc heq.symm) hrest

private theorem Literal.percent (h : Literal (some (cur.getD [] ++ [percent])) rest args) :
    Literal cur (percent :: percent :: rest) args := by
  have hcur : ((some (cur.getD [] ++ [CacheConn.percent])).getD []).length =
      (cur.getD []).length + 1 := by
    rw [Option.getD_some, List.length_append, List.length_singleton]
  have hle := h.length_le
  rw [hcur] at hle
  have htext : literal (CacheConn.percent :: CacheConn.percent :: rest) = literal rest + 2 := by
    rw [literal_cons_of_ne (by decide), literal_cons_of_ne (by decide)]
  refine ⟨fun arg harg hsp => ?_, by omega, fun heq => by omega⟩
  rcases List.mem_append.mp (h.spaceless arg harg hsp) with hmem | hmem
  · exact hmem
  · exact absurd (List.mem_singleton.mp hmem) (by decide)

private theorem format_literal (h : format [] cur rest = some args) : Literal cur rest args := by
  -- a conversion takes two bytes, so the induction is on the length
  induction hn : rest.length using Nat.strong_induction_on generalizing cur rest args with
  | _ n ih =>
    subst hn
    cases rest with
    | nil =>
      cases h
      exact .toList cur
    | cons c rest =>
      cases rest with
      | nil =>
        rw [format] at h
        split at h
        · next hc =>
          cases h
          rw [hc, ← List.append_nil cur.toList]
          exact .space (.toList none)
        · next hc =>
          cases h
          exact .char hc (.inr rfl) (.toList (some _))
      | cons d rest =>
        have hlt : (d :: rest).length < (c :: d :: rest).length := Nat.lt_succ_self _
        rw [format] at h
        split at h
        · next hc =>
          split at h
          · cases h
          · split at h
            · next hd =>
              rw [hc, hd]
              exact .percent (ih rest.length (Nat.lt_of_succ_lt hlt) h rfl)
            · cases h
        · next hp =>
          split at h
          · next hc =>
            obtain ⟨args', hargs, rfl⟩ := Option.map_eq_some_iff.mp h
            rw [hc]
            exact .space (ih _ hlt hargs rfl)
          · next hs => exact .char hs (.inl hp) (ih _ hlt h rfl)

end Format

section Keys

variable {keys : List (List UInt8)}

private theorem joinKeys_cons_cons (key key' : List UInt8) (keys : List (List UInt8)) :
    joinKeys (key :: key' :: keys) = key ++ space :: joinKeys (key' :: keys) := rfl

private theorem joinKeys_ne_nil (hne : keys ≠ []) (hkeys : ∀ key ∈ keys, key ≠ []) :
    joinKeys keys ≠ [] := by
  cases keys with
  | nil => exact absurd rfl hne
  | cons key keys => exact List.append_ne_nil_of_left_ne_nil (hkeys key List.mem_cons_self) _

/-- The bytes of the keys, without the spaces between them. -/
theorem literal_joinKeys (h : ∀ key ∈ keys, space ∉ key) :
    literal (joinKeys keys) = keys.flatten.length := by
  induction keys with
  | nil => rfl
  | cons key keys ih =>
    have hkey : literal key = key.length := by
      apply List.countP_eq_length.mpr
      intro b hb
      exact decide_eq_true fun hs => h key List.mem_cons_self (hs ▸ hb)
    have htail := ih fun key' hkey' => h key' (List.mem_cons_of_mem key hkey')
    cases keys with
    | nil => rw [List.flatten_singleton, joinKeys, List.flatMap_nil, List.append_nil, hkey]
    | cons key' keys =>
      rw [joinKeys_cons_cons, literal, List.countP_append, List.countP_cons_of_neg (by decide),
        ← literal, ← literal, hkey, htail, List.flatten_cons (l := key), List.length_append]

/-- Plain keys are read as they are. -/
theorem format_joinKeys (hne : keys ≠ []) (hkeys : ∀ key ∈ keys, key ≠ []) (h : Plain keys) :
    format [] none (joinKeys keys) = some keys := by
  obtain ⟨hspace, hpercent⟩ := h
  induction keys with
  | nil => exact absurd rfl hne
  | cons key keys ih =>
    have hs := hspace key List.mem_cons_self
    have hkey := hkeys key List.mem_cons_self
    cases keys with
    | nil =>
      rw [joinKeys, List.flatMap_nil, List.append_nil] at hpercent ⊢
      rw [format_last hpercent hs hkey, Option.getD_none, List.nil_append]
    | cons key' keys =>
      have htailKeys : ∀ k ∈ key' :: keys, k ≠ [] :=
        fun k hk => hkeys k (List.mem_cons_of_mem key hk)
      have htailNe := joinKeys_ne_nil (List.cons_ne_nil key' keys) htailKeys
      rw [joinKeys_cons_cons, List.dropLast_append_of_ne_nil (List.cons_ne_nil _ _),
        List.dropLast_cons_of_ne_nil htailNe] at hpercent
      have hp : percent ∉ key := fun h => hpercent (List.mem_append_left _ h)
      have htail := ih (List.cons_ne_nil key' keys) htailKeys
        (fun k hk => hspace k (List.mem_cons_of_mem key hk))
        (fun h => hpercent (List.mem_append_right _ (List.mem_cons_of_mem _ h)))
      rw [joinKeys_cons_cons, format_word hp hs htailNe, htail, if_neg hkey]
      rfl

/-- A format that is read as the keys themselves comes from plain keys. -/
theorem plain_of_format (h : format [] none (joinKeys keys) = some keys) : Plain keys := by
  have hliteral := format_literal h
  have hspace : ∀ key ∈ keys, space ∉ key := fun key hkey hs =>
    absurd (hliteral.spaceless key hkey hs) List.not_mem_nil
  refine ⟨hspace, hliteral.whole ?_⟩
  rw [literal_joinKeys hspace, Option.getD_none, List.length_nil, Nat.zero_add]

/-- The command before the keys. -/
theorem format_command {rest : List UInt8} (hrest : rest ≠ []) :
    format [] none (bytesOf "MGET " ++ rest) =
      (format [] none rest).map (bytesOf "MGET" :: ·) :=
  format_word (show percent ∉ bytesOf "MGET" by decide) (by decide) hrest

private theorem zero_notMem_joinKeys (h : ∀ key ∈ keys, 0 ∉ key) : 0 ∉ joinKeys keys := by
  cases keys with
  | nil => exact List.not_mem_nil
  | cons key keys =>
    intro h0
    rcases List.mem_append.mp h0 with h0 | h0
    · exact h key List.mem_cons_self h0
    · obtain ⟨key', hkey', h0⟩ := List.mem_flatMap.mp h0
      rcases List.mem_cons.mp h0 with h0 | h0
      · exact absurd h0 (by decide)
      · exact h key' (List.mem_cons_of_mem key hkey') h0

end Keys

/-! ### Pairing by position -/

section Fill

variable {keys args : List (List UInt8)} {content : Content} {m m' : Map} {x : List UInt8}

/-- The replies to the keys themselves, none of them twice, are paired rightly. -/
theorem fill_keys (content : Content) (m : Map) (hnodup : keys.Nodup) :
    ∃ m', fill keys (keys.map (stringAt content)) m = some m' ∧
      ∀ key, m'.find ⟨key⟩ =
        if key ∈ keys ∧ stringAt content key ≠ none then (stringAt content key).map cString
        else m.find ⟨key⟩ := by
  induction keys generalizing m with
  | nil => exact ⟨m, rfl, fun key => by rw [if_neg fun h => List.not_mem_nil h.1]⟩
  | cons key keys ih =>
    obtain ⟨hhead, htail⟩ := List.nodup_cons.mp hnodup
    rw [List.map_cons]
    cases hvalue : stringAt content key with
    | none =>
      obtain ⟨m', hfill, hfind⟩ := ih (m := m) htail
      refine ⟨m', hfill, fun k => ?_⟩
      rw [hfind k]
      by_cases hk : k = key
      · subst hk
        rw [if_neg fun h => h.2 hvalue, if_neg fun h => h.2 hvalue]
      · simp only [List.mem_cons, hk, false_or]
    | some v =>
      obtain ⟨m', hfill, hfind⟩ := ih (m := m.set ⟨key⟩ (cString v)) htail
      refine ⟨m', hfill, fun k => ?_⟩
      rw [hfind k, ByteString.find_set]
      by_cases hk : k = key
      · subst hk
        rw [if_neg fun h => hhead h.1, if_pos rfl, hvalue,
          if_pos ⟨List.mem_cons_self, Option.some_ne_none v⟩, Option.map_some]
      · simp only [List.mem_cons, hk, false_or, if_false]

/-- The content with one key. -/
def only (x : List UInt8) : Content := fun key => if key = x then some (.string [118]) else none

private theorem stringAt_only (x key : List UInt8) :
    stringAt (only x) key = if key = x then some [118] else none := by
  unfold stringAt only
  by_cases h : key = x
  · rw [if_pos h, if_pos h]
  · rw [if_neg h, if_neg h]

/-- What the replies to arguments of which only `x` has a value make of a map: every `x` has a key
at its position, that key gets the value, and no other key does. -/
structure Filled (x : List UInt8) (keys args : List (List UInt8)) (m m' : Map) : Prop where
  paired : ∀ arg ∈ args.drop keys.length, arg ≠ x
  gets : ∀ key, (x, key) ∈ args.zip keys ∨ m.find ⟨key⟩ = some [118] →
    m'.find ⟨key⟩ = some [118]
  changed : ∀ key, m'.find ⟨key⟩ ≠ m.find ⟨key⟩ → (x, key) ∈ args.zip keys

private theorem Filled.nil (x : List UInt8) (keys : List (List UInt8)) (m : Map) :
    Filled x keys [] m m := by
  constructor
  · intro arg harg
    exact absurd (List.drop_nil ▸ harg) List.not_mem_nil
  · intro key hkey
    exact hkey.resolve_left (List.zip_nil_left ▸ List.not_mem_nil)
  · intro key hne
    exact absurd rfl hne

/-- The key at the position of `x` is set. -/
theorem Filled.hit {key : List UInt8} (h : Filled x keys args (m.set ⟨key⟩ [118]) m') :
    Filled x (key :: keys) (x :: args) m m' := by
  have hset := ByteString.find_set m key [118]
  constructor
  · exact h.paired
  · intro k hk
    rw [List.zip_cons_cons] at hk
    apply h.gets k
    rw [hset]
    rcases hk with hk | hk
    · rcases List.mem_cons.mp hk with hk | hk
      · exact .inr (if_pos (Prod.mk.inj hk).2)
      · exact .inl hk
    · right
      rw [hk]
      exact ite_self _
  · intro k hne
    rw [List.zip_cons_cons]
    by_cases hk : k = key
    · rw [hk]
      exact List.mem_cons_self
    · exact List.mem_cons_of_mem _ (h.changed k (by rwa [hset, if_neg hk]))

/-- The key at the position of another argument is passed over. -/
theorem Filled.skip {arg : List UInt8} (harg : arg ≠ x) (h : Filled x keys.tail args m m') :
    Filled x keys (arg :: args) m m' := by
  cases keys with
  | nil =>
    constructor
    · intro arg' harg'
      rcases List.mem_cons.mp harg' with rfl | harg'
      · exact harg
      · exact h.paired arg' harg'
    · intro k hk
      exact h.gets k (hk.imp_left fun hpair => absurd (List.zip_nil_right ▸ hpair) List.not_mem_nil)
    · intro k hne
      exact absurd (List.zip_nil_right ▸ h.changed k hne) List.not_mem_nil
  | cons key keys =>
    constructor
    · exact h.paired
    · intro k hk
      rw [List.zip_cons_cons] at hk
      apply h.gets k
      exact hk.imp_left fun hpair =>
        (List.mem_cons.mp hpair).resolve_left fun heq => harg (Prod.mk.inj heq).1.symm
    · intro k hne
      rw [List.zip_cons_cons]
      exact List.mem_cons_of_mem _ (h.changed k hne)

private theorem filled_of_fill (h : fill keys (args.map (stringAt (only x))) m = some m') :
    Filled x keys args m m' := by
  induction args generalizing keys m with
  | nil =>
    cases h
    exact .nil x keys _
  | cons arg args ih =>
    rw [List.map_cons, stringAt_only] at h
    by_cases harg : arg = x
    · rw [if_pos harg] at h
      subst harg
      cases keys with
      | nil => cases h
      | cons key keys => exact (ih h).hit
    · rw [if_neg harg] at h
      exact (ih h).skip harg

/-- Lists that agree where they are paired. -/
theorem isPrefix_of_zip (hzip : ∀ p ∈ args.zip keys, p.1 = p.2) (hle : args.length ≤ keys.length) :
    args <+: keys := by
  induction args generalizing keys with
  | nil => exact List.nil_prefix
  | cons arg args ih =>
    cases keys with
    | nil => exact absurd hle (Nat.not_succ_le_zero _)
    | cons key keys =>
      rw [List.zip_cons_cons] at hzip
      have hhead : arg = key := hzip (arg, key) List.mem_cons_self
      rw [hhead, List.prefix_cons_inj]
      exact ih (fun p hp => hzip p (List.mem_cons_of_mem _ hp)) (Nat.le_of_succ_le_succ hle)

/-- If every content with one key is read rightly, the arguments are the keys. -/
theorem args_eq_keys (hnodup : keys.Nodup)
    (h : ∀ x, ∃ m', fill keys (args.map (stringAt (only x))) OrderedMap.empty = some m' ∧
      ∀ key, m'.find ⟨key⟩ = if key ∈ keys ∧ key = x then some [118] else none) : args = keys := by
  have hzip : ∀ p ∈ args.zip keys, p.1 = p.2 := by
    rintro ⟨arg, key⟩ hp
    obtain ⟨m', hfill, hfind⟩ := h arg
    have hgets := (filled_of_fill hfill).gets key (.inl hp)
    rw [hfind] at hgets
    by_contra hne
    rw [if_neg fun hk => hne hk.2.symm] at hgets
    cases hgets
  have hle : args.length ≤ keys.length := by
    by_contra hgt
    have hdrop : args.drop keys.length ≠ [] := fun hnil => hgt (List.drop_eq_nil_iff.mp hnil)
    obtain ⟨m', hfill, -⟩ := h ((args.drop keys.length).head hdrop)
    exact (filled_of_fill hfill).paired _ (List.head_mem hdrop) rfl
  have hmem : ∀ key ∈ keys, key ∈ args := by
    intro key hkey
    obtain ⟨m', hfill, hfind⟩ := h key
    have hpair := (filled_of_fill hfill).changed key (by
      rw [hfind, if_pos ⟨hkey, rfl⟩]
      exact Option.some_ne_none _)
    exact (List.of_mem_zip hpair).1
  obtain ⟨rest, rfl⟩ := isPrefix_of_zip hzip hle
  cases rest with
  | nil => rw [List.append_nil]
  | cons key rest =>
    have hkey := hmem key (List.mem_append_right _ List.mem_cons_self)
    exact absurd rfl ((List.nodup_append.mp hnodup).2.2 key hkey key List.mem_cons_self)

end Fill

/-! ### Bulk and single reads -/

section Reads

variable {keys : List (List UInt8)} {content : Content}

/-- What `mget` does with keys that are not empty and have no zero byte: the format is read, and the
replies are paired with the keys. -/
theorem mget_eq (hne : keys ≠ []) (hkeys : ∀ key ∈ keys, key ≠ [] ∧ 0 ∉ key) (m : Map) :
    mget content keys m =
      (format [] none (joinKeys keys)).bind fun args =>
        if args = [] then some (true, m)
        else (fill keys (args.map (stringAt content)) m).map (true, ·) := by
  have hjoin := joinKeys_ne_nil hne fun key hkey => (hkeys key hkey).1
  have hzero : 0 ∉ bytesOf "MGET " ++ joinKeys keys := by
    intro h0
    rcases List.mem_append.mp h0 with h0 | h0
    · exact absurd h0 (by decide)
    · exact zero_notMem_joinKeys (fun key hkey => (hkeys key hkey).2) h0
  rw [mget, if_neg hne, if_neg hjoin, cString_of_notMem hzero, format_command hjoin]
  cases format [] none (joinKeys keys) with
  | none => rfl
  | some args =>
    rw [Option.map_some, Option.bind_some, Option.bind_some]
    by_cases hargs : args = []
    · rw [if_pos hargs, hargs]
      rfl
    · rw [if_neg hargs, execute_mget content hargs]

/-- Plain keys are read in one go as they are one by one exactly where their values have no zero
byte. -/
theorem agrees_iff_of_plain (hne : keys ≠ []) (hnodup : keys.Nodup)
    (hkeys : ∀ key ∈ keys, key ≠ [] ∧ 0 ∉ key) (hplain : Plain keys) (content : Content) :
    Agrees content keys ↔ ∀ key ∈ keys, ∀ v, stringAt content key = some v → 0 ∉ v := by
  obtain ⟨m, hfill, hfind⟩ := fill_keys content OrderedMap.empty hnodup
  have hmget : mget content keys OrderedMap.empty = some (true, m) := by
    rw [mget_eq hne hkeys, format_joinKeys hne (fun key hkey => (hkeys key hkey).1) hplain,
      Option.bind_some, if_neg hne, hfill, Option.map_some]
  have hget : ∀ key ∈ keys, ∀ v, stringAt content key = some v → get content key = some v := by
    intro key hkey v hv
    rw [get_eq, cString_of_notMem (hkeys key hkey).2, hv, Option.getD_some]
  constructor
  · rintro ⟨m', hmget', hagree⟩ key hkey v hv
    have hm : m' = m := (Prod.mk.inj (Option.some.inj (hmget'.symm.trans hmget))).2
    have hcond : key ∈ keys ∧ stringAt content key ≠ none :=
      ⟨hkey, by rw [hv]; exact Option.some_ne_none v⟩
    have heq := (hfind key).symm.trans (hm ▸ hagree key)
    rw [if_pos hcond, if_pos hcond, hv, hget key hkey v hv, Option.map_some] at heq
    exact (cString_eq_self_iff v).mp (Option.some.inj heq)
  · intro hzero
    refine ⟨m, hmget, fun key => ?_⟩
    rw [hfind key]
    by_cases hcond : key ∈ keys ∧ stringAt content key ≠ none
    · obtain ⟨v, hv⟩ := Option.ne_none_iff_exists'.mp hcond.2
      rw [if_pos hcond, if_pos hcond, hv, hget key hcond.1 v hv, Option.map_some,
        cString_of_notMem (hzero key hcond.1 v hv)]
    · rw [if_neg hcond, if_neg hcond]
      rfl

/-- Keys that are read rightly from every content with one key are plain. -/
theorem plain_of_agrees (hne : keys ≠ []) (hnodup : keys.Nodup)
    (hkeys : ∀ key ∈ keys, key ≠ [] ∧ 0 ∉ key) (h : ∀ x, Agrees (only x) keys) : Plain keys := by
  have hget : ∀ x, ∀ key ∈ keys, key = x → get (only x) key = some [118] := by
    intro x key hkey hx
    rw [get_eq, cString_of_notMem (hkeys key hkey).2, stringAt_only, if_pos hx, Option.getD_some]
  cases hformat : format [] none (joinKeys keys) with
  | none =>
    obtain ⟨m, hmget, -⟩ := h []
    rw [mget_eq hne hkeys, hformat] at hmget
    cases hmget
  | some args =>
    refine plain_of_format (hformat.trans (congrArg some (args_eq_keys hnodup fun x => ?_)))
    obtain ⟨m, hmget, hagree⟩ := h x
    rw [mget_eq hne hkeys, hformat, Option.bind_some] at hmget
    have hfill : fill keys (args.map (stringAt (only x))) OrderedMap.empty = some m := by
      split at hmget
      · next hargs =>
        rw [hargs]
        cases hmget
        rfl
      · obtain ⟨m', hfill, heq⟩ := Option.map_eq_some_iff.mp hmget
        rw [hfill, (Prod.mk.inj heq).2]
    refine ⟨m, hfill, fun key => ?_⟩
    rw [hagree key]
    by_cases hcond : key ∈ keys ∧ key = x
    · have hvalue : stringAt (only x) key ≠ none := by
        rw [stringAt_only, if_pos hcond.2]
        exact Option.some_ne_none _
      rw [if_pos hcond, if_pos ⟨hcond.1, hvalue⟩, hget x key hcond.1 hcond.2]
    · rw [if_neg hcond, if_neg]
      rintro ⟨hkey, hvalue⟩
      rw [stringAt_only] at hvalue
      exact hcond ⟨hkey, by_contra fun hx => hvalue (if_neg hx)⟩

/-- For distinct keys that are not empty: bulk and single reads agree on every content without zero
bytes exactly when the keys are plain, and for plain keys they agree exactly on the contents whose
values at the keys have no zero byte. -/
theorem mget_agrees_iff (hne : keys ≠ []) (hnodup : keys.Nodup)
    (hkeys : ∀ key ∈ keys, key ≠ [] ∧ 0 ∉ key) :
    ((∀ content : Content, (∀ key v, stringAt content key = some v → 0 ∉ v) →
      Agrees content keys) ↔ Plain keys) ∧
    (Plain keys → ∀ content : Content,
      Agrees content keys ↔ ∀ key ∈ keys, ∀ v, stringAt content key = some v → 0 ∉ v) := by
  refine ⟨⟨fun h => ?_, fun hplain content hzero => ?_⟩, agrees_iff_of_plain hne hnodup hkeys⟩
  · refine plain_of_agrees hne hnodup hkeys fun x => h (only x) fun key v hv => ?_
    rw [stringAt_only] at hv
    split at hv
    · rw [← Option.some.inj hv]
      decide
    · cases hv
  · exact (agrees_iff_of_plain hne hnodup hkeys hplain content).mpr fun key _ => hzero key

end Reads

/-- Two keys, the second one with a `%` at the end of the format, in a store of ones. -/
theorem mget_agrees_iff_two :
    Agrees (fun _ => some (.string (bytesOf "1"))) [bytesOf "a", bytesOf "b%"] := by
  have hagrees := (@mget_agrees_iff [bytesOf "a", bytesOf "b%"] (by decide) (by decide)
    (by decide)).2 (by decide)
  rw [hagrees]
  intro key _ v hv
  rw [← Option.some.inj hv]
  decide

/-- A key with a space is asked for as two keys, and a value with a zero byte is cut. -/
theorem mget_differs :
    (mget (fun key => if key = bytesOf "a b" then some (.string (bytesOf "1")) else none)
        [bytesOf "a b"] OrderedMap.empty).map (fun r => (r.1, r.2.toList)) = some (true, []) ∧
    get (fun key => if key = bytesOf "a b" then some (.string (bytesOf "1")) else none)
      (bytesOf "a b") = some (bytesOf "1") ∧
    (mget (fun _ => some (.string [49, 0, 50])) [bytesOf "a"] OrderedMap.empty).map
      (fun r => (r.1, r.2.find ⟨bytesOf "a"⟩)) = some (true, some [49]) ∧
    get (fun _ => some (.string [49, 0, 50])) (bytesOf "a") = some [49, 0, 50] := by
  refine ⟨?_, ?_, ?_, ?_⟩ <;> rfl

end IMServer.Cache.CacheConn
