import Mathlib.Data.List.DropRight
import Mathlib.Data.List.TakeWhile

/-!
# Lines and pieces of text

Library: a text cut into the pieces that a reader with a buffer of fixed size gets, each ending
after a newline or when the buffer is full, and the number of pieces that a sequence of short lines
is cut into when some of them have lost their newline. Also the trimming of spaces and tabs.
-/

namespace IMServer.Base

/-- The newline byte. -/
def newline : UInt8 := 10

/-- The pieces of at most `max` bytes that a text is read in, when `cur` has been read of the first
one: a piece ends after a newline or when it is full. -/
def pieces (max : Nat) : List UInt8 → List UInt8 → List (List UInt8)
  | cur, [] => if cur = [] then [] else [cur]
  | cur, b :: text =>
    if b = newline ∨ cur.length + 1 = max then (cur ++ [b]) :: pieces max [] text
    else pieces max (cur ++ [b]) text

section Pieces

variable {max : Nat} {cur line text : List UInt8}

/-- Bytes that neither end the line nor fill the buffer are read on. -/
theorem pieces_append_of_lt (hn : newline ∉ line) (hlt : cur.length + line.length < max) :
    pieces max cur (line ++ text) = pieces max (cur ++ line) text := by
  induction line generalizing cur with
  | nil => rw [List.nil_append, List.append_nil]
  | cons b line ih =>
    obtain ⟨hb, hn⟩ := not_or.mp (mt List.mem_cons.mpr hn)
    rw [List.length_cons] at hlt
    rw [List.cons_append, pieces, if_neg, ih hn, List.append_assoc, List.singleton_append]
    · rw [List.length_append, List.length_singleton]
      omega
    · rintro (h | h)
      · exact hb h.symm
      · omega

/-- A line that fits is one piece. -/
theorem pieces_line (hn : newline ∉ line) (hlt : cur.length + line.length < max) :
    pieces max cur (line ++ newline :: text) =
      (cur ++ line ++ [newline]) :: pieces max [] text := by
  rw [pieces_append_of_lt hn hlt, pieces, if_pos (.inl rfl)]

/-- A full buffer ends a piece. -/
theorem pieces_full (hn : newline ∉ line) (hcur : cur.length < max)
    (hge : max ≤ cur.length + line.length) :
    pieces max cur (line ++ text) =
      (cur ++ line.take (max - cur.length)) ::
        pieces max [] (line.drop (max - cur.length) ++ text) := by
  induction line generalizing cur with
  | nil =>
    rw [List.length_nil] at hge
    omega
  | cons b line ih =>
    obtain ⟨hb, hn⟩ := not_or.mp (mt List.mem_cons.mpr hn)
    rw [List.length_cons] at hge
    obtain ⟨room, hroom⟩ : ∃ room, max - cur.length = room + 1 := ⟨max - cur.length - 1, by omega⟩
    rw [List.cons_append, pieces, hroom, List.take_succ_cons, List.drop_succ_cons]
    by_cases hfull : cur.length + 1 = max
    · obtain rfl : room = 0 := by omega
      rw [if_pos (.inr hfull), List.take_zero, List.drop_zero]
    · have hlen : (cur ++ [b]).length = cur.length + 1 := by
        rw [List.length_append, List.length_singleton]
      have hroom' : max - (cur ++ [b]).length = room := by omega
      rw [if_neg, ih hn (by omega) (by omega), hroom', List.append_assoc, List.singleton_append]
      rintro (h | h)
      · exact hb h.symm
      · exact hfull h

/-- A newline ends its piece. -/
theorem newline_notMem_dropLast (hcur : newline ∉ cur) :
    ∀ piece ∈ pieces max cur text, newline ∉ piece.dropLast := by
  induction text generalizing cur with
  | nil =>
    intro piece hpiece
    unfold pieces at hpiece
    split at hpiece
    · exact absurd hpiece List.not_mem_nil
    · rw [List.mem_singleton.mp hpiece]
      exact fun h => hcur ((List.dropLast_sublist cur).mem h)
  | cons b text ih =>
    intro piece hpiece
    unfold pieces at hpiece
    split at hpiece
    · rcases List.mem_cons.mp hpiece with rfl | hpiece
      · rwa [List.dropLast_concat]
      · exact ih List.not_mem_nil piece hpiece
    · next hb =>
      refine ih (fun h => ?_) piece hpiece
      rcases List.mem_append.mp h with h | h
      · exact hcur h
      · exact hb (.inl (List.mem_singleton.mp h).symm)

/-- Lines that fit are read one by one. -/
theorem pieces_lines {lines : List (List UInt8)}
    (h : ∀ line ∈ lines, newline ∉ line ∧ line.length < max) (text : List UInt8) :
    pieces max [] ((lines.map (· ++ [newline])).flatten ++ text) =
      lines.map (· ++ [newline]) ++ pieces max [] text := by
  induction lines with
  | nil => rfl
  | cons line lines ih =>
    obtain ⟨hn, hlt⟩ := h line List.mem_cons_self
    rw [List.map_cons, List.flatten_cons, List.append_assoc, List.append_assoc,
      List.singleton_append, pieces_line hn (by rw [List.length_nil]; omega),
      ih fun l hl => h l (List.mem_cons_of_mem line hl)]
    rfl

end Pieces

/-! ### How many pieces there are -/

/-- A line of at most `half` bytes, with its newline or without. -/
def ShortLine (half : Nat) (line : List UInt8) : Prop :=
  line.length ≤ half ∧ ∃ body, newline ∉ body ∧ (line = body ∨ line = body ++ [newline])

section Count

variable {half max : Nat} {cur line : List UInt8}

/-- A short line that ends the text is one piece. -/
theorem pieces_of_shortLine (hline : ShortLine half line) (hne : line ≠ []) (hmax : half < max) :
    pieces max [] line = [line] := by
  obtain ⟨hlen, body, hn, rfl | rfl⟩ := hline
  · rw [← List.append_nil line, pieces_append_of_lt hn (by rw [List.length_nil]; omega),
      List.nil_append, List.append_nil, pieces, if_neg hne]
  · rw [List.length_append, List.length_singleton] at hlen
    rw [pieces_line hn (by rw [List.length_nil]; omega), pieces, if_pos rfl, List.nil_append]

/-- A short line that is read with the buffer partly full ends at most one piece more than it would
with the buffer empty. -/
theorem length_pieces_line_le (rest : List UInt8) (hline : ShortLine half line)
    (hmax : 2 * half < max) (hcur : cur.length < max) :
    ∃ cur', cur'.length < max ∧
      (pieces max cur (line ++ rest)).length + (if cur' = [] then 0 else 1) ≤
        (pieces max cur' rest).length + 1 + if cur = [] then 0 else 1 := by
  obtain ⟨hlen, body, hn, rfl | rfl⟩ := hline
  · by_cases hlt : cur.length + line.length < max
    · refine ⟨cur ++ line, by rw [List.length_append]; omega, ?_⟩
      rw [pieces_append_of_lt hn hlt]
      split <;> split <;> omega
    · have hne : cur ≠ [] := by
        rintro rfl
        rw [List.length_nil] at hlt
        omega
      refine ⟨line.drop (max - cur.length), by rw [List.length_drop]; omega, ?_⟩
      rw [pieces_full hn hcur (by omega), List.length_cons, if_neg hne,
        pieces_append_of_lt (fun h => hn (List.mem_of_mem_drop h))
          (by rw [List.length_nil, List.length_drop]; omega), List.nil_append]
      split <;> omega
  · rw [List.length_append, List.length_singleton] at hlen
    refine ⟨[], by rw [List.length_nil]; omega, ?_⟩
    rw [List.append_assoc, List.singleton_append, if_pos rfl]
    by_cases hlt : cur.length + body.length < max
    · rw [pieces_line hn hlt, List.length_cons]
      omega
    · have hne : cur ≠ [] := by
        rintro rfl
        rw [List.length_nil] at hlt
        omega
      rw [pieces_full hn hcur (by omega), List.length_cons, if_neg hne,
        pieces_line (fun h => hn (List.mem_of_mem_drop h))
          (by rw [List.length_nil, List.length_drop]; omega), List.length_cons]

/-- Short lines are cut into at most as many pieces, and one more for what has been read before. -/
theorem length_pieces_le (cur : List UInt8) {lines : List (List UInt8)}
    (h : ∀ line ∈ lines, ShortLine half line) (hmax : 2 * half < max) (hcur : cur.length < max) :
    (pieces max cur lines.flatten).length ≤ lines.length + if cur = [] then 0 else 1 := by
  induction lines generalizing cur with
  | nil =>
    rw [List.flatten_nil, pieces]
    split <;> rfl
  | cons line lines ih =>
    obtain ⟨cur', hcur', hle⟩ := length_pieces_line_le lines.flatten
      (h line List.mem_cons_self) hmax hcur
    have htail := ih cur' (fun l hl => h l (List.mem_cons_of_mem line hl)) hcur'
    rw [List.flatten_cons, List.length_cons]
    omega

/-- Short lines that follow a short one without newline are cut into no more pieces than they are
themselves. -/
theorem length_pieces_le_of_open (cur : List UInt8) {lines : List (List UInt8)}
    (h : ∀ line ∈ lines, ShortLine half line) (hmax : 2 * half < max) (hcur : cur.length ≤ half)
    (hne : lines ≠ []) : (pieces max cur lines.flatten).length ≤ lines.length := by
  cases lines with
  | nil => exact absurd rfl hne
  | cons line lines =>
    have htail : ∀ l ∈ lines, ShortLine half l := fun l hl => h l (List.mem_cons_of_mem line hl)
    rw [List.flatten_cons, List.length_cons]
    obtain ⟨hlen, body, hn, rfl | rfl⟩ := h line List.mem_cons_self
    · rw [pieces_append_of_lt hn (by omega)]
      have hle := length_pieces_le (cur ++ line) htail hmax
        (by rw [List.length_append]; omega)
      split at hle <;> omega
    · rw [List.length_append, List.length_singleton] at hlen
      rw [List.append_assoc, List.singleton_append, pieces_line hn (by omega), List.length_cons]
      have hle := length_pieces_le [] htail hmax (by rw [List.length_nil]; omega)
      rw [if_pos rfl] at hle
      omega

/-- A short line without newline that is not the last one takes the next line into its piece, so
that there are fewer pieces than lines. -/
theorem length_pieces_lt_of_open {first last : List (List UInt8)}
    (hfirst : ∀ l ∈ first, ShortLine half l) (hlast : ∀ l ∈ last, ShortLine half l)
    (hlen : line.length ≤ half) (hn : newline ∉ line) (hne : last ≠ []) (hmax : 2 * half < max)
    (hcur : cur.length < max) :
    (pieces max cur (first ++ line :: last).flatten).length <
      (first ++ line :: last).length + if cur = [] then 0 else 1 := by
  induction first generalizing cur with
  | nil =>
    rw [List.nil_append, List.flatten_cons, List.length_cons]
    by_cases hlt : cur.length + line.length < max
    · rw [pieces_append_of_lt hn hlt]
      by_cases hempty : cur = []
      · subst hempty
        have hle := length_pieces_le_of_open line hlast hmax hlen hne
        rw [if_pos rfl, List.nil_append]
        omega
      · have hle := length_pieces_le (cur ++ line) hlast hmax
          (by rw [List.length_append]; omega)
        rw [if_neg hempty]
        split at hle <;> omega
    · have hempty : cur ≠ [] := by
        rintro rfl
        rw [List.length_nil] at hlt
        omega
      have hle := length_pieces_le_of_open (line.drop (max - cur.length)) hlast hmax
        (by rw [List.length_drop]; omega) hne
      rw [pieces_full hn hcur (by omega), List.length_cons, if_neg hempty,
        pieces_append_of_lt (fun h => hn (List.mem_of_mem_drop h))
          (by rw [List.length_nil, List.length_drop]; omega), List.nil_append]
      omega
  | cons l first ih =>
    obtain ⟨cur', hcur', hle⟩ := length_pieces_line_le (first ++ line :: last).flatten
      (hfirst l List.mem_cons_self) hmax hcur
    have htail := ih (fun l' hl' => hfirst l' (List.mem_cons_of_mem l hl')) hcur'
    rw [List.cons_append, List.flatten_cons, List.length_cons]
    omega

end Count

/-! ### Lines of any length -/

/-- The lines of a text without their newlines, when `cur` has been read of the first one. Nothing
follows the last newline if the text ends with it. -/
def splitLines : List UInt8 → List UInt8 → List (List UInt8)
  | cur, [] => if cur = [] then [] else [cur]
  | cur, b :: text =>
    if b = newline then cur :: splitLines [] text else splitLines (cur ++ [b]) text

section SplitLines

variable {cur line text : List UInt8}

private theorem splitLines_append (hn : newline ∉ line) :
    splitLines cur (line ++ text) = splitLines (cur ++ line) text := by
  induction line generalizing cur with
  | nil => rw [List.nil_append, List.append_nil]
  | cons b line ih =>
    obtain ⟨hb, hn⟩ := not_or.mp (mt List.mem_cons.mpr hn)
    rw [List.cons_append, splitLines, if_neg (Ne.symm hb), ih hn, List.append_assoc,
      List.singleton_append]

/-- The first line is what stands before the first newline. -/
theorem splitLines_line (hn : newline ∉ line) (text : List UInt8) :
    splitLines [] (line ++ newline :: text) = line :: splitLines [] text := by
  rw [splitLines_append hn, splitLines, if_pos rfl, List.nil_append]

/-- The last line, without a newline. -/
theorem splitLines_last (hn : newline ∉ line) :
    splitLines [] line = if line = [] then [] else [line] := by
  conv_lhs => rw [← List.append_nil line]
  rw [splitLines_append hn, List.nil_append, splitLines]

end SplitLines

/-! ### Blanks -/

/-- Spaces and tabs. -/
def isBlank (b : UInt8) : Bool := b = 32 || b = 9

/-- The text without the blanks at its two ends. -/
def trim (s : List UInt8) : List UInt8 := (s.dropWhile isBlank).rdropWhile isBlank

/-- No blank at either end. -/
def Trimmed (s : List UInt8) : Prop :=
  (∀ b ∈ s.head?, isBlank b = false) ∧ ∀ b ∈ s.getLast?, isBlank b = false

instance (s : List UInt8) : Decidable (Trimmed s) :=
  decidable_of_iff (s.head?.all (fun b => !isBlank b) = true ∧
    s.getLast?.all (fun b => !isBlank b) = true) (by
      simp only [Trimmed, Option.all_eq_true, Bool.not_eq_true', Option.mem_def])

section Trim

variable {s : List UInt8}

/-- Nothing to drop at the front. -/
theorem dropWhile_of_trimmed (h : Trimmed s) : s.dropWhile isBlank = s := by
  cases s with
  | nil => rfl
  | cons b s =>
    have hb : isBlank b = false := h.1 b rfl
    rw [List.dropWhile_cons, hb, if_neg Bool.false_ne_true]

/-- Nothing to drop at the end. -/
theorem rdropWhile_of_trimmed (h : Trimmed s) : s.rdropWhile isBlank = s := by
  rw [List.rdropWhile_eq_self_iff]
  intro hne
  rw [h.2 _ (List.getLast?_eq_some_getLast hne)]
  exact Bool.false_ne_true

/-- Nothing to trim. -/
theorem trim_of_trimmed (h : Trimmed s) : trim s = s := by
  rw [trim, dropWhile_of_trimmed h, rdropWhile_of_trimmed h]

/-- Blanks behind a text are taken off. -/
theorem rdropWhile_append_blanks {blanks : List UInt8} (h : ∀ b ∈ blanks, isBlank b = true) :
    (s ++ blanks).rdropWhile isBlank = s.rdropWhile isBlank := by
  rw [List.rdropWhile, List.reverse_append,
    List.dropWhile_append_of_pos fun b hb => h b (List.mem_reverse.mp hb), List.rdropWhile]

/-- What is not all blank is not trimmed away. -/
theorem trim_ne_nil (h : s.dropWhile isBlank ≠ []) : trim s ≠ [] := by
  intro hnil
  have hall := List.rdropWhile_eq_nil_iff.mp hnil _ (List.head_mem h)
  rw [List.head_dropWhile_not isBlank h] at hall
  exact Bool.false_ne_true hall

/-- A text that starts with another character still does when it is trimmed. -/
theorem trim_cons {b : UInt8} (hb : isBlank b = false) (s : List UInt8) :
    ∃ t, trim (b :: s) = b :: t := by
  have hdrop : (b :: s).dropWhile isBlank = b :: s := by
    rw [List.dropWhile_cons, hb, if_neg Bool.false_ne_true]
  have hne : trim (b :: s) ≠ [] := trim_ne_nil (by rw [hdrop]; exact List.cons_ne_nil b s)
  rw [trim, hdrop] at hne ⊢
  obtain ⟨rest, hrest⟩ := List.rdropWhile_prefix isBlank (b :: s)
  cases ht : (b :: s).rdropWhile isBlank with
  | nil => exact absurd ht hne
  | cons c t =>
    rw [ht, List.cons_append] at hrest
    exact ⟨t, by rw [(List.cons.inj hrest).1]⟩

/-- Trimming adds nothing. -/
theorem trim_sublist (s : List UInt8) : List.Sublist (trim s) s :=
  (List.rdropWhile_prefix isBlank _).sublist.trans (List.dropWhile_sublist isBlank)

/-- Trimming trims. -/
theorem trimmed_trim (s : List UInt8) : Trimmed (trim s) := by
  by_cases hne : trim s = []
  · rw [hne]
    decide
  · have hdrop : s.dropWhile isBlank ≠ [] := by
      intro hnil
      rw [trim, hnil] at hne
      exact hne rfl
    constructor
    · intro b hb
      rw [List.head?_eq_some_head hne, Option.mem_some_iff] at hb
      have hhead := (List.rdropWhile_prefix isBlank (s.dropWhile isBlank)).head hne
      rw [← hb]
      exact hhead ▸ List.head_dropWhile_not isBlank hdrop
    · intro b hb
      rw [List.getLast?_eq_some_getLast hne, Option.mem_some_iff] at hb
      rw [← hb]
      exact Bool.eq_false_iff.mpr (List.rdropWhile_last_not isBlank _ hne)

end Trim

end IMServer.Base
