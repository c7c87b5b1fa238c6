import IMServer.Base.Runs
import IMServer.Config.ReadConfig

/-!
# Lines and their arguments

`removeSpace` and `splitArgs` of `server/src/ReadConfig.h` against the words of a line, which are
its maximal runs of characters other than space and tab. The two loops of `removeSpace` are modelled
as they erase, one character in each turn.

A line is split into its words exactly when it is empty, or when it has a word and no tab between
its words: of a line of blanks only, the second loop reads the character before the first one, and
`splitArgs` takes a tab for a part of an argument.
-/

namespace IMServer.Config

open IMServer.Base

def tab : UInt8 := 9

/-! ### The loops of `removeSpace` -/

/-- The loop at the beginning of the line, :42–51. In an emptied line `*begin` is the terminating
zero. -/
def eraseFront : Text → Text
  | [] => []
  | c :: line => if isBlank c then eraseFront line else c :: line

/-- The loop at the end of the line, :53–62. In an empty line `line.end()-1` is outside of it. -/
def eraseBack (line : Text) : Option Text :=
  if h : line = [] then none
  else if isBlank (line.getLast h) then eraseBack line.dropLast
  else some line
termination_by line.length
decreasing_by
  rw [List.length_dropLast]
  exact Nat.sub_one_lt (mt List.eq_nil_of_length_eq_zero h)

/-- `removeSpace`, :36–64. -/
def removeSpaceInPlace (line : Text) : Option Text :=
  if line.length = 0 then some [] else eraseBack (eraseFront line)

private theorem eraseFront_eq (line : Text) : eraseFront line = line.dropWhile isBlank := by
  induction line with
  | nil => rfl
  | cons c line ih => rw [eraseFront, List.dropWhile_cons, ih]

/-- Blanks at the end are erased; when there is nothing else, the loop leaves the line. -/
theorem eraseBack_eq (line : Text) :
    eraseBack line =
      if line.rdropWhile isBlank = [] then none else some (line.rdropWhile isBlank) := by
  induction line using List.reverseRecOn with
  | nil =>
    rw [eraseBack, dif_pos rfl]
    rfl
  | append_singleton line c ih =>
    have hne : line ++ [c] ≠ [] := List.append_ne_nil_of_right_ne_nil line (List.cons_ne_nil c [])
    rw [eraseBack, dif_neg hne, List.getLast_append_singleton, List.dropLast_concat,
      List.rdropWhile_concat, ih]
    cases hc : isBlank c with
    | true => rfl
    | false => rw [if_neg Bool.false_ne_true, if_neg Bool.false_ne_true, if_neg hne]

/-- The loops trim the line, or leave it. -/
theorem removeSpaceInPlace_eq (line : Text) : removeSpaceInPlace line = removeSpace line := by
  rw [removeSpaceInPlace, removeSpace]
  by_cases hempty : line = []
  · rw [if_pos hempty, if_pos (List.length_eq_zero_iff.mpr hempty)]
  · rw [if_neg hempty, if_neg (mt List.eq_nil_of_length_eq_zero hempty), eraseFront_eq,
      eraseBack_eq]
    by_cases hblank : line.dropWhile isBlank = []
    · rw [if_pos hblank, hblank, if_pos (List.rdropWhile_nil isBlank)]
    · have hne : (line.dropWhile isBlank).rdropWhile isBlank ≠ [] := trim_ne_nil hblank
      rw [if_neg hblank, if_neg hne, trim]

/-! ### Words -/

/-- The words of a line. -/
def words (line : Text) : List Text := runs isBlank line

/-- The arguments hold all characters but the spaces. -/
theorem flatten_arguments (cur : Option Text) (line : Text) :
    (arguments cur line).flatten = cur.getD [] ++ line.filter (· ≠ space) := by
  induction line generalizing cur with
  | nil => rw [arguments_nil, List.flatten_singleton, List.filter_nil, List.append_nil]
  | cons c line ih =>
    by_cases hc : c = space
    · rw [List.filter_cons_of_neg (by simpa using hc)]
      cases cur with
      | none => rw [arguments_none_cons, if_pos hc, ih]
      | some t =>
        rw [arguments_some_cons, if_pos hc, List.flatten_cons, ih]
        rfl
    · rw [List.filter_cons_of_pos (by simpa using hc)]
      cases cur with
      | none =>
        rw [arguments_none_cons, if_neg hc, ih]
        rfl
      | some t =>
        rw [arguments_some_cons, if_neg hc, ih, Option.getD_some, Option.getD_some,
          List.append_assoc, List.singleton_append]

/-- Without tabs the spaces are the only blanks. -/
theorem isBlank_of_ne_tab {c : UInt8} (h : c ≠ tab) : isBlank c = decide (c = space) := by
  have hnine : decide (c = 9) = false := decide_eq_false h
  rw [isBlank, hnine, Bool.or_false, space]

/-- Without tabs, and when the last argument is not empty, the arguments are the words. -/
theorem arguments_eq_runsFrom {cur : Option Text} {line : Text} (hcur : cur ≠ some [])
    (htab : tab ∉ line) (hlast : ∀ c ∈ line.getLast?, c ≠ space) (hopen : line ≠ [] ∨ cur ≠ none) :
    arguments cur line = runsFrom isBlank (cur.getD []) line := by
  induction line generalizing cur with
  | nil =>
    rw [arguments_nil, runsFrom_nil]
    cases cur with
    | none => simp at hopen
    | some t =>
      have ht : t ≠ [] := fun h => hcur (by rw [h])
      rw [Option.getD_some, if_neg (by simpa using ht)]
  | cons c line ih =>
    obtain ⟨hc, htab⟩ := not_or.mp (mt List.mem_cons.mpr htab)
    have hblank := isBlank_of_ne_tab (Ne.symm hc)
    have htail : ∀ d ∈ line.getLast?, d ≠ space := by
      intro d hd
      apply hlast
      rw [Option.mem_def] at hd ⊢
      rw [List.getLast?_cons, hd, Option.getD_some]
    by_cases hspace : c = space
    · -- the line does not end here
      have hne : line ≠ [] := by
        rintro rfl
        exact hlast c rfl hspace
      rw [runsFrom_separator (by rw [hblank, decide_eq_true hspace]), ← runsFrom_empty]
      have hrest := @ih none (by decide) htab htail (.inl hne)
      cases cur with
      | none => rw [arguments_none_cons, if_pos hspace, hrest]; rfl
      | some t =>
        have ht : t ≠ [] := fun h => hcur (by rw [h])
        rw [arguments_some_cons, if_pos hspace, hrest, Option.getD_some,
          if_neg (by simpa using ht)]
        rfl
    · rw [runsFrom_element (by rw [hblank, decide_eq_false hspace])]
      cases cur with
      | none =>
        rw [arguments_none_cons, if_neg hspace]
        exact ih (by simp) htab htail (.inr (by simp))
      | some t =>
        rw [arguments_some_cons, if_neg hspace]
        exact ih (by simp) htab htail (.inr (by simp))

/-- A key and values are the list that they are the head and the tail of, but for an empty key. -/
theorem flatten_headD_tail (l : List Text) : (l.headD [] :: l.tail).flatten = l.flatten := by
  cases l <;> rfl

/-- A trimmed line is split into its words exactly when it has no tab. -/
theorem splitArgs_eq_words_iff {line : Text} (h : Trimmed line) :
    splitArgs line = ((words line).headD [], (words line).tail) ↔ tab ∉ line := by
  by_cases hne : line = []
  · subst hne
    exact iff_of_true rfl List.not_mem_nil
  rw [splitArgs_eq hne]
  constructor
  · intro heq htab
    have hflat : (arguments none line).flatten = (words line).flatten := by
      rw [← flatten_headD_tail, (Prod.mk.inj heq).1, (Prod.mk.inj heq).2, flatten_headD_tail]
    rw [flatten_arguments, words, ← runsFrom_empty, flatten_runsFrom] at hflat
    -- the tab is in an argument, but in no word
    have hmem : tab ∈ line.filter (· ≠ space) := List.mem_filter.mpr ⟨htab, by decide⟩
    have hword : tab ∈ line.filter fun c => !isBlank c := by
      rw [Option.getD_none, List.nil_append, List.nil_append] at hflat
      rwa [← hflat]
    exact absurd (List.mem_filter.mp hword).2 (by decide)
  · intro htab
    have hlast : ∀ c ∈ line.getLast?, c ≠ space := by
      rintro c hc rfl
      exact absurd (h.2 space hc) (by decide)
    rw [arguments_eq_runsFrom (by decide) htab hlast (.inl hne), Option.getD_none, runsFrom_empty,
      words]

/-- `removeSpace` stays inside the line and trims it, and `splitArgs` gives the words of the result:
this is so exactly when the line is empty, or when it has a word and no tab between its words. -/
theorem line_is_tokenised_iff (line : Text) :
    (∃ rest, removeSpaceInPlace line = some rest ∧ rest = trim line ∧ Trimmed rest ∧
      splitArgs rest = ((words rest).headD [], (words rest).tail)) ↔
    line = [] ∨ (∃ c ∈ line, isBlank c = false) ∧ tab ∉ trim line := by
  rw [removeSpaceInPlace_eq, removeSpace]
  by_cases hempty : line = []
  · subst hempty
    exact iff_of_true ⟨[], rfl, rfl, by decide, rfl⟩ (.inl rfl)
  rw [if_neg hempty]
  have hwords := splitArgs_eq_words_iff (trimmed_trim line)
  by_cases hblank : line.dropWhile isBlank = []
  · -- a line of blanks only
    have hall := List.dropWhile_eq_nil_iff.mp hblank
    rw [if_pos hblank]
    refine iff_of_false ?_ ?_
    · rintro ⟨rest, hrest, -⟩
      cases hrest
    · rintro (hnil | ⟨⟨c, hc, hword⟩, -⟩)
      · exact hempty hnil
      · rw [hall c hc] at hword
        cases hword
  · rw [if_neg hblank]
    have hword : ∃ c ∈ line, isBlank c = false := by
      refine ⟨_, (List.dropWhile_sublist isBlank).mem (List.head_mem hblank), ?_⟩
      exact List.head_dropWhile_not isBlank hblank
    constructor
    · rintro ⟨rest, -, rfl, -, hsplit⟩
      exact .inr ⟨hword, hwords.mp hsplit⟩
    · rintro (hnil | ⟨-, htab⟩)
      · exact absurd hnil hempty
      · exact ⟨trim line, rfl, rfl, trimmed_trim line, hwords.mpr htab⟩

/-- Of a line that is one space, `removeSpace` reads the character before the first one; a line
with a tab between its two words is one argument. -/
theorem line_is_not_tokenised :
    removeSpaceInPlace [space] = none ∧
      removeSpaceInPlace (bytesOf "a\tb") = some (bytesOf "a\tb") ∧
      splitArgs (bytesOf "a\tb") = (bytesOf "a\tb", []) ∧
      words (bytesOf "a\tb") = [bytesOf "a", bytesOf "b"] := by
  rw [removeSpaceInPlace_eq, removeSpaceInPlace_eq]
  decide

end IMServer.Config
