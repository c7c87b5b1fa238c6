import IMServer.Base.CheckedInt
import IMServer.Base.Decimal
import IMServer.Config.ConfigFileReader

/-!
# The configuration of the server

`server/src/ReadConfig.h`. The file is read line by line with `getline`; one byte is taken off the
end of every line, which is the carriage return where lines end in CRLF, and what is left is trimmed
and split at spaces. A line without that byte loses one of its own: an entry the last byte of its
value, an empty line a byte that it does not have.

A file gives each key its first value when every line that carries an entry ends in CRLF and every
blank line is exactly as long as its ending allows; where no key occurs twice, then only.
-/

namespace IMServer.Config

open IMServer.Base

/-! ### Splitting a line -/

/-- `knownFields`, :19–31. -/
def knownFields : List Text :=
  ["host", "port", "ioThreadNumber", "serverName", "maxConn", "tpNum", "daemon", "logFlushInterval",
    "logRollSie"].map bytesOf

/-- `removeSpace`, :36–64. Nothing is returned for a line of blanks only: the first loop empties it,
and the second one reads the byte before its beginning. -/
def removeSpace (line : Text) : Option Text :=
  if line = [] then some []
  else if line.dropWhile isBlank = [] then none
  else some (trim line)

/-- `line.substr(pos, n)`; a negative count becomes a `size_t` that is greater than any length. -/
def substr (line : Text) (pos : Nat) (n : Int) : Text :=
  if 0 ≤ n then (line.drop pos).take n.toNat else line.drop pos

/-- The variables of `splitArgs`; `strBegin` is the length of the line outside an argument. -/
structure Split where
  store : List Text
  strBegin : Nat
  strEnd : Nat

/-- One turn of the loop of `splitArgs`, :81–91. -/
def splitStep (line : Text) (it : Nat) (c : UInt8) (st : Split) : Split :=
  if c ≠ space ∧ st.strBegin = line.length then { st with strBegin := it }
  else if c = space then
    if st.strBegin ≠ line.length then
      ⟨st.store ++ [substr line st.strBegin ((it : Int) - st.strBegin)], line.length, line.length⟩
    else { st with strEnd := it }
  else st

/-- The loop of `splitArgs` over the bytes from position `it` on, :80–92. -/
def splitLoop (line : Text) : Nat → Text → Split → Split
  | _, [], st => st
  | it, c :: rest, st => splitLoop line (it + 1) rest (splitStep line it c st)

/-- The arguments of a line, with the one that the loop ends in, :93. -/
def splitStore (line : Text) (st : Split) : List Text :=
  st.store ++ [substr line st.strBegin ((st.strEnd : Int) - st.strBegin)]

/-- `splitArgs`, :68–101. -/
def splitArgs (line : Text) : Text × List Text :=
  if line = [] then ([], [])
  else
    let store := splitStore line (splitLoop line 0 line ⟨[], line.length, line.length⟩)
    (store.headD [], store.tail)

/-! ### Reading the file -/

/-- How a call ends that does not return. -/
inductive Stop where
  | exit (status : Int) (message : Text)
  | undefined

/-- The first line of every message. -/
def fatal : Text := bytesOf "*** FATAL CONFIG FILE ERROR ***" ++ [newline]

/-- The message about a line, with what follows its number. -/
def errorAt (curLine : Int) (text : Text) : Stop :=
  .exit 1 (fatal ++ bytesOf "error at line " ++ numeral curLine.toNat ++ text ++ [newline])

/-- A text in quotation marks. -/
def quoted (s : Text) : Text := bytesOf "\"" ++ s ++ bytesOf "\""

/-- `isValid`, :104–134. -/
def isValid (kv : Text × List Text) (curLine : Int) (line : Text) : Except Stop Bool :=
  if kv.1 = [] then .ok false
  else match kv.2 with
    | [] => .ok false
    | value :: more =>
      if more ≠ [] then .error (errorAt curLine (bytesOf ":" ++ line))
      else if !knownFields.contains kv.1 then
        .error (errorAt curLine (bytesOf ": unknown " ++ quoted kv.1))
      else if kv.1 = bytesOf "daemon" ∧ value ≠ bytesOf "yes" ∧ value ≠ bytesOf "no" then
        .error (errorAt curLine (bytesOf ": unknow " ++ quoted value))
      else .ok true

/-- One turn of the loop of `readConfig`, :155–167, on the map and `curLine`. -/
def readLine (st : Map × Int) (raw : Text) : Except Stop (Map × Int) :=
  match add32 st.2 1 with
  | none => .error .undefined
  | some curLine =>
    -- `line.erase(line.end()-1)`
    if raw = [] then .error .undefined
    else match removeSpace raw.dropLast with
      | none => .error .undefined
      | some line =>
        if line.head? = some numberSign ∨ line.head? = some newline then .ok (st.1, curLine)
        else
          let kv := splitArgs line
          (isValid kv curLine line).map fun valid =>
            (if valid then st.1.insert ⟨kv.1⟩ (kv.2.headD []) else st.1, curLine)

/-- `readConfig`, :139–171, given what the file holds, or `errno` and its text. -/
def readConfig (filename : Text) : Except (Int × Text) Text → Except Stop Map
  | .error (errno, reason) =>
    .error (.exit errno
      (fatal ++ bytesOf "open " ++ quoted filename ++ bytesOf " error :" ++ reason ++ [newline]))
  | .ok text => ((splitLines [] text).foldlM readLine (OrderedMap.empty, 0)).map Prod.fst

/-! ### Arguments -/

/-- The arguments of a text that are separated by spaces, when `cur` has been read of the first
one. -/
def arguments : Option Text → Text → List Text
  | cur, [] => [cur.getD []]
  | none, c :: rest => if c = space then arguments none rest else arguments (some [c]) rest
  | some t, c :: rest =>
    if c = space then t :: arguments none rest else arguments (some (t ++ [c])) rest

/-- The end of the line. -/
theorem arguments_nil (cur : Option Text) : arguments cur [] = [cur.getD []] := by
  cases cur <;> rfl

/-- Between two arguments. -/
theorem arguments_none_cons (c : UInt8) (rest : Text) :
    arguments none (c :: rest) =
      if c = space then arguments none rest else arguments (some [c]) rest := rfl

/-- Within an argument. -/
theorem arguments_some_cons (t : Text) (c : UInt8) (rest : Text) :
    arguments (some t) (c :: rest) =
      if c = space then t :: arguments none rest else arguments (some (t ++ [c])) rest := rfl

/-- The iterators of `splitArgs` after the bytes `done` of a line. -/
def Reads (line done : Text) (st : Split) : Option Text → Prop
  | none => st.strBegin = line.length ∧ (st.strEnd = line.length ∨ st.strEnd < done.length)
  | some t => st.strBegin < done.length ∧ done.drop st.strBegin = t ∧
      (st.strEnd = line.length ∨ st.strEnd < st.strBegin)

/-- The argument that the loop ends in. -/
theorem Reads.splitStore_eq {line : Text} {st : Split} {cur : Option Text}
    (h : Reads line line st cur) : splitStore line st = st.store ++ [cur.getD []] := by
  rw [splitStore]
  cases cur with
  | none =>
    obtain ⟨hbegin, -⟩ := h
    rw [substr, hbegin, List.drop_length, List.take_nil, ite_self, Option.getD_none]
  | some t =>
    obtain ⟨hlt, ht, hend⟩ := h
    rw [substr, ht, Option.getD_some]
    rcases hend with hend | hend
    · have hlen : t.length = line.length - st.strBegin := by rw [← ht, List.length_drop]
      rw [if_pos (by omega), List.take_of_length_le (by omega)]
    · rw [if_neg (by omega)]

/-- The argument that a space ends. -/
theorem Reads.substr_eq {line done rest t : Text} {st : Split} (hline : line = done ++ rest)
    (h : Reads line done st (some t)) :
    substr line st.strBegin ((done.length : Int) - st.strBegin) = t := by
  obtain ⟨hlt, ht, -⟩ := h
  have hcount : ((done.length : Int) - st.strBegin).toNat = t.length := by
    rw [← ht, List.length_drop]
    omega
  rw [substr, if_pos (by omega), hcount, hline, List.drop_append_of_le_length (by omega), ht,
    List.take_left]

/-- What the loop of `splitArgs` stores. -/
theorem splitStore_splitLoop {line done rest : Text} {st : Split} (cur : Option Text)
    (hline : line = done ++ rest) (h : Reads line done st cur) :
    splitStore line (splitLoop line done.length rest st) = st.store ++ arguments cur rest := by
  induction rest generalizing done st cur with
  | nil =>
    rw [List.append_nil] at hline
    subst hline
    rw [splitLoop, arguments_nil, h.splitStore_eq]
  | cons c rest ih =>
    have hlen : line.length = done.length + (rest.length + 1) := by
      rw [hline, List.length_append, List.length_cons]
    have hnext : line = (done ++ [c]) ++ rest := by
      rw [hline, List.append_assoc, List.singleton_append]
    have hdone : (done ++ [c]).length = done.length + 1 := by
      rw [List.length_append, List.length_singleton]
    rw [splitLoop, ← hdone]
    by_cases hc : c = space
    · cases cur with
      | none =>
        obtain ⟨hbegin, hend⟩ := h
        rw [arguments_none_cons, if_pos hc, splitStep, if_neg (fun h => h.1 hc), if_pos hc,
          if_neg (not_not_intro hbegin)]
        exact ih none hnext ⟨hbegin, .inr (by rw [hdone]; exact Nat.lt_succ_self _)⟩
      | some t =>
        have hlt : st.strBegin < done.length := h.1
        rw [arguments_some_cons, if_pos hc, splitStep, if_neg (fun h => h.1 hc), if_pos hc,
          if_pos (by omega), h.substr_eq hline, ih none hnext ⟨rfl, .inl rfl⟩, List.append_assoc,
          List.singleton_append]
    · cases cur with
      | none =>
        obtain ⟨hbegin, hend⟩ := h
        rw [arguments_none_cons, if_neg hc, splitStep, if_pos ⟨hc, hbegin⟩]
        refine ih (some [c]) hnext ⟨?_, List.drop_left, hend⟩
        rw [hdone]
        exact Nat.lt_succ_self _
      | some t =>
        obtain ⟨hlt, ht, hend⟩ := h
        rw [arguments_some_cons, if_neg hc, splitStep, if_neg (by omega), if_neg hc]
        refine ih (some (t ++ [c])) hnext ⟨by omega, ?_, hend⟩
        rw [List.drop_append_of_le_length (by omega), ht]

/-- The key is the first argument. -/
theorem splitArgs_eq {line : Text} (h : line ≠ []) :
    splitArgs line = ((arguments none line).headD [], (arguments none line).tail) := by
  have hstore := @splitStore_splitLoop line [] line ⟨[], line.length, line.length⟩ none rfl
    ⟨rfl, .inl rfl⟩
  rw [List.length_nil, List.nil_append] at hstore
  rw [splitArgs, if_neg h]
  simp only [hstore]

section Arguments

variable {t word rest : Text}

private theorem arguments_word (h : space ∉ word) : arguments (some t) word = [t ++ word] := by
  induction word generalizing t with
  | nil => rw [arguments_nil, Option.getD_some, List.append_nil]
  | cons c word ih =>
    obtain ⟨hc, hword⟩ := not_or.mp (mt List.mem_cons.mpr h)
    rw [arguments_some_cons, if_neg (Ne.symm hc), ih hword, List.append_assoc,
      List.singleton_append]

private theorem arguments_word_space (h : space ∉ word) :
    arguments (some t) (word ++ space :: rest) = (t ++ word) :: arguments none rest := by
  induction word generalizing t with
  | nil => rw [List.nil_append, arguments_some_cons, if_pos rfl, List.append_nil]
  | cons c word ih =>
    obtain ⟨hc, hword⟩ := not_or.mp (mt List.mem_cons.mpr h)
    rw [List.cons_append, arguments_some_cons, if_neg (Ne.symm hc), ih hword, List.append_assoc,
      List.singleton_append]

private theorem arguments_spaces (n : Nat) :
    arguments none (List.replicate n space ++ rest) = arguments none rest := by
  induction n with
  | zero => rfl
  | succ n ih => rw [List.replicate_succ, List.cons_append, arguments_none_cons, if_pos rfl, ih]

/-- A word is one argument. -/
theorem splitArgs_word (hne : word ≠ []) (h : space ∉ word) : splitArgs word = (word, []) := by
  rw [splitArgs_eq hne]
  cases word with
  | nil => exact absurd rfl hne
  | cons c word =>
    obtain ⟨hc, hword⟩ := not_or.mp (mt List.mem_cons.mpr h)
    rw [arguments_none_cons, if_neg (Ne.symm hc), arguments_word hword]
    rfl

/-- Two words with spaces between them are a key and one value. -/
theorem splitArgs_two {key value : Text} (hkey : key ≠ []) (hvalue : value ≠ [])
    (hk : space ∉ key) (hv : space ∉ value) (gap : Nat) :
    splitArgs (key ++ List.replicate (gap + 1) space ++ value) = (key, [value]) := by
  cases key with
  | nil => exact absurd rfl hkey
  | cons c key =>
    cases value with
    | nil => exact absurd rfl hvalue
    | cons d value =>
      obtain ⟨hc, hk⟩ := not_or.mp (mt List.mem_cons.mpr hk)
      obtain ⟨hd, hv⟩ := not_or.mp (mt List.mem_cons.mpr hv)
      rw [List.append_assoc, List.replicate_succ, List.cons_append, List.cons_append,
        splitArgs_eq (List.cons_ne_nil _ _), arguments_none_cons, if_neg (Ne.symm hc),
        arguments_word_space hk, arguments_spaces, arguments_none_cons, if_neg (Ne.symm hd),
        arguments_word hv]
      rfl

end Arguments

/-! ### Lines of a configuration file -/

/-- The lines that a file may have. -/
inductive Line where
  | comment (text : Text)
  | blank (text : Text)
  /-- A key, `gap + 1` spaces and a value. -/
  | entry (key : Text) (gap : Nat) (value : Text)

/-- What ends a line; only the last line may end with the file. -/
inductive Ending where
  | crlf
  | lf
  | eof
  deriving DecidableEq

namespace Line

def text : Line → Text
  | comment text => numberSign :: text
  | blank text => text
  | entry key gap value => key ++ List.replicate (gap + 1) space ++ value

def Valid : Line → Prop
  | comment text => newline ∉ text
  | blank text => text.all isBlank = true
  | entry key _ value => key ∈ knownFields ∧ value ≠ [] ∧ value.all (fun b => !isBlank b) = true ∧
      newline ∉ value ∧ (key = bytesOf "daemon" → value = bytesOf "yes" ∨ value = bytesOf "no")

/-- A key gets its first value. -/
def apply (m : Map) : Line → Map
  | entry key _ value => m.insert ⟨key⟩ value
  | _ => m

def key : Line → Option Text
  | entry key _ _ => some key
  | _ => none

/-- The line has its effect when it ends so: an entry needs the byte before the newline, and a blank
line must have nothing left when one byte is taken off it. -/
def Kept : Line → Ending → Prop
  | comment _, _ => True
  | blank text, .crlf => text = []
  | blank text, .lf => text.length = 1
  | blank text, .eof => text.length ≤ 1
  | entry .., ending => ending = .crlf

instance : (l : Line) → Decidable l.Valid
  | comment text => inferInstanceAs (Decidable (newline ∉ text))
  | blank text => inferInstanceAs (Decidable (text.all isBlank = true))
  | entry key _ value => inferInstanceAs (Decidable (key ∈ knownFields ∧ value ≠ [] ∧ _ ∧ _ ∧ _))

instance : (l : Line) → (ending : Ending) → Decidable (l.Kept ending)
  | comment _, _ => inferInstanceAs (Decidable True)
  | blank text, .crlf => inferInstanceAs (Decidable (text = []))
  | blank text, .lf => inferInstanceAs (Decidable (text.length = 1))
  | blank text, .eof => inferInstanceAs (Decidable (text.length ≤ 1))
  | entry .., ending => inferInstanceAs (Decidable (ending = .crlf))

end Line

/-- The bytes that end a line. -/
def Ending.bytes : Ending → Text
  | crlf => [13, newline]
  | lf => [newline]
  | eof => []

/-- Lines with their endings. -/
abbrev File := List (Line × Ending)

namespace File

def text (file : File) : Text := file.flatMap fun l => l.1.text ++ l.2.bytes

/-- The line as `getline` returns it. -/
def raw (l : Line × Ending) : Text := l.1.text ++ l.2.bytes.filter (· ≠ newline)

/-- `getline` returns the line: an empty one that ends with the file is none. -/
def Returned (l : Line × Ending) : Prop := l.2 ≠ .eof ∨ l.1.text ≠ []

instance (l : Line × Ending) : Decidable (Returned l) := inferInstanceAs (Decidable (_ ∨ _))

/-- The lines that `getline` returns. -/
def raws (file : File) : List Text := (file.filter Returned).map raw

/-- Only the last line ends with the file. -/
def Ended : File → Prop
  | [] => True
  | l :: file => (l.2 = .eof → file = []) ∧ Ended file

/-- Every line has its effect, and the lines can be counted in an `int`. -/
def Kept (file : File) : Prop := file.raws.length < 2 ^ 31 ∧ ∀ l ∈ file, l.1.Kept l.2

instance (file : File) : Decidable file.Kept := inferInstanceAs (Decidable (_ ∧ _))

end File

/-- Each key with its first value. -/
def expected (lines : List Line) : Map := lines.foldl Line.apply OrderedMap.empty

/-- The lines with CRLF or LF after each of them, and after the last one or not. -/
def ended (crlf terminated : Bool) : List Line → File
  | [] => []
  | [l] => [(l, if terminated then if crlf then .crlf else .lf else .eof)]
  | l :: l' :: ls => (l, if crlf then .crlf else .lf) :: ended crlf terminated (l' :: ls)

/-! ### What one line does -/

section OneLine

variable {m : Map} {n : Int} {raw : Text}

private theorem knownFields_wellFormed :
    knownFields.all (fun key => key ≠ [] && key.all (fun b => !isBlank b) &&
      !key.contains newline && !key.contains numberSign) = true := by
  decide

/-- What a known key is made of. -/
theorem known_key {key : Text} (h : key ∈ knownFields) :
    key ≠ [] ∧ key.all (fun b => !isBlank b) = true ∧ newline ∉ key ∧ numberSign ∉ key := by
  have hall := List.all_eq_true.mp knownFields_wellFormed key h
  simpa [and_assoc] using hall

private theorem space_notMem {s : Text} (h : s.all (fun b => !isBlank b) = true) : space ∉ s := by
  intro hs
  exact absurd (List.all_eq_true.mp h space hs) (by decide)

private theorem isBlank_eq_false {s : Text} (h : s.all (fun b => !isBlank b) = true) {b : UInt8}
    (hb : b ∈ s) : isBlank b = false := by
  simpa using List.all_eq_true.mp h b hb

private theorem removeSpace_of_trimmed {s : Text} (h : Trimmed s) : removeSpace s = some s := by
  unfold removeSpace
  split
  · next hs => rw [hs]
  · next hs => rw [dropWhile_of_trimmed h, if_neg hs, trim_of_trimmed h]

/-- A text between two words is trimmed. -/
theorem trimmed_append {s t u : Text} (hs : s ≠ []) (hu : u ≠ [])
    (hsb : s.all (fun b => !isBlank b) = true) (hub : u.all (fun b => !isBlank b) = true) :
    Trimmed (s ++ t ++ u) := by
  constructor
  · intro b hb
    rw [List.append_assoc, List.head?_append_of_ne_nil _ hs] at hb
    exact isBlank_eq_false hsb (List.mem_of_head? hb)
  · intro b hb
    rw [List.getLast?_append_of_ne_nil _ hu] at hb
    exact isBlank_eq_false hub (List.mem_of_getLast? hb)

private theorem removeSpace_word_spaces {word : Text} (hne : word ≠ [])
    (hw : word.all (fun b => !isBlank b) = true) (gap : Nat) :
    removeSpace (word ++ List.replicate gap space) = some word := by
  have htrimmed : Trimmed word :=
    ⟨fun b hb => isBlank_eq_false hw (List.mem_of_head? hb),
      fun b hb => isBlank_eq_false hw (List.mem_of_getLast? hb)⟩
  have hdrop : (word ++ List.replicate gap space).dropWhile isBlank =
      word ++ List.replicate gap space := by
    cases word with
    | nil => exact absurd rfl hne
    | cons b word =>
      rw [List.cons_append, List.dropWhile_cons, isBlank_eq_false hw List.mem_cons_self,
        if_neg Bool.false_ne_true]
  have hrdrop : (word ++ List.replicate gap space).rdropWhile isBlank = word := by
    rw [rdropWhile_append_blanks, rdropWhile_of_trimmed htrimmed]
    intro b hb
    rw [(List.mem_replicate.mp hb).2]
    rfl
  have hfull : word ++ List.replicate gap space ≠ [] := List.append_ne_nil_of_left_ne_nil hne _
  rw [removeSpace, if_neg hfull, hdrop, if_neg hfull, trim, hdrop, hrdrop]

/-- The counter goes up, and one byte is taken off the line. -/
theorem readLine_eq (hn : 0 ≤ n) (hlt : n + 1 < 2 ^ 31) (hraw : raw ≠ []) {line : Text}
    (hline : removeSpace raw.dropLast = some line) :
    readLine (m, n) raw =
      if line.head? = some numberSign ∨ line.head? = some newline then .ok (m, n + 1)
      else (isValid (splitArgs line) (n + 1) line).map fun valid =>
        (if valid then m.insert ⟨(splitArgs line).1⟩ ((splitArgs line).2.headD []) else m,
          n + 1) := by
  rw [readLine, add32_eq (by omega) hlt]
  simp only [if_neg hraw, hline]

/-- Nothing is left of the line. -/
theorem readLine_of_nil (hn : 0 ≤ n) (hlt : n + 1 < 2 ^ 31) (hraw : raw ≠ [])
    (hline : raw.dropLast = []) : readLine (m, n) raw = .ok (m, n + 1) := by
  rw [readLine_eq hn hlt hraw (show removeSpace raw.dropLast = some [] by rw [hline]; rfl)]
  rfl

private theorem readLine_comment (hn : 0 ≤ n) (hlt : n + 1 < 2 ^ 31) (text : Text) :
    readLine (m, n) (numberSign :: text) = .ok (m, n + 1) := by
  cases text with
  | nil => exact readLine_of_nil hn hlt (List.cons_ne_nil _ _) rfl
  | cons b text =>
    obtain ⟨rest, hrest⟩ := trim_cons (b := numberSign) rfl (b :: text).dropLast
    have hspace : removeSpace (numberSign :: b :: text).dropLast = some (numberSign :: rest) := by
      rw [List.dropLast_cons_of_ne_nil (List.cons_ne_nil b text), removeSpace,
        if_neg (List.cons_ne_nil _ _), List.dropWhile_cons,
        if_neg (show ¬ isBlank numberSign = true by decide), if_neg (List.cons_ne_nil _ _), hrest]
    rw [readLine_eq hn hlt (List.cons_ne_nil _ _) hspace, if_pos (.inl rfl)]

/-- A key and a value are put into the map. -/
theorem readLine_entry (hn : 0 ≤ n) (hlt : n + 1 < 2 ^ 31) {key value : Text} {gap : Nat}
    (hkey : key ∈ knownFields) (hvalue : value ≠ [])
    (hv : value.all (fun b => !isBlank b) = true) (hraw : raw ≠ [])
    (hline : raw.dropLast = key ++ List.replicate (gap + 1) space ++ value) :
    readLine (m, n) raw =
      if key = bytesOf "daemon" ∧ value ≠ bytesOf "yes" ∧ value ≠ bytesOf "no" then
        .error (errorAt (n + 1) (bytesOf ": unknow " ++ quoted value))
      else .ok (m.insert ⟨key⟩ value, n + 1) := by
  obtain ⟨hne, hk, hkn, hks⟩ := known_key hkey
  have htrimmed := trimmed_append (t := List.replicate (gap + 1) space) hne hvalue hk hv
  have hhead : ¬ ((key ++ List.replicate (gap + 1) space ++ value).head? = some numberSign ∨
      (key ++ List.replicate (gap + 1) space ++ value).head? = some newline) := by
    rw [List.append_assoc, List.head?_append_of_ne_nil _ hne]
    rintro (h | h)
    · exact hks (List.mem_of_head? h)
    · exact hkn (List.mem_of_head? h)
  have hspace := removeSpace_of_trimmed htrimmed
  rw [← hline] at hspace
  have hknown : knownFields.contains key = true := List.contains_iff_mem.mpr hkey
  rw [readLine_eq hn hlt hraw hspace, hline, if_neg hhead,
    splitArgs_two hne hvalue (space_notMem hk) (space_notMem hv), isValid, if_neg hne]
  simp only [ne_eq, not_true_eq_false, if_false, hknown, Bool.not_true, Bool.false_eq_true,
    List.headD_cons]
  split <;> rfl

/-- A key without a value is passed over. -/
theorem readLine_key (hn : 0 ≤ n) (hlt : n + 1 < 2 ^ 31) {key : Text} {gap : Nat}
    (hkey : key ∈ knownFields) (hraw : raw ≠ [])
    (hline : raw.dropLast = key ++ List.replicate gap space) :
    readLine (m, n) raw = .ok (m, n + 1) := by
  obtain ⟨hne, hk, hkn, hks⟩ := known_key hkey
  rw [readLine_eq hn hlt hraw (hline ▸ removeSpace_word_spaces hne hk gap), if_neg,
    splitArgs_word hne (space_notMem hk), isValid, if_neg hne]
  · rfl
  · rintro (h | h)
    · exact hks (List.mem_of_head? h)
    · exact hkn (List.mem_of_head? h)

/-- A line without a byte has none to take off. -/
theorem readLine_nil : readLine (m, n) [] = .error .undefined := by
  unfold readLine
  cases add32 n 1 <;> rfl

/-- A line that is blank when its last byte has been taken off makes `removeSpace` leave the
string. -/
theorem readLine_blank (hne : raw.dropLast ≠ []) (h : raw.dropLast.all isBlank = true) :
    readLine (m, n) raw = .error .undefined := by
  have hraw : raw ≠ [] := by
    rintro rfl
    exact hne rfl
  have hdrop : raw.dropLast.dropWhile isBlank = [] :=
    List.dropWhile_eq_nil_iff.mpr (List.all_eq_true.mp h)
  have hspace : removeSpace raw.dropLast = none := by
    rw [removeSpace, if_neg hne, hdrop, if_pos rfl]
  unfold readLine
  cases add32 n 1 with
  | none => rfl
  | some curLine => simp only [if_neg hraw, hspace]

end OneLine

section Rendered

variable {m m' : Map} {n n' : Int} {l : Line} {ending : Ending}

private theorem newline_notMem_text (h : l.Valid) : newline ∉ l.text := by
  cases l with
  | comment text =>
    intro hn
    rcases List.mem_cons.mp hn with hn | hn
    · exact absurd hn (by decide)
    · exact h hn
  | blank text =>
    intro hn
    exact absurd (List.all_eq_true.mp h newline hn) (by decide)
  | entry key gap value =>
    obtain ⟨hkey, -, -, hvalue, -⟩ := h
    intro hn
    rcases List.mem_append.mp hn with hn | hn
    · rcases List.mem_append.mp hn with hn | hn
      · exact (known_key hkey).2.2.1 hn
      · exact absurd (List.mem_replicate.mp hn).2 (by decide)
    · exact hvalue hn

/-- A line that is kept has its effect. -/
theorem readLine_kept (hn : 0 ≤ n) (hlt : n + 1 < 2 ^ 31) (hvalid : l.Valid)
    (hkept : l.Kept ending) (hread : File.Returned (l, ending)) :
    readLine (m, n) (File.raw (l, ending)) = .ok (l.apply m, n + 1) := by
  cases l with
  | comment text => exact readLine_comment hn hlt _
  | blank text =>
    cases ending with
    | crlf =>
      obtain rfl : text = [] := hkept
      exact readLine_of_nil hn hlt (List.cons_ne_nil _ _) rfl
    | lf =>
      obtain ⟨b, rfl⟩ := List.length_eq_one_iff.mp hkept
      exact readLine_of_nil hn hlt (List.cons_ne_nil _ _) rfl
    | eof =>
      have hne : text ≠ [] := hread.resolve_left (not_not_intro rfl)
      obtain ⟨b, rfl⟩ := List.length_eq_one_iff.mp
        (Nat.le_antisymm hkept (List.length_pos_of_ne_nil hne))
      exact readLine_of_nil hn hlt (List.cons_ne_nil _ _) rfl
  | entry key gap value =>
    obtain rfl : ending = .crlf := hkept
    obtain ⟨hkey, hne, hvalue, -, hdaemon⟩ := hvalid
    have hraw : File.raw (.entry key gap value, .crlf) =
      (key ++ List.replicate (gap + 1) space ++ value) ++ [13] := rfl
    rw [readLine_entry hn hlt hkey hne hvalue (by rw [hraw]; exact List.concat_ne_nil _ _)
      (by rw [hraw, List.dropLast_concat]), if_neg]
    · rfl
    · rintro ⟨hk, hyes, hno⟩
      exact (hdaemon hk).elim hyes hno

/-- An entry whose line does not end in CRLF is lost or loses the last byte of its value. -/
theorem readLine_lost (hn : 0 ≤ n) (hlt : n + 1 < 2 ^ 31) {key value : Text} {gap : Nat}
    (hvalid : (Line.entry key gap value).Valid) (hending : ending ≠ .crlf)
    (h : readLine (m, n) (File.raw (.entry key gap value, ending)) = .ok (m', n')) :
    n' = n + 1 ∧ (m' = m ∨ m' = m.insert ⟨key⟩ value.dropLast) := by
  obtain ⟨hkey, hne, hvalue, -, -⟩ := hvalid
  have hraw : File.raw (.entry key gap value, ending) =
      key ++ List.replicate (gap + 1) space ++ value := by
    cases ending with
    | crlf => exact absurd rfl hending
    | lf => exact List.append_nil _
    | eof => exact List.append_nil _
  have hdrop : (File.raw (.entry key gap value, ending)).dropLast =
      key ++ List.replicate (gap + 1) space ++ value.dropLast := by
    rw [hraw, List.dropLast_append_of_ne_nil hne]
  have hfull : File.raw (.entry key gap value, ending) ≠ [] := by
    rw [hraw]
    exact List.append_ne_nil_of_right_ne_nil _ hne
  by_cases hone : value.dropLast = []
  · rw [hone, List.append_nil] at hdrop
    rw [readLine_key hn hlt hkey hfull hdrop] at h
    cases h
    exact ⟨rfl, .inl rfl⟩
  · have hshort : value.dropLast.all (fun b => !isBlank b) = true := by
      apply List.all_eq_true.mpr
      intro b hb
      exact List.all_eq_true.mp hvalue b ((List.dropLast_sublist value).mem hb)
    rw [readLine_entry hn hlt hkey hone hshort hfull hdrop] at h
    split at h
    · cases h
    · cases h
      exact ⟨rfl, .inr rfl⟩

/-- A blank line that is not kept makes the reader leave its string. -/
theorem readLine_blank_lost {text : Text} (hvalid : (Line.blank text).Valid)
    (hkept : ¬ (Line.blank text).Kept ending) :
    readLine (m, n) (File.raw (.blank text, ending)) = .error .undefined := by
  have hshort : text.dropLast.all isBlank = true := by
    apply List.all_eq_true.mpr
    intro b hb
    exact List.all_eq_true.mp hvalid b ((List.dropLast_sublist text).mem hb)
  have hlong (h : 1 < text.length) : readLine (m, n) (text ++ []) = .error .undefined := by
    rw [List.append_nil]
    refine readLine_blank (List.ne_nil_of_length_pos ?_) hshort
    rw [List.length_dropLast]
    omega
  cases ending with
  | crlf =>
    have hraw : (File.raw (.blank text, .crlf)).dropLast = text := List.dropLast_concat
    exact readLine_blank (by rw [hraw]; exact hkept) (by rw [hraw]; exact hvalid)
  | lf =>
    cases text with
    | nil => exact readLine_nil
    | cons b text =>
      refine hlong ?_
      have hne : (b :: text).length ≠ 1 := hkept
      rw [List.length_cons] at hne ⊢
      omega
  | eof => exact hlong (Nat.not_le.mp hkept)

/-- Everything that a line of the file can do when it is read. -/
theorem readLine_cases (hn : 0 ≤ n) (hvalid : l.Valid) (hread : File.Returned (l, ending))
    (h : readLine (m, n) (File.raw (l, ending)) = .ok (m', n')) :
    n' = n + 1 ∧ n + 1 < 2 ^ 31 ∧ ((l.Kept ending ∧ m' = l.apply m) ∨
      ∃ key gap value, l = .entry key gap value ∧
        (m' = m ∨ m' = m.insert ⟨key⟩ value.dropLast)) := by
  have hlt : n + 1 < 2 ^ 31 := by
    by_contra hge
    rw [readLine, add32, int32_eq_none (by omega)] at h
    cases h
  by_cases hkept : l.Kept ending
  · rw [readLine_kept hn hlt hvalid hkept hread] at h
    cases h
    exact ⟨rfl, hlt, .inl ⟨hkept, rfl⟩⟩
  · cases l with
    | comment text => exact absurd trivial hkept
    | blank text =>
      rw [readLine_blank_lost hvalid hkept] at h
      cases h
    | entry key gap value =>
      obtain ⟨hcount, hmap⟩ := readLine_lost hn hlt hvalid hkept h
      exact ⟨hcount, hlt, .inr ⟨key, gap, value, rfl, hmap⟩⟩

end Rendered

/-! ### What a file does -/

section Files

variable {m m' : Map} {n n' : Int} {file : File}

/-- A line that `getline` does not return is an empty one. -/
theorem eq_blank_of_text {l : Line} (h : l.Valid) (htext : l.text = []) : l = .blank [] := by
  cases l with
  | comment text => cases htext
  | blank text => exact congrArg Line.blank htext
  | entry key gap value => exact absurd (List.append_eq_nil_iff.mp htext).2 h.2.1

private theorem raws_cons_of_returned {l : Line × Ending} (h : File.Returned l) :
    File.raws (l :: file) = File.raw l :: file.raws := by
  rw [File.raws, List.filter_cons_of_pos (p := fun b => decide (File.Returned b))
    (decide_eq_true h), List.map_cons, File.raws]

private theorem raws_cons_of_not_returned {l : Line × Ending} (h : ¬ File.Returned l) :
    File.raws (l :: file) = file.raws := by
  rw [File.raws, List.filter_cons_of_neg (by rwa [decide_eq_true_eq]), File.raws]

/-- The lines that `getline` returns of the text of a file. -/
theorem splitLines_text (hended : file.Ended) (hvalid : ∀ l ∈ file, l.1.Valid) :
    splitLines [] file.text = file.raws := by
  induction file with
  | nil => rfl
  | cons l file ih =>
    obtain ⟨l, ending⟩ := l
    obtain ⟨hlast, hended⟩ := hended
    have hn := newline_notMem_text (hvalid (l, ending) List.mem_cons_self)
    have htail := ih hended fun l' hl' => hvalid l' (List.mem_cons_of_mem _ hl')
    rw [File.text, List.flatMap_cons]
    cases ending with
    | crlf =>
      have hn' : newline ∉ l.text ++ [13] := by
        intro h
        rcases List.mem_append.mp h with h | h
        · exact hn h
        · exact absurd (List.mem_singleton.mp h) (by decide)
      have hread := splitLines_line hn' (File.text file)
      rw [List.append_assoc, List.singleton_append] at hread
      rw [raws_cons_of_returned (.inl (show Ending.crlf ≠ .eof by decide)), ← htail,
        List.append_assoc]
      exact hread
    | lf =>
      have hread := splitLines_line hn (File.text file)
      have hraw : File.raw (l, .lf) = l.text := List.append_nil _
      rw [raws_cons_of_returned (.inl (show Ending.lf ≠ .eof by decide)), ← htail, hraw,
        List.append_assoc]
      exact hread
    | eof =>
      obtain rfl := hlast rfl
      have hraw : File.raw (l, .eof) = l.text := List.append_nil _
      rw [List.flatMap_nil, List.append_nil, Ending.bytes, List.append_nil, splitLines_last hn]
      split
      · next htext =>
        rw [raws_cons_of_not_returned (not_or.mpr ⟨not_not_intro rfl, not_not_intro htext⟩)]
        rfl
      · next htext =>
        rw [raws_cons_of_returned (.inr htext), hraw]
        rfl

/-- Lines that are all kept have their effect one after the other. -/
theorem run_kept (hvalid : ∀ l ∈ file, l.1.Valid) (hkept : ∀ l ∈ file, l.1.Kept l.2) (hn : 0 ≤ n)
    (hlt : n + file.raws.length < 2 ^ 31) :
    file.raws.foldlM readLine (m, n) =
      .ok ((file.map Prod.fst).foldl Line.apply m, n + file.raws.length) := by
  induction file generalizing m n with
  | nil => exact congrArg Except.ok (Prod.ext rfl (Int.add_zero n).symm)
  | cons l file ih =>
    have hvalid' := fun l' hl' => hvalid l' (List.mem_cons_of_mem l hl')
    have hkept' := fun l' hl' => hkept l' (List.mem_cons_of_mem l hl')
    rw [List.map_cons, List.foldl_cons]
    by_cases hread : File.Returned l
    · rw [raws_cons_of_returned hread, List.length_cons] at hlt ⊢
      rw [List.foldlM_cons, readLine_kept hn (by omega) (hvalid l List.mem_cons_self)
        (hkept l List.mem_cons_self) hread]
      have hrest := ih (m := l.1.apply m) (n := n + 1) hvalid' hkept' (by omega) (by omega)
      rw [show n + ((File.raws file).length + 1 : Nat) = n + 1 + (File.raws file).length by omega]
      exact hrest
    · have hblank := eq_blank_of_text (hvalid l List.mem_cons_self)
        (not_not.mp (not_or.mp hread).2)
      rw [raws_cons_of_not_returned hread] at hlt ⊢
      rw [ih hvalid' hkept' hn hlt, hblank]
      rfl

/-- The keys of the entries. -/
def keys (lines : List Line) : List Text := lines.filterMap Line.key

private theorem find_apply {l : Line} {key : Text} (h : l.key ≠ some key) :
    (l.apply m).find ⟨key⟩ = m.find ⟨key⟩ := by
  cases l with
  | comment text => rfl
  | blank text => rfl
  | entry key' gap value =>
    rw [Line.apply, OrderedMap.find_insert, if_neg]
    intro heq
    exact h (congrArg some (ByteString.mk.inj heq).symm)

private theorem mem_keys_cons {l : Line} {lines : List Line} {key : Text} :
    key ∈ keys (l :: lines) ↔ l.key = some key ∨ key ∈ keys lines := by
  simp only [keys, List.mem_filterMap, List.mem_cons, or_and_right, exists_or, exists_eq_left]

private theorem find_foldl_apply {lines : List Line} {key : Text} (h : key ∉ keys lines) :
    (lines.foldl Line.apply m).find ⟨key⟩ = m.find ⟨key⟩ := by
  induction lines generalizing m with
  | nil => rfl
  | cons l lines ih =>
    obtain ⟨hhead, htail⟩ := not_or.mp (mt mem_keys_cons.mpr h)
    rw [List.foldl_cons, ih htail, find_apply hhead]

/-- No key occurs twice in the lines, and none is in the map. -/
def Fresh (m : Map) (lines : List Line) : Prop :=
  (keys lines).Nodup ∧ ∀ key ∈ keys lines, m.find ⟨key⟩ = none

/-- A line that changes its own key only leaves the following lines fresh. -/
theorem Fresh.cons {l : Line} {lines : List Line} (h : Fresh m (l :: lines))
    (hm : ∀ key, l.key ≠ some key → m'.find ⟨key⟩ = m.find ⟨key⟩) :
    Fresh m' lines ∧ ∀ key, l.key = some key → key ∉ keys lines := by
  obtain ⟨hnodup, hfresh⟩ := h
  have hother : ∀ key, l.key = some key → key ∉ keys lines := by
    intro key hkey
    rw [keys, List.filterMap_cons_some hkey] at hnodup
    exact (List.nodup_cons.mp hnodup).1
  refine ⟨⟨?_, ?_⟩, hother⟩
  · cases hkey : l.key with
    | none => rwa [keys, List.filterMap_cons_none hkey] at hnodup
    | some key =>
      rw [keys, List.filterMap_cons_some hkey] at hnodup
      exact (List.nodup_cons.mp hnodup).2
  · intro key hk
    rw [hm key fun hkey => hother key hkey hk]
    exact hfresh key (mem_keys_cons.mpr (.inr hk))

/-- Every entry of fresh lines is found. -/
theorem find_of_mem {lines : List Line} (hfresh : Fresh m lines) {key value : Text} {gap : Nat}
    (h : .entry key gap value ∈ lines) :
    (lines.foldl Line.apply m).find ⟨key⟩ = some value := by
  induction lines generalizing m with
  | nil => exact absurd h List.not_mem_nil
  | cons l lines ih =>
    obtain ⟨htail, hother⟩ := hfresh.cons fun _ => find_apply
    rw [List.foldl_cons]
    rcases List.mem_cons.mp h with rfl | h
    · rw [find_foldl_apply (hother key rfl), Line.apply, OrderedMap.find_insert, if_pos rfl,
        hfresh.2 key (mem_keys_cons.mpr (.inl rfl)), Option.getD_none]
    · exact ih htail h

/-- A value without its last byte is another value. -/
theorem dropLast_ne_self {s : Text} (h : s ≠ []) : s.dropLast ≠ s := by
  intro heq
  have hlen := congrArg List.length heq
  have hpos := List.length_pos_of_ne_nil h
  rw [List.length_dropLast] at hlen
  omega

/-- The line is kept, or it carries an entry that the map does not have. -/
def KeptOrLost (m : Map) (l : Line × Ending) : Prop :=
  l.1.Kept l.2 ∨ ∃ key gap value, l.1 = .entry key gap value ∧ m.find ⟨key⟩ ≠ some value

private theorem KeptOrLost.congr {l : Line × Ending} (h : KeptOrLost m l)
    (hm : ∀ key, l.1.key = some key → m'.find ⟨key⟩ = m.find ⟨key⟩) : KeptOrLost m' l := by
  rcases h with hkept | ⟨key, gap, value, hentry, hlost⟩
  · exact .inl hkept
  · refine .inr ⟨key, gap, value, hentry, ?_⟩
    rwa [hm key (by rw [hentry]; rfl)]

/-- A line that is not returned is empty and ends the file. -/
theorem kept_of_not_returned {l : Line × Ending} (hvalid : l.1.Valid) (h : ¬ File.Returned l) :
    l.1.Kept l.2 := by
  have hblank := eq_blank_of_text hvalid (not_not.mp (not_or.mp h).2)
  have heof : l.2 = .eof := not_not.mp (not_or.mp h).1
  rw [hblank, heof]
  exact Nat.zero_le 1

/-- What one line says about the map after it, when its key is new: the other keys are as before,
and a line that is not kept carries an entry that the map does not have. -/
theorem step_cases {l : Line × Ending} (hn : 0 ≤ n) (hvalid : l.1.Valid) (hread : File.Returned l)
    (hnew : ∀ key, l.1.key = some key → m.find ⟨key⟩ = none)
    (h : readLine (m, n) (File.raw l) = .ok (m', n')) :
    (∀ key, l.1.key ≠ some key → m'.find ⟨key⟩ = m.find ⟨key⟩) ∧ KeptOrLost m' l := by
  rcases (readLine_cases hn hvalid hread h).2.2 with ⟨hkept, rfl⟩ | ⟨key, gap, value, hl, hm⟩
  · exact ⟨fun _ => find_apply, .inl hkept⟩
  · rw [hl] at hvalid hnew
    have hnone := hnew key rfl
    rcases hm with rfl | rfl
    · refine ⟨fun _ _ => rfl, .inr ⟨key, gap, value, hl, ?_⟩⟩
      rw [hnone]
      exact (Option.some_ne_none value).symm
    · refine ⟨fun key' hkey' => ?_, .inr ⟨key, gap, value, hl, ?_⟩⟩
      · rw [hl] at hkey'
        exact find_apply (l := .entry key gap value.dropLast) hkey'
      · rw [OrderedMap.find_insert, if_pos rfl, hnone, Option.getD_none]
        exact fun heq => dropLast_ne_self hvalid.2.1 (Option.some.inj heq)

/-- What a run over fresh lines says about them: a line that is not kept carries an entry that the
map does not have. -/
theorem run_cases (hvalid : ∀ l ∈ file, l.1.Valid) (hfresh : Fresh m (file.map Prod.fst))
    (hn : 0 ≤ n) (hlt : n < 2 ^ 31) (h : file.raws.foldlM readLine (m, n) = .ok (m', n')) :
    n + file.raws.length < 2 ^ 31 ∧
    (∀ key ∉ keys (file.map Prod.fst), m'.find ⟨key⟩ = m.find ⟨key⟩) ∧
    ∀ l ∈ file, KeptOrLost m' l := by
  induction file generalizing m n with
  | nil =>
    cases h
    exact ⟨by simpa [File.raws] using hlt, fun _ _ => rfl, fun l hl => absurd hl List.not_mem_nil⟩
  | cons l file ih =>
    have hl := hvalid l List.mem_cons_self
    have hvalid' := fun l' hl' => hvalid l' (List.mem_cons_of_mem l hl')
    rw [List.map_cons] at hfresh ⊢
    by_cases hread : File.Returned l
    · rw [raws_cons_of_returned hread] at h ⊢
      rw [List.foldlM_cons] at h
      cases hstep : readLine (m, n) (File.raw l) with
      | error stop =>
        rw [hstep] at h
        cases h
      | ok st =>
        obtain ⟨m₁, n₁⟩ := st
        rw [hstep] at h
        obtain ⟨rfl, hlt', -⟩ := readLine_cases hn hl hread hstep
        obtain ⟨hsame, hkept⟩ := step_cases hn hl hread
          (fun key hkey => hfresh.2 key (mem_keys_cons.mpr (.inl hkey))) hstep
        obtain ⟨htail, hkey⟩ := hfresh.cons hsame
        obtain ⟨hcount, hother, hlines⟩ := ih hvalid' htail (by omega) hlt' h
        refine ⟨by rw [List.length_cons]; omega, fun key hk => ?_, fun l' hl' => ?_⟩
        · obtain ⟨hhead, hrest⟩ := not_or.mp (mt mem_keys_cons.mpr hk)
          rw [hother key hrest, hsame key hhead]
        · rcases List.mem_cons.mp hl' with rfl | hl'
          · exact hkept.congr fun key hk => hother key (hkey key hk)
          · exact hlines l' hl'
    · rw [raws_cons_of_not_returned hread] at h ⊢
      obtain ⟨htail, -⟩ := hfresh.cons fun key _ => Eq.refl (m.find ⟨key⟩)
      obtain ⟨hcount, hother, hlines⟩ := ih hvalid' htail hn hlt h
      refine ⟨hcount, fun key hkey => hother key fun hk => hkey (mem_keys_cons.mpr (.inr hk)), ?_⟩
      intro l' hl'
      rcases List.mem_cons.mp hl' with rfl | hl'
      · exact .inl (kept_of_not_returned hl hread)
      · exact hlines l' hl'

end Files

/-! ### Line endings -/

section Endings

variable {crlf terminated : Bool} {lines : List Line}

private theorem map_fst_ended (crlf terminated : Bool) (lines : List Line) :
    (ended crlf terminated lines).map Prod.fst = lines := by
  induction lines with
  | nil => rfl
  | cons l lines ih =>
    cases lines with
    | nil => rfl
    | cons l' ls => rw [ended, List.map_cons, ih]

private theorem ended_ended : (ended crlf terminated lines).Ended := by
  induction lines with
  | nil => trivial
  | cons l lines ih =>
    cases lines with
    | nil => exact ⟨fun _ => rfl, trivial⟩
    | cons l' ls =>
      refine ⟨fun h => ?_, ih⟩
      cases crlf <;> cases h

/-- A file whose lines are all kept gives each key its first value; where no key occurs twice, no
other file does. -/
theorem readConfig_line_endings (filename : Text) (hvalid : ∀ l ∈ lines, l.Valid)
    (crlf terminated : Bool) :
    ((ended crlf terminated lines).Kept →
      readConfig filename (.ok (ended crlf terminated lines).text) = .ok (expected lines)) ∧
    ((keys lines).Nodup →
      readConfig filename (.ok (ended crlf terminated lines).text) = .ok (expected lines) →
      (ended crlf terminated lines).Kept) := by
  have hvalid' : ∀ l ∈ ended crlf terminated lines, l.1.Valid := by
    intro l hl
    apply hvalid
    rw [← map_fst_ended crlf terminated lines]
    exact List.mem_map_of_mem hl
  rw [readConfig, splitLines_text ended_ended hvalid']
  constructor
  · rintro ⟨hcount, hkept⟩
    rw [run_kept hvalid' hkept (by omega) (by omega), map_fst_ended]
    rfl
  · intro hnodup h
    have hfresh : Fresh OrderedMap.empty lines := ⟨hnodup, fun key _ => rfl⟩
    cases hrun : (ended crlf terminated lines).raws.foldlM readLine (OrderedMap.empty, 0) with
    | error stop =>
      rw [hrun] at h
      cases h
    | ok st =>
      obtain ⟨m, n⟩ := st
      rw [hrun] at h
      have hm : m = expected lines := Except.ok.inj h
      obtain ⟨hcount, -, hlines⟩ := run_cases hvalid' (by rwa [map_fst_ended]) (by omega) (by omega)
        hrun
      refine ⟨by omega, fun l hl => ?_⟩
      rcases hlines l hl with hkept | ⟨key, gap, value, hentry, hlost⟩
      · exact hkept
      · have hmem : .entry key gap value ∈ lines := by
          rw [← hentry, ← map_fst_ended crlf terminated lines]
          exact List.mem_map_of_mem hl
        rw [hm, expected, find_of_mem hfresh hmem] at hlost
        exact absurd rfl hlost

end Endings

/-- Lines in the manner of `conf/server.conf`. -/
def serverLines : List Line :=
  [.comment (bytesOf "port"), .entry (bytesOf "port") 3 (bytesOf "9998"), .blank [],
    .entry (bytesOf "daemon") 5 (bytesOf "no")]

/-- The lines of a server. -/
theorem readConfig_line_endings_server :
    readConfig (bytesOf "server.conf") (.ok (ended true true serverLines).text) =
      .ok (expected serverLines) :=
  (readConfig_line_endings (bytesOf "server.conf") (by decide) true true).1 (by decide)

/-- An entry whose line ends in LF loses the last byte of its value. -/
theorem readConfig_loses_byte :
    (∀ l ∈ [Line.entry (bytesOf "port") 3 (bytesOf "9998")], l.Valid) ∧
    ((readConfig [] (.ok (ended true true
      [.entry (bytesOf "port") 3 (bytesOf "9998")]).text)).toOption.bind
        (·.find ⟨bytesOf "port"⟩)) = some (bytesOf "9998") ∧
    ((readConfig [] (.ok (ended false true
      [.entry (bytesOf "port") 3 (bytesOf "9998")]).text)).toOption.bind
        (·.find ⟨bytesOf "port"⟩)) = some (bytesOf "999") := by
  refine ⟨?_, ?_, ?_⟩ <;> decide +kernel

end IMServer.Config
