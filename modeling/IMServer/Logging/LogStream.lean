import IMServer.Base.Decimal
import IMServer.Base.Lines
import IMServer.Logging.AsyncLogging

/-!
# Log records

`server/src/LogStream.cc`, `LogStream.h` and `Logging.cc`. A record is built in a buffer of 4000
bytes: a header, the insertions of the caller, and a suffix with the source file, the line number
and a newline. Every insertion is kept whole or dropped: a text when fewer bytes than the room are
needed, a number when 32 bytes are left.

The newline is an insertion too. It is dropped, and the record is not a terminated line, exactly
when the part of the record up to the name of the source file fills 3998 or 3999 bytes.
-/

namespace IMServer.Logging

open IMServer.Base

/-! ### Numbers -/

/-- `digits`, `LogStream.cc:18`: the digit of a remainder is 9 places further. -/
def digits : List UInt8 := bytesOf "9876543210123456789"

/-- The loop of `convert`, `LogStream.cc:34–39`: the digits of a number, the last one first. Twenty
turns are enough for 64 bits. -/
def convertLoop : Nat → Int → List UInt8
  | 0, _ => []
  | fuel + 1, i =>
    digits.getD (9 + i.tmod 10).toNat 0 ::
      if i.tdiv 10 = 0 then [] else convertLoop fuel (i.tdiv 10)

/-- `convert`, `LogStream.cc:28–49`. -/
def convert (value : Int) : List UInt8 :=
  (convertLoop 20 value ++ if value < 0 then bytesOf "-" else []).reverse

/-- `digitsHex`, `LogStream.cc:22`. -/
def digitsHex : List UInt8 := bytesOf "0123456789ABCDEF"

/-- The loop of `convertHex`, `LogStream.cc:58–63`. -/
def convertHexLoop : Nat → Nat → List UInt8
  | 0, _ => []
  | fuel + 1, i =>
    digitsHex.getD (i % 16) 0 :: if i / 16 = 0 then [] else convertHexLoop fuel (i / 16)

/-- `convertHex`, `LogStream.cc:53–69`. -/
def convertHex (value : UInt64) : List UInt8 := (convertHexLoop 16 value.toNat).reverse

private theorem length_convertLoop_le (fuel : Nat) (i : Int) :
    (convertLoop fuel i).length ≤ fuel := by
  induction fuel generalizing i with
  | zero => exact Nat.le_refl 0
  | succ fuel ih =>
    rw [convertLoop, List.length_cons]
    split
    · exact Nat.le_add_left 1 fuel
    · exact Nat.succ_le_succ (ih _)

private theorem length_convertHexLoop_le (fuel i : Nat) :
    (convertHexLoop fuel i).length ≤ fuel := by
  induction fuel generalizing i with
  | zero => exact Nat.le_refl 0
  | succ fuel ih =>
    rw [convertHexLoop, List.length_cons]
    split
    · exact Nat.le_add_left 1 fuel
    · exact Nat.succ_le_succ (ih _)

private theorem length_convert_le (value : Int) : (convert value).length ≤ 21 := by
  have hloop := length_convertLoop_le 20 value
  rw [convert, List.length_reverse, List.length_append]
  split
  · exact Nat.add_le_add hloop (Nat.le_refl 1)
  · rw [List.length_nil]
    omega

/-- What `operator<<(const void*)` writes, `LogStream.cc:180–184`. -/
def pointerText (p : UInt64) : List UInt8 := bytesOf "0x" ++ convertHex p

private theorem length_pointerText_le (p : UInt64) : (pointerText p).length ≤ 18 := by
  have hloop := length_convertHexLoop_le 16 p.toNat
  rw [pointerText, List.length_append, convertHex, List.length_reverse]
  exact Nat.add_le_add (Nat.le_refl 2) hloop

/-! ### Streams -/

/-- `LogStream.h:18`. -/
def kSmallBuffer : Nat := 4000

/-- `LogStream.h:184`. -/
def kMaxNumericSize : Nat := 32

abbrev LogStream := FixedBuffer kSmallBuffer

/-- The values of the integer types that a stream takes. -/
abbrev Integer := { v : Int // -2 ^ 63 ≤ v ∧ v < 2 ^ 64 }

/-- What is inserted: a text with its length, a C string or a null pointer, a character, a truth
value, an integer or a pointer. -/
inductive Insertion where
  | string (v : List UInt8)
  | cString (str : Option (List UInt8))
  | char (v : UInt8)
  | bool (v : Bool)
  | integer (v : Integer)
  | pointer (p : UInt64)

namespace LogStream

def new : LogStream := FixedBuffer.new

/-- Bytes written at `current()`, and `add`, `LogStream.h:53–59`. -/
def write (b : LogStream) (text : List UInt8) (h : text.length ≤ b.avail) : LogStream :=
  ⟨b.data ++ text, by rw [List.length_append]; have := b.fits; unfold FixedBuffer.avail at h; omega⟩

/-- `formatInteger`, `LogStream.cc:117–125`. -/
def formatInteger (b : LogStream) (v : Int) : LogStream :=
  if h : kMaxNumericSize ≤ b.avail then
    b.write (convert v) ((length_convert_le v).trans (Nat.le_trans (by decide) h))
  else b

/-- `operator<<(const void*)`, `LogStream.cc:175–187`. -/
def formatPointer (b : LogStream) (p : UInt64) : LogStream :=
  if h : kMaxNumericSize ≤ b.avail then
    b.write (pointerText p) ((length_pointerText_le p).trans (Nat.le_trans (by decide) h))
  else b

/-- The operators of `LogStream.h:107–167` and `LogStream.cc:127–187`. -/
def insert (b : LogStream) : Insertion → LogStream
  | .string v => b.append v
  | .cString (some str) => b.append (str.takeWhile (· ≠ 0))
  | .cString none => b.append (bytesOf "(null)")
  | .char v => b.append [v]
  | .bool v => b.append (if v then bytesOf "1" else bytesOf "0")
  | .integer v => b.formatInteger v.1
  | .pointer p => b.formatPointer p

end LogStream

namespace Insertion

/-- The text of an insertion. -/
def text : Insertion → List UInt8
  | string v => v
  | cString (some str) => str.takeWhile (· ≠ 0)
  | cString none => bytesOf "(null)"
  | char v => [v]
  | bool v => if v then bytesOf "1" else bytesOf "0"
  | integer v => convert v.1
  | pointer p => pointerText p

/-- There is room for the insertion. -/
def Room (b : LogStream) : Insertion → Prop
  | integer _ => kMaxNumericSize ≤ b.avail
  | pointer _ => kMaxNumericSize ≤ b.avail
  | i => i.text.length < b.avail

instance (b : LogStream) : (i : Insertion) → Decidable (Room b i)
  | string _ => inferInstanceAs (Decidable (_ < _))
  | cString _ => inferInstanceAs (Decidable (_ < _))
  | char _ => inferInstanceAs (Decidable (_ < _))
  | bool _ => inferInstanceAs (Decidable (_ < _))
  | integer _ => inferInstanceAs (Decidable (_ ≤ _))
  | pointer _ => inferInstanceAs (Decidable (_ ≤ _))

end Insertion

namespace LogStream

variable {b : LogStream}

/-- An insertion is kept whole or dropped. -/
theorem data_insert (b : LogStream) (i : Insertion) :
    (b.insert i).data = if i.Room b then b.data ++ i.text else b.data := by
  have happend (text : List UInt8) :
      (b.append text).data = if text.length < b.avail then b.data ++ text else b.data := by
    unfold FixedBuffer.append
    split <;> rfl
  cases i with
  | string v => exact happend v
  | cString str =>
    cases str with
    | none => exact happend _
    | some str => exact happend _
  | char v => exact happend [v]
  | bool v => exact happend _
  | integer v =>
    rw [insert, formatInteger]
    by_cases h : kMaxNumericSize ≤ b.avail
    · rw [dif_pos h, if_pos (show Insertion.Room b (.integer v) from h)]
      rfl
    · rw [dif_neg h, if_neg (show ¬ Insertion.Room b (.integer v) from h)]
  | pointer p =>
    rw [insert, formatPointer]
    by_cases h : kMaxNumericSize ≤ b.avail
    · rw [dif_pos h, if_pos (show Insertion.Room b (.pointer p) from h)]
      rfl
    · rw [dif_neg h, if_neg (show ¬ Insertion.Room b (.pointer p) from h)]

/-- Insertions one after the other. -/
def insertAll (b : LogStream) (is : List Insertion) : LogStream := is.foldl insert b

/-- The insertions that find room. -/
def kept (b : LogStream) : List Insertion → List Insertion
  | [] => []
  | i :: is => if i.Room b then i :: kept (b.insert i) is else kept (b.insert i) is

private theorem kept_sublist (b : LogStream) (is : List Insertion) : (b.kept is).Sublist is := by
  induction is generalizing b with
  | nil => exact List.Sublist.refl []
  | cons i is ih =>
    unfold kept
    split
    · exact (ih _).cons_cons i
    · exact (ih _).cons i

/-- A stream holds the texts of the insertions that found room. -/
theorem data_insertAll (b : LogStream) (is : List Insertion) :
    (b.insertAll is).data = b.data ++ (b.kept is).flatMap Insertion.text := by
  induction is generalizing b with
  | nil => exact (List.append_nil _).symm
  | cons i is ih =>
    rw [insertAll, List.foldl_cons, ← insertAll, ih, data_insert, kept]
    split
    · rw [List.flatMap_cons, List.append_assoc]
    · rfl

/-- Where there is room for an insertion its text fits, and a byte is left. -/
theorem length_lt_of_room {i : Insertion} (h : i.Room b) : i.text.length < b.avail := by
  cases i with
  | integer v =>
    have hlen : (Insertion.integer v).text.length ≤ 21 := length_convert_le v.1
    exact Nat.lt_of_lt_of_le (Nat.lt_of_le_of_lt hlen (by decide)) h
  | pointer p =>
    have hlen : (Insertion.pointer p).text.length ≤ 18 := length_pointerText_le p
    exact Nat.lt_of_lt_of_le (Nat.lt_of_le_of_lt hlen (by decide)) h
  | string v => exact h
  | cString str => exact h
  | char v => exact h
  | bool v => exact h

/-- The last byte of the buffer is never used. -/
theorem length_insert_lt (h : b.data.length < kSmallBuffer) (i : Insertion) :
    (b.insert i).data.length < kSmallBuffer := by
  rw [data_insert]
  split
  · next hroom =>
    have hlt := length_lt_of_room hroom
    rw [FixedBuffer.avail] at hlt
    rw [List.length_append]
    omega
  · exact h

private theorem length_insertAll_lt (h : b.data.length < kSmallBuffer) (is : List Insertion) :
    (b.insertAll is).data.length < kSmallBuffer := by
  induction is generalizing b with
  | nil => exact h
  | cons i is ih => exact ih (length_insert_lt h i)

/-- Where 32 bytes are left besides the text, there is room. -/
theorem room_of_le {i : Insertion} (h : i.text.length + kMaxNumericSize ≤ b.avail) : i.Room b := by
  have hpos : 0 < kMaxNumericSize := by decide
  cases i with
  | integer v => exact Nat.le_trans (Nat.le_add_left _ _) h
  | pointer p => exact Nat.le_trans (Nat.le_add_left _ _) h
  | string v => exact Nat.lt_of_lt_of_le (Nat.lt_add_of_pos_right hpos) h
  | cString str => exact Nat.lt_of_lt_of_le (Nat.lt_add_of_pos_right hpos) h
  | char v => exact Nat.lt_of_lt_of_le (Nat.lt_add_of_pos_right hpos) h
  | bool v => exact Nat.lt_of_lt_of_le (Nat.lt_add_of_pos_right hpos) h

private theorem kept_of_le {is : List Insertion}
    (h : b.data.length + (is.flatMap Insertion.text).length + kMaxNumericSize ≤ kSmallBuffer) :
    b.kept is = is := by
  induction is generalizing b with
  | nil => rfl
  | cons i is ih =>
    have havail : b.avail = kSmallBuffer - b.data.length := rfl
    rw [List.flatMap_cons, List.length_append] at h
    have hroom : i.Room b := room_of_le (by omega)
    rw [kept, if_pos hroom, ih]
    rw [data_insert, if_pos hroom, List.length_append]
    omega

end LogStream

/-! ### Loggers -/

/-- `Logging.h:19–28`. -/
inductive LogLevel where
  | trace
  | debug
  | info
  | warn
  | error
  | fatal

/-- `LogLevelName`, `Logging.cc:32–40`. -/
def LogLevel.name : LogLevel → List UInt8
  | trace => bytesOf "TRACE "
  | debug => bytesOf "DEBUG "
  | info => bytesOf "INFO  "
  | warn => bytesOf "WARN  "
  | error => bytesOf "ERROR "
  | fatal => bytesOf "FATAL "

private theorem LogLevel.length_name (level : LogLevel) : level.name.length = 6 := by
  cases level <;> rfl

/-- `SourceFile`, `Logging.h:31–57`: the name after the last slash. -/
def sourceFile (filename : List UInt8) : List UInt8 := filename.rtakeWhile (· ≠ 47)

/-- What a `Logger` finds when it is made: the formatted time, the text of the thread with its
blank, and what `strerror_r` says about `errno`. -/
structure Context where
  time : List UInt8
  tid : List UInt8
  strerror : List UInt8
  length_time : time.length = 24
  length_tid : tid.length < 32
  length_strerror : strerror.length < 512

/-- The arguments of `Impl` and the function name that is inserted after it. -/
structure Logger where
  level : LogLevel
  savedErrno : Integer
  file : List UInt8
  line : Integer
  func : Option (List UInt8)

namespace Logger

/-- The four constructors, `Logging.cc:193–216`. -/
def ofLine (file : List UInt8) (line : Integer) : Logger :=
  ⟨.info, ⟨0, by decide⟩, file, line, none⟩

@[inherit_doc ofLine]
def ofFunc (file : List UInt8) (line : Integer) (level : LogLevel) (func : List UInt8) : Logger :=
  ⟨level, ⟨0, by decide⟩, file, line, some func⟩

@[inherit_doc ofLine]
def ofLevel (file : List UInt8) (line : Integer) (level : LogLevel) : Logger :=
  ⟨level, ⟨0, by decide⟩, file, line, none⟩

@[inherit_doc ofLine]
def ofErrno (file : List UInt8) (line : Integer) (toAbort : Bool) (errno : Integer) : Logger :=
  ⟨if toAbort then .fatal else .error, errno, file, line, none⟩

/-- The insertions of `Impl::Impl`, `Logging.cc:120–133`. -/
def header (l : Logger) (ctx : Context) : List Insertion :=
  [.string ctx.time, .string (bytesOf " "), .string ctx.tid, .string l.level.name] ++
    if l.savedErrno.1 ≠ 0 then
      [.cString (some ctx.strerror), .cString (some (bytesOf " (errno=")), .integer l.savedErrno,
        .cString (some (bytesOf ") "))]
    else []

/-- The insertions of the constructor that is given a function name, `Logging.cc:203`. -/
def funcInsertions (l : Logger) : List Insertion :=
  match l.func with
  | some func => [.cString (some func), .char 32]
  | none => []

/-- The insertions of `finish`, `Logging.cc:183`, in two parts. -/
def suffixName (l : Logger) : List Insertion :=
  [.cString (some (bytesOf " - ")), .string (sourceFile l.file)]

@[inherit_doc suffixName]
def suffixLine (l : Logger) : List Insertion := [.char 58, .integer l.line, .char newline]

/-- The stream of a new `Logger`. -/
def stream (l : Logger) (ctx : Context) : LogStream :=
  (LogStream.new.insertAll (l.header ctx)).insertAll l.funcInsertions

/-- The stream when the name of the source file has been inserted. -/
def named (l : Logger) (ctx : Context) (insertions : List Insertion) : LogStream :=
  ((l.stream ctx).insertAll insertions).insertAll l.suffixName

/-- The record that the destructor hands to `g_output`, `Logging.cc:221–236`. -/
def record (l : Logger) (ctx : Context) (insertions : List Insertion) : List UInt8 :=
  ((l.named ctx insertions).insertAll l.suffixLine).data

variable {l : Logger} {ctx : Context} {insertions : List Insertion}

/-- The header always finds room. -/
theorem kept_header (l : Logger) (ctx : Context) :
    LogStream.new.kept (l.header ctx) = l.header ctx := by
  apply LogStream.kept_of_le
  have htime := ctx.length_time
  have htid := ctx.length_tid
  have hname := l.level.length_name
  have hstrerror := ctx.length_strerror
  have hcut := (List.takeWhile_prefix (· ≠ 0) (l := ctx.strerror)).length_le
  have herrno := length_convert_le l.savedErrno.1
  have hblank : (bytesOf " ").length = 1 := rfl
  have hopen : ((bytesOf " (errno=").takeWhile (· ≠ 0)).length = 8 := by decide
  have hclose : ((bytesOf ") ").takeWhile (· ≠ 0)).length = 2 := by decide
  have hnew : LogStream.new.data.length = 0 := rfl
  rw [hnew, kMaxNumericSize, kSmallBuffer]
  unfold header
  split <;>
    simp only [List.flatMap_append, List.flatMap_cons, List.flatMap_nil, List.length_append,
      Insertion.text, htime, hname, hblank, hopen, hclose, List.length_nil] <;>
    omega

/-- The stream before the suffix: the header and the insertions that found room. -/
theorem data_beforeSuffix (l : Logger) (ctx : Context) (insertions : List Insertion) :
    ((l.stream ctx).insertAll insertions).data =
      (l.header ctx).flatMap Insertion.text ++
        ((LogStream.new.insertAll (l.header ctx)).kept (l.funcInsertions ++ insertions)).flatMap
          Insertion.text := by
  have happend : (l.stream ctx).insertAll insertions =
      (LogStream.new.insertAll (l.header ctx)).insertAll (l.funcInsertions ++ insertions) :=
    (List.foldl_append ..).symm
  rw [happend, LogStream.data_insertAll, LogStream.data_insertAll, kept_header]
  rfl

/-- What a character does to a stream. -/
theorem data_insert_char (b : LogStream) (c : UInt8) :
    (b.insert (.char c)).data = if b.data.length < 3999 then b.data ++ [c] else b.data := by
  have hroom : (Insertion.char c).Room b ↔ b.data.length < 3999 := by
    change 1 < 4000 - b.data.length ↔ _
    omega
  simp only [LogStream.data_insert, hroom]
  rfl

/-- What an integer does to a stream. -/
theorem data_insert_integer (b : LogStream) (v : Integer) :
    (b.insert (.integer v)).data =
      if b.data.length ≤ 3968 then b.data ++ convert v.1 else b.data := by
  have hroom : (Insertion.integer v).Room b ↔ b.data.length ≤ 3968 := by
    change 32 ≤ 4000 - b.data.length ↔ _
    omega
  simp only [LogStream.data_insert, hroom]
  rfl

/-- The end of a record: the newline is dropped when there are 3998 or 3999 bytes before `:`. -/
theorem getLast?_suffixLine {b : LogStream} (hb : b.data.length < 4000) (line : Integer) :
    (b.insertAll [.char 58, .integer line, .char newline]).data.getLast? = some newline ↔
      b.data.length < 3998 ∨ (b.data.length = 3999 ∧ b.data.getLast? = some newline) := by
  rw [LogStream.insertAll, List.foldl_cons, List.foldl_cons, List.foldl_cons, List.foldl_nil,
    data_insert_char, data_insert_integer, data_insert_char]
  by_cases hsmall : b.data.length < 3998
  · have hlen : (b.data ++ [58]).length = b.data.length + 1 := List.length_append
    have hroom : (if (b.data ++ [58]).length ≤ 3968 then b.data ++ [58] ++ convert line.1
        else b.data ++ [58]).length < 3999 := by
      have hnumber := length_convert_le line.1
      split
      · rw [List.length_append]
        omega
      · omega
    rw [if_pos (show b.data.length < 3999 by omega), if_pos hroom, List.getLast?_concat]
    exact iff_of_true rfl (.inl hsmall)
  · by_cases hfull : b.data.length = 3999
    · rw [if_neg (show ¬ b.data.length < 3999 by omega),
        if_neg (show ¬ b.data.length ≤ 3968 by omega),
        if_neg (show ¬ b.data.length < 3999 by omega)]
      exact ⟨fun h => .inr ⟨hfull, h⟩, fun h => (h.resolve_left hsmall).2⟩
    · have hlen : (b.data ++ [58]).length = 3999 := by
        rw [List.length_append, List.length_singleton]
        omega
      have hline : ¬ (b.data ++ [58]).length ≤ 3968 := by omega
      have hend : ¬ (b.data ++ [58]).length < 3999 := by omega
      rw [if_pos (show b.data.length < 3999 by omega), if_neg hline, if_neg hend,
        List.getLast?_concat]
      exact iff_of_false (by decide) fun h => h.elim hsmall fun h => hfull h.1

/-- A record has at most 3999 bytes and consists of the header, the insertions that found room and
the parts of the suffix that found room. It ends with a newline unless the part up to the name of
the source file has 3998 or 3999 bytes; in the latter case its last byte is the last one of that
part. -/
theorem record_terminated_iff (l : Logger) (ctx : Context) (insertions : List Insertion) :
    (l.record ctx insertions).length < 4000 ∧
    (∃ kept suffix, List.Sublist kept (l.funcInsertions ++ insertions) ∧
      List.Sublist suffix (l.suffixName ++ l.suffixLine) ∧
      kept = (LogStream.new.insertAll (l.header ctx)).kept (l.funcInsertions ++ insertions) ∧
      l.record ctx insertions = (l.header ctx ++ kept ++ suffix).flatMap Insertion.text) ∧
    ((l.record ctx insertions).getLast? = some newline ↔
      (l.named ctx insertions).data.length < 3998 ∨
      ((l.named ctx insertions).data.length = 3999 ∧
        (l.named ctx insertions).data.getLast? = some newline)) := by
  have hnew : LogStream.new.data.length < kSmallBuffer := by decide
  have hnamed : (l.named ctx insertions).data.length < kSmallBuffer := by
    have hheader := LogStream.length_insertAll_lt hnew (l.header ctx)
    have hstream := LogStream.length_insertAll_lt hheader l.funcInsertions
    exact LogStream.length_insertAll_lt (LogStream.length_insertAll_lt hstream insertions) _
  have hlength : (l.record ctx insertions).length < kSmallBuffer :=
    LogStream.length_insertAll_lt hnamed l.suffixLine
  have hsuffix : l.record ctx insertions =
      (((l.stream ctx).insertAll insertions).insertAll (l.suffixName ++ l.suffixLine)).data :=
    congrArg FixedBuffer.data (List.foldl_append ..).symm
  constructor
  · exact hlength
  constructor
  · refine ⟨(LogStream.new.insertAll (l.header ctx)).kept (l.funcInsertions ++ insertions),
      ((l.stream ctx).insertAll insertions).kept (l.suffixName ++ l.suffixLine),
      LogStream.kept_sublist _ _, LogStream.kept_sublist _ _, rfl, ?_⟩
    rw [hsuffix, LogStream.data_insertAll, data_beforeSuffix, List.flatMap_append,
      List.flatMap_append]
  · exact getLast?_suffixLine hnamed l.line

/-- A context with a thread text of six bytes, which makes a header of 37 bytes. -/
def plainContext : Context :=
  ⟨bytesOf "20190213 06:07:09.000000", bytesOf "  101 ", [], by decide, by decide, by decide⟩

/-- A message that leaves no room for the suffix: the record is not terminated. -/
theorem record_not_terminated :
    ((ofLine (bytesOf "Server.cc") ⟨1, by decide⟩).record plainContext
      [.string (List.replicate 3962 97)]).getLast? = some 97 := by
  decide +kernel

end Logger

end IMServer.Logging
