import IMServer.Base.Bytes
import IMServer.Config.ReadConfig
import IMServer.Logging.LogFile

/-!
# The size at which log files roll

`toByte` of `server/src/ReadConfig.h`, and the way of its result through `Server::Server` and
`AsyncLogging` to the `LogFile` of the logging thread. The digits of a text are collected into a
number and its capital letters into a unit; the product of the two is formed in `int`.

A numeral with a unit gives its size exactly when the product is below 2³¹; from `2GB`, `2048MB` and
`2097152KB` on it overflows. Where overflow wraps, the size can be negative, and then the log rolls
with every append that happens in a new second.
-/

namespace IMServer.Config

open IMServer.Base IMServer.Logging

/-! ### The function -/

/-- What ends `toByte` without a result: an exception of `std::stoi`, or an overflow. -/
inductive SizeError where
  | invalidArgument
  | outOfRange
  | overflow
  deriving DecidableEq, Repr

/-- `std::stoi` of a text of digits. -/
def stoi (number : Text) : Except SizeError Int :=
  if number = [] then .error .invalidArgument
  else if readDigits number < 2 ^ 31 then .ok (readDigits number)
  else .error .outOfRange

/-- A product in `int`. -/
def times (x y : Int) : Except SizeError Int :=
  match mul32 x y with
  | some z => .ok z
  | none => .error .overflow

/-- One turn of the loop of `toByte`, :177–183, on `unit` and `number`. -/
def collect (st : Text × Text) (c : UInt8) : Text × Text :=
  if c ≤ 57 ∧ 48 ≤ c then (st.1, st.2 ++ [c])
  else if c ≤ 90 ∧ 65 ≤ c then (st.1 ++ [c], st.2)
  else st

/-- `toByte`, :173–194. -/
def toByte (str : Text) : Except SizeError Int :=
  let (unit, number) := str.foldl collect ([], [])
  if unit = bytesOf "B" then stoi number
  else if unit = bytesOf "KB" then do
    times (← stoi number) 1024
  else if unit = bytesOf "MB" then do
    times (← times (← stoi number) 1024) 1024
  else if unit = bytesOf "GB" then do
    times (← times (← times (← stoi number) 1024) 1024) 1024
  else .ok 0

/-- The constants of the `LogFile` that `AsyncLogging` writes to, `Server.cc:24`,
`AsyncLogging.cc:62` and `LogFile.h:23–27`. `operator[]` gives an empty text for a key that is not
there. -/
def outputRolling (config : Map) : Except SizeError Rolling :=
  (toByte ((config.find ⟨bytesOf "logRollSie"⟩).getD [])).map fun rollSize =>
    ⟨rollSize, 3, 1024, by decide⟩

/-! ### Sizes -/

inductive SizeUnit where
  | B
  | KB
  | MB
  | GB
  deriving DecidableEq, Repr

namespace SizeUnit

def text : SizeUnit → Text
  | B => bytesOf "B"
  | KB => bytesOf "KB"
  | MB => bytesOf "MB"
  | GB => bytesOf "GB"

/-- The number of bytes. -/
def factor : SizeUnit → Int
  | B => 1
  | KB => 1024
  | MB => 1024 * 1024
  | GB => 1024 * 1024 * 1024

end SizeUnit

section Sizes

variable {number : Text}

/-- Digits are collected into the number. -/
theorem foldl_collect_digits (h : ∀ c ∈ number, IsDigit c) (unit read : Text) :
    number.foldl collect (unit, read) = (unit, read ++ number) := by
  induction number generalizing read with
  | nil => rw [List.foldl_nil, List.append_nil]
  | cons c number ih =>
    obtain ⟨hlo, hhi⟩ := h c List.mem_cons_self
    have hc : c ≤ 57 ∧ 48 ≤ c := by
      rw [UInt8.le_iff_toNat_le, UInt8.le_iff_toNat_le]
      exact ⟨Nat.le_of_lt_succ hhi, hlo⟩
    rw [List.foldl_cons, collect, if_pos hc, ih fun d hd => h d (List.mem_cons_of_mem c hd),
      List.append_assoc, List.singleton_append]

/-- The scan of a numeral with a unit. -/
theorem foldl_collect_size (h : ∀ c ∈ number, IsDigit c) (u : SizeUnit) :
    (number ++ u.text).foldl collect ([], []) = (u.text, number) := by
  rw [List.foldl_append, foldl_collect_digits h, List.nil_append]
  cases u <;> rfl

/-- A size that is not negative, as far as `int` has it. -/
def sized (x : Int) : Except SizeError Int := if x < 2 ^ 31 then .ok x else .error .overflow

private theorem times_eq {x y : Int} (hx : 0 ≤ x) (hy : 0 ≤ y) : times x y = sized (x * y) := by
  have hnonneg : 0 ≤ x * y := Int.mul_nonneg hx hy
  unfold sized
  split
  · next hlt => rw [times, mul32_eq (by omega) hlt]
  · next hge => rw [times, mul32, int32_eq_none (by omega)]

/-- A product of a product overflows where the whole does. -/
theorem sized_bind_times {x y : Int} (hx : 0 ≤ x) (hy : 1 ≤ y) :
    (sized x >>= fun z => times z y) = sized (x * y) := by
  by_cases hlt : x < 2 ^ 31
  · rw [sized, if_pos hlt]
    exact times_eq hx (by omega)
  · have hle : x * 1 ≤ x * y := Int.mul_le_mul_of_nonneg_left hy hx
    rw [sized, if_neg hlt, sized, if_neg (by omega)]
    rfl

private theorem stoi_eq (hne : number ≠ []) (hint : readDigits number < 2 ^ 31) :
    stoi number = sized (readDigits number) := by
  rw [stoi, if_neg hne, if_pos hint, sized, if_pos (by omega)]

/-- A numeral with a unit is its size, or the product overflows. -/
theorem toByte_eq (hne : number ≠ []) (hdigits : ∀ c ∈ number, IsDigit c)
    (hint : readDigits number < 2 ^ 31) (u : SizeUnit) :
    toByte (number ++ u.text) = sized (readDigits number * u.factor) := by
  have hn : (0 : Int) ≤ readDigits number := Int.natCast_nonneg _
  have hstoi := stoi_eq hne hint
  unfold toByte
  rw [foldl_collect_size hdigits]
  cases u with
  | B =>
    rw [SizeUnit.factor, Int.mul_one]
    exact hstoi
  | KB =>
    change (stoi number >>= fun x => times x 1024) = _
    rw [hstoi, sized_bind_times hn (by decide), SizeUnit.factor]
  | MB =>
    change (stoi number >>= fun x => times x 1024 >>= fun x => times x 1024) = _
    rw [hstoi, ← bind_assoc, sized_bind_times hn (by decide),
      sized_bind_times (Int.mul_nonneg hn (by decide)) (by decide), SizeUnit.factor, Int.mul_assoc]
  | GB =>
    change (stoi number >>= fun x => times x 1024 >>= fun x => times x 1024 >>=
      fun x => times x 1024) = _
    rw [hstoi, ← bind_assoc, sized_bind_times hn (by decide), ← bind_assoc,
      sized_bind_times (Int.mul_nonneg hn (by decide)) (by decide),
      sized_bind_times (Int.mul_nonneg (Int.mul_nonneg hn (by decide)) (by decide)) (by decide),
      SizeUnit.factor, Int.mul_assoc, Int.mul_assoc]
    rfl

private theorem sized_eq_ok_iff (x : Int) : sized x = .ok x ↔ x < 2 ^ 31 := by
  unfold sized
  split
  · next h => exact iff_of_true rfl h
  · next h => exact iff_of_false (fun heq => by cases heq) h

end Sizes

/-- For every numeral that fits in `int` and every unit: `toByte` returns the number of bytes, and
the log file of a configuration with this text has it for its roll size, exactly when the number of
bytes fits in `int`. -/
theorem roll_size_is_configured_iff {number : Text} (hne : number ≠ [])
    (hdigits : ∀ c ∈ number, IsDigit c) (hint : readDigits number < 2 ^ 31) (u : SizeUnit)
    {config : Map} (hconfig : config.find ⟨bytesOf "logRollSie"⟩ = some (number ++ u.text)) :
    (toByte (number ++ u.text) = .ok (readDigits number * u.factor) ∧
      ∃ rolling, outputRolling config = .ok rolling ∧
        rolling.rollSize = readDigits number * u.factor ∧ 0 ≤ rolling.rollSize) ↔
    readDigits number * u.factor < 2 ^ 31 := by
  have hsize := toByte_eq hne hdigits hint u
  rw [outputRolling, hconfig, Option.getD_some, hsize]
  constructor
  · rintro ⟨hok, -⟩
    exact (sized_eq_ok_iff _).mp hok
  · intro hlt
    have hok := (sized_eq_ok_iff _).mpr hlt
    have hnonneg : 0 ≤ readDigits number * u.factor :=
      Int.mul_nonneg (Int.natCast_nonneg _) (by cases u <;> decide)
    rw [hok]
    exact ⟨rfl, _, rfl, rfl, hnonneg⟩

/-- The size of `conf/server.conf:23`. -/
theorem roll_size_of_one_gigabyte :
    toByte (bytesOf "1" ++ bytesOf "GB") = .ok 1073741824 ∧
      ∃ rolling, outputRolling (OrderedMap.empty.insert ⟨bytesOf "logRollSie"⟩
          (bytesOf "1" ++ bytesOf "GB")) = .ok rolling ∧
        rolling.rollSize = 1073741824 ∧ 0 ≤ rolling.rollSize := by
  have hdigits : ∀ c ∈ bytesOf "1", IsDigit c := by
    intro c hc
    rw [List.mem_singleton.mp (show c ∈ [49] from hc)]
    decide
  have hiff := @roll_size_is_configured_iff (bytesOf "1") (by decide) hdigits (by decide) .GB
    (OrderedMap.empty.insert ⟨bytesOf "logRollSie"⟩ (bytesOf "1" ++ bytesOf "GB")) (by decide)
  exact hiff.mpr (by decide)

/-! ### A negative size -/

/-- With a negative size every append rolls the file. -/
theorem appendUnlocked_of_negative {cfg : Rolling} (h : cfg.rollSize < 0) (clock : Nat → Int)
    {s : LogFile} {opened : Int} {file : AppendFile} (hfile : s.file = some (opened, file))
    (call : LogFile.Append) :
    s.appendUnlocked cfg clock call = some (LogFile.rollFile clock
      { s with file := some (opened, file.append call.accepts call.logline) }) := by
  rw [LogFile.appendUnlocked, hfile]
  exact if_pos (by omega)

/-- Two gigabytes overflow. A product that wraps is negative, and every append rolls the file. -/
theorem roll_size_of_two_gigabytes :
    toByte (bytesOf "2GB") = .error .overflow ∧
      wrap 32 (2 * 1024 * 1024 * 1024) = -2147483648 ∧
      ∀ (cfg : Rolling), cfg.rollSize = wrap 32 (2 * 1024 * 1024 * 1024) →
        ∀ (clock : Nat → Int) (s : LogFile) (opened : Int) (file : AppendFile)
          (call : LogFile.Append), s.file = some (opened, file) →
        s.appendUnlocked cfg clock call = some (LogFile.rollFile clock
          { s with file := some (opened, file.append call.accepts call.logline) }) := by
  have hwrap : wrap 32 (2 * 1024 * 1024 * 1024) = -2147483648 := by decide
  refine ⟨by decide, hwrap, ?_⟩
  intro cfg hsize clock s opened file call hfile
  rw [hwrap] at hsize
  exact appendUnlocked_of_negative (by omega) clock hfile call

end IMServer.Config
