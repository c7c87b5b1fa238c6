import Mathlib.Data.Nat.Digits.Lemmas

/-!
# Positional numerals

Library: the canonical numeral of a natural number in any base, whatever bytes its digits are, and
the number that a run of digits denotes. Digits come off a number from the last one on; a numeral
has no leading zero, and is read back. The upper-case hexadecimal numerals are an instance.
-/

namespace IMServer.Base

/-- The canonical numeral in a base, most significant digit first. -/
def positional (base : Nat) (digit : Nat → UInt8) (n : Nat) : List UInt8 :=
  if n = 0 then [digit 0] else (Nat.digits base n).reverse.map digit

/-- The number that digits denote, most significant digit first. -/
def readPositional (base : Nat) (value : UInt8 → Nat) (bs : List UInt8) : Nat :=
  bs.foldl (fun acc b => acc * base + value b) 0

section Positional

variable {base : Nat} {digit : Nat → UInt8} {value : UInt8 → Nat}

private theorem positional_of_ne_zero {n : Nat} (h : n ≠ 0) :
    positional base digit n = (Nat.digits base n).reverse.map digit := if_neg h

/-- The last digit comes off a numeral. -/
theorem reverse_positional (hbase : 1 < base) (n : Nat) :
    (positional base digit n).reverse =
      digit (n % base) ::
        if n / base = 0 then [] else (positional base digit (n / base)).reverse := by
  by_cases hn : n = 0
  · subst hn
    rw [Nat.zero_div, if_pos rfl, Nat.zero_mod]
    rfl
  · rw [positional_of_ne_zero hn, List.map_reverse, List.reverse_reverse,
      Nat.digits_def' hbase (Nat.pos_of_ne_zero hn), List.map_cons]
    split
    · next hq => rw [hq, Nat.digits_zero, List.map_nil]
    · next hq => rw [positional_of_ne_zero hq, List.map_reverse, List.reverse_reverse]

/-- A number below the power of the base has no more digits. -/
theorem length_positional_le (hbase : 1 < base) {n k : Nat} (h : n < base ^ (k + 1)) :
    (positional base digit n).length ≤ k + 1 := by
  by_cases hn : n = 0
  · rw [hn]
    exact Nat.le_add_left 1 k
  · rw [positional_of_ne_zero hn, List.length_map, List.length_reverse]
    exact (Nat.digits_length_le_iff hbase n).mpr h

section Read

variable (hvalue : ∀ d < base, value (digit d) = d)
include hvalue

private theorem readPositional_map_reverse {ds : List Nat} (h : ∀ d ∈ ds, d < base) :
    readPositional base value (ds.reverse.map digit) = Nat.ofDigits base ds := by
  induction ds with
  | nil => rfl
  | cons d ds ih =>
    have hd : d < base := h d List.mem_cons_self
    have htail := ih fun d' hd' => h d' (List.mem_cons_of_mem d hd')
    rw [readPositional] at htail
    rw [List.reverse_cons, List.map_append, readPositional, List.foldl_append, htail,
      List.map_singleton, List.foldl_cons, List.foldl_nil, hvalue d hd, Nat.ofDigits_cons,
      Nat.mul_comm, Nat.add_comm]

/-- A numeral is read back. -/
theorem readPositional_positional (hbase : 1 < base) (n : Nat) :
    readPositional base value (positional base digit n) = n := by
  by_cases hn : n = 0
  · rw [hn, positional, if_pos rfl, readPositional, List.foldl_cons, List.foldl_nil,
      hvalue 0 (by omega), Nat.zero_mul]
  · rw [positional_of_ne_zero hn,
      readPositional_map_reverse hvalue fun d hd => Nat.digits_lt_base hbase hd]
    exact Nat.ofDigits_digits base n

/-- Only the numeral of zero starts with the digit zero. -/
theorem head_positional (hbase : 1 < base) {n : Nat} (hn : n ≠ 0) :
    (positional base digit n).head? ≠ some (digit 0) := by
  have hne : Nat.digits base n ≠ [] := Nat.digits_ne_nil_iff_ne_zero.mpr hn
  have hlast := Nat.getLast_digit_ne_zero base hn
  have hlt := Nat.digits_lt_base hbase (List.getLast_mem hne)
  rw [positional_of_ne_zero hn, List.head?_map, List.head?_reverse,
    List.getLast?_eq_some_getLast hne, Option.map_some]
  intro heq
  have hvalues := congrArg value (Option.some_inj.mp heq)
  rw [hvalue _ hlt, hvalue 0 (by omega)] at hvalues
  exact hlast hvalues

end Read

end Positional

/-! ### Hexadecimal numerals -/

/-- The upper-case hexadecimal digit of a number below sixteen. -/
def hexByte (d : Nat) : UInt8 := UInt8.ofNat (if d < 10 then 48 + d else 55 + d)

def hexValue (b : UInt8) : Nat := if b.toNat < 58 then b.toNat - 48 else b.toNat - 55

/-- The canonical upper-case hexadecimal numeral. -/
def hexNumeral (n : Nat) : List UInt8 := positional 16 hexByte n

/-- A hexadecimal digit is read back. -/
theorem hexValue_hexByte : ∀ d < 16, hexValue (hexByte d) = d := by decide

end IMServer.Base
