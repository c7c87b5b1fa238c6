import IMServer.Base.Positional

/-!
# Decimal numerals

Library: the bytes of ASCII text, the canonical decimal numeral of a natural number and of an
integer, and the number that a run of digits denotes.
-/

namespace IMServer.Base

/-- The bytes of an ASCII text. -/
def bytesOf (s : String) : List UInt8 := s.toList.map fun c => UInt8.ofNat c.toNat

/-- The digit of a number below ten. -/
def digitByte (d : Nat) : UInt8 := UInt8.ofNat (48 + d)

def IsDigit (b : UInt8) : Prop := 48 ≤ b.toNat ∧ b.toNat < 58
  deriving Decidable

/-- The canonical decimal numeral. -/
def numeral (n : Nat) : List UInt8 :=
  if n = 0 then [48] else (Nat.digits 10 n).reverse.map digitByte

/-- The number that digits denote, most significant digit first. -/
def readDigits (bs : List UInt8) : Nat := bs.foldl (fun acc b => acc * 10 + (b.toNat - 48)) 0

/-- Digits are bytes from 48 on. -/
theorem toNat_digitByte {d : Nat} (h : d < 10) : (digitByte d).toNat = 48 + d := by
  rw [digitByte, UInt8.toNat_ofNat']
  omega

/-- A numeral consists of digits. -/
theorem isDigit_of_mem_numeral {n : Nat} {b : UInt8} (h : b ∈ numeral n) : IsDigit b := by
  unfold numeral at h
  split at h
  · rw [List.mem_singleton.mp h]
    decide
  · obtain ⟨d, hd, rfl⟩ := List.mem_map.mp h
    have hlt : d < 10 := Nat.digits_lt_base (by decide) (List.mem_reverse.mp hd)
    rw [IsDigit, toNat_digitByte hlt]
    omega

/-- A numeral has a digit. -/
theorem numeral_ne_nil (n : Nat) : numeral n ≠ [] := by
  unfold numeral
  split
  · exact List.cons_ne_nil _ _
  · next hn => simpa [Nat.digits_ne_nil_iff_ne_zero] using hn

/-- Numerals are written to base ten. -/
theorem numeral_eq_positional (n : Nat) : numeral n = positional 10 digitByte n := rfl

/-- The value of a digit. -/
theorem digitByte_sub {d : Nat} (h : d < 10) : (digitByte d).toNat - 48 = d := by
  rw [toNat_digitByte h, Nat.add_sub_cancel_left]

/-- A numeral is read back. -/
theorem readDigits_numeral (n : Nat) : readDigits (numeral n) = n :=
  readPositional_positional (fun _ hd => digitByte_sub hd) (by decide) n

/-- Only the numeral of zero starts with a zero. -/
theorem head_numeral_ne_zero {n : Nat} (h : n ≠ 0) : (numeral n).head? ≠ some 48 :=
  @head_positional 10 digitByte (fun b => b.toNat - 48) (fun _ hd => digitByte_sub hd) (by decide)
    n h

/-! ### Integers -/

/-- The canonical decimal numeral of an integer. -/
def signedNumeral (v : Int) : List UInt8 :=
  (if v < 0 then bytesOf "-" else []) ++ numeral v.natAbs

/-- The integer that digits denote, with a sign before them or not. -/
def readSigned (bs : List UInt8) : Int :=
  if bs.head? = some 45 then -(readDigits bs.tail : Int) else readDigits bs

/-- No digit is a sign. -/
theorem head_numeral_ne_sign (n : Nat) : (numeral n).head? ≠ some 45 := by
  intro h
  have hdigit := isDigit_of_mem_numeral (List.mem_of_head? h)
  exact absurd hdigit (by decide)

/-- The sign stands exactly before the numerals of negative numbers. -/
theorem head_signedNumeral_iff (v : Int) : (signedNumeral v).head? = some 45 ↔ v < 0 := by
  constructor
  · intro h
    by_contra hv
    rw [signedNumeral, if_neg hv, List.nil_append] at h
    exact head_numeral_ne_sign v.natAbs h
  · intro hv
    rw [signedNumeral, if_pos hv]
    rfl

/-- A numeral is read back. -/
theorem readSigned_signedNumeral (v : Int) : readSigned (signedNumeral v) = v := by
  by_cases hv : v < 0
  · have htail : (signedNumeral v).tail = numeral v.natAbs := by
      rw [signedNumeral, if_pos hv]
      rfl
    rw [readSigned, if_pos ((head_signedNumeral_iff v).mpr hv), htail, readDigits_numeral]
    omega
  · rw [readSigned, if_neg (mt (head_signedNumeral_iff v).mp hv), signedNumeral, if_neg hv,
      List.nil_append, readDigits_numeral]
    omega

end IMServer.Base
