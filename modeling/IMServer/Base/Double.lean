import Mathlib.Data.Nat.Log
import Mathlib.Tactic.Linarith
import Mathlib.Tactic.Ring

/-!
# Double precision

Library: the arithmetic of binary64 on its bit patterns. A finite number is a whole number of units
of `2 ^ -1074`, the least subnormal; an operation takes the exact result, a fraction of units, and
rounds it once, to nearest and ties to even. The bound on that rounding is the only fact about it
that the laws of the operations use.
-/

namespace IMServer.Base

/-! ### Rounding a quotient to a whole number -/

/-- The whole number next to `p / d`, ties to even. -/
def halfEven (p d : Nat) : Nat :=
  if 2 * (p % d) < d then p / d
  else if d < 2 * (p % d) then p / d + 1
  else p / d + p / d % 2

/-- Rounding moves a quotient by at most one half. -/
theorem halfEven_bounds (p : Nat) {d : Nat} (hd : 0 < d) :
    2 * (halfEven p d * d) ≤ 2 * p + d ∧ 2 * p ≤ 2 * (halfEven p d * d) + d := by
  have hdiv := Nat.div_add_mod' p d
  have hlt := Nat.mod_lt p hd
  have hsucc : (p / d + 1) * d = p / d * d + d := Nat.succ_mul _ _
  unfold halfEven
  split
  · omega
  split
  · omega
  · obtain hparity | hparity := Nat.mod_two_eq_zero_or_one (p / d)
    · rw [hparity, Nat.add_zero]
      omega
    · rw [hparity]
      omega

/-- A quotient is rounded to the whole number that it is nearest to. -/
theorem halfEven_eq {p d m : Nat} (hlow : 2 * (m * d) < 2 * p + d)
    (hhigh : 2 * p < 2 * (m * d) + d) : halfEven p d = m := by
  have hd : 0 < d := by omega
  obtain ⟨hup, hdown⟩ := halfEven_bounds p hd
  -- both are within a half of the quotient, so their difference is less than one
  refine Nat.le_antisymm (Nat.le_of_lt_succ ?_) (Nat.le_of_lt_succ ?_)
  · refine Nat.lt_of_mul_lt_mul_right (a := d) ?_
    rw [Nat.succ_mul]
    omega
  · refine Nat.lt_of_mul_lt_mul_right (a := d) ?_
    rw [Nat.succ_mul]
    omega

/-- Rounding keeps a lower bound that is a whole number. -/
theorem le_halfEven {p d m : Nat} (hd : 0 < d) (h : m * d ≤ p) : m ≤ halfEven p d := by
  have hdown := (halfEven_bounds p hd).2
  refine Nat.le_of_lt_succ (Nat.lt_of_mul_lt_mul_right (a := d) ?_)
  rw [Nat.succ_mul]
  omega

/-- Rounding keeps an upper bound that is a whole number. -/
theorem halfEven_le {p d m : Nat} (hd : 0 < d) (h : p ≤ m * d) : halfEven p d ≤ m := by
  have hup := (halfEven_bounds p hd).1
  refine Nat.le_of_lt_succ (Nat.lt_of_mul_lt_mul_right (a := d) ?_)
  rw [Nat.succ_mul]
  omega

namespace Double

/-! ### Bit patterns -/

/-- The exponent of the 2^27th part of `1.0`. -/
def slackBits : Nat := 1047

/-- The 2^27th part of `1.0`, in units. -/
def slack : Nat := 2 ^ slackBits

/-- The units in `1.0`: `2 ^ 1074`. -/
def one : Nat := 2 ^ 27 * slack

/-- The sign bit. -/
def signBit (neg : Bool) : Nat := if neg then 2 ^ 63 else 0

/-- The pattern of the positive infinity. -/
def infinity : Nat := 2047 * 2 ^ 52

/-- What an operation without a result returns on x86. -/
def defaultNaN : Nat := 0xFFF8000000000000

/-- The units of a finite pattern without its sign. -/
def magnitude (bits : Nat) : Nat :=
  if bits / 2 ^ 52 = 0 then bits % 2 ^ 52
  else (2 ^ 52 + bits % 2 ^ 52) * 2 ^ (bits / 2 ^ 52 - 1)

/-- What a pattern stands for. -/
inductive Value where
  /-- Not a number, with its pattern. -/
  | nan (bits : Nat)
  | inf (neg : Bool)
  | finite (neg : Bool) (units : Nat)
  deriving DecidableEq, Repr

/-- The number of a pattern of 64 bits. -/
def value (bits : Nat) : Value :=
  if bits % 2 ^ 63 < infinity then .finite (decide (2 ^ 63 ≤ bits)) (magnitude (bits % 2 ^ 63))
  else if bits % 2 ^ 63 = infinity then .inf (decide (2 ^ 63 ≤ bits))
  else .nan bits

/-- The signed units of a finite number. -/
def signed (neg : Bool) (units : Nat) : Int := if neg then -units else units

/-- Some finite number, in units. -/
def units (bits : Nat) : Option Int :=
  match value bits with
  | .finite neg m => some (signed neg m)
  | _ => none

/-! ### Rounding -/

/-- The exponent with which a quotient of units has 53 binary digits. -/
def exponent (p q : Nat) : Nat := Nat.log2 (p / q) - 52

/-- The pattern next to `p / q` units, ties to even; an infinity beyond the last number. -/
def round (p q : Nat) : Nat :=
  min (exponent p q * 2 ^ 52 + halfEven p (q * 2 ^ exponent p q)) infinity

private theorem magnitude_add {e m : Nat} (hm : m ≤ 2 ^ 53) (he : e = 0 ∨ 2 ^ 52 ≤ m) :
    magnitude (e * 2 ^ 52 + m) = m * 2 ^ e := by
  have hpow : (2 : Nat) ^ (e + 1) = 2 * 2 ^ e := Nat.pow_succ'
  rcases Nat.lt_or_ge m (2 ^ 52) with hlt | hge
  · -- a subnormal number
    obtain rfl : e = 0 := he.resolve_right (by omega)
    rw [magnitude, if_pos (by omega), Nat.zero_mul, Nat.zero_add, Nat.mod_eq_of_lt hlt,
      Nat.pow_zero, Nat.mul_one]
  rcases Nat.lt_or_ge m (2 ^ 53) with hlt | hcarry
  · have hdiv : (e * 2 ^ 52 + m) / 2 ^ 52 = e + 1 := by omega
    have hmod : (e * 2 ^ 52 + m) % 2 ^ 52 = m - 2 ^ 52 := by omega
    rw [magnitude, if_neg (by omega), hdiv, hmod, Nat.add_sub_cancel, Nat.add_sub_cancel' hge]
  · -- the rounding has carried into the next exponent
    obtain rfl : m = 2 ^ 53 := by omega
    have hdiv : (e * 2 ^ 52 + 2 ^ 53) / 2 ^ 52 = e + 2 := by omega
    have hmod : (e * 2 ^ 52 + 2 ^ 53) % 2 ^ 52 = 0 := by omega
    rw [magnitude, if_neg (by omega), hdiv, hmod, show e + 2 - 1 = e + 1 from rfl, hpow]
    ring

section Round

variable {p q : Nat} (hq : 0 < q)

include hq

private theorem lt_of_exponent : p < 2 ^ 53 * (q * 2 ^ exponent p q) := by
  have hlog : p / q < 2 ^ (Nat.log2 (p / q) + 1) := Nat.lt_log2_self
  have hle : 2 ^ (Nat.log2 (p / q) + 1) ≤ 2 ^ (53 + exponent p q) := by
    apply Nat.pow_le_pow_right (by decide)
    unfold exponent
    omega
  have hlt : p < q * 2 ^ (53 + exponent p q) := by
    rw [Nat.mul_comm]
    exact (Nat.div_lt_iff_lt_mul hq).mp (Nat.lt_of_lt_of_le hlog hle)
  rw [Nat.pow_add] at hlt
  linarith

private theorem le_of_exponent (he : exponent p q ≠ 0) : 2 ^ 52 * (q * 2 ^ exponent p q) ≤ p := by
  have hne : p / q ≠ 0 := by
    intro h0
    rw [exponent, h0] at he
    exact he rfl
  have hlog : 2 ^ Nat.log2 (p / q) ≤ p / q := Nat.log2_self_le hne
  have heq : Nat.log2 (p / q) = 52 + exponent p q := by
    unfold exponent at he ⊢
    omega
  rw [heq, Nat.pow_add] at hlog
  have := (Nat.le_div_iff_mul_le hq).mp hlog
  linarith

/-- The rounded digits fit, and are normal unless the exponent is the least. -/
theorem halfEven_digits : halfEven p (q * 2 ^ exponent p q) ≤ 2 ^ 53 ∧
    (exponent p q = 0 ∨ 2 ^ 52 ≤ halfEven p (q * 2 ^ exponent p q)) := by
  have hd : 0 < q * 2 ^ exponent p q := Nat.mul_pos hq (Nat.two_pow_pos _)
  refine ⟨halfEven_le hd (lt_of_exponent hq).le, ?_⟩
  by_cases he : exponent p q = 0
  · exact .inl he
  · exact .inr (le_halfEven hd (le_of_exponent hq he))

/-- The units that a quotient in range is rounded to: they differ from it by at most the 2^53rd part
of it, or half a unit. -/
theorem round_bounds {k : Nat} (hk : k ≤ 2000) (hp : p < 2 ^ k * q) :
    round p q < infinity ∧
      2 ^ 53 * (magnitude (round p q) * q) ≤ 2 ^ 53 * p + p + 2 ^ 52 * q ∧
      2 ^ 53 * p ≤ 2 ^ 53 * (magnitude (round p q) * q) + p + 2 ^ 52 * q := by
  obtain ⟨hm, he⟩ := halfEven_digits (p := p) hq
  have hexp : exponent p q ≤ 2000 := by
    by_cases h0 : exponent p q = 0
    · omega
    have hlow := le_of_exponent hq h0
    by_contra hlt
    have hpow : 2 ^ k ≤ 2 ^ exponent p q := Nat.pow_le_pow_right (by decide) (by omega)
    have hmul : 2 ^ k * q ≤ 2 ^ exponent p q * q := Nat.mul_le_mul_right q hpow
    have hmore : 2 ^ exponent p q * q ≤ 2 ^ 52 * (q * 2 ^ exponent p q) := by
      rw [Nat.mul_comm q]
      exact Nat.le_mul_of_pos_left _ (by decide)
    omega
  have hround : round p q = exponent p q * 2 ^ 52 + halfEven p (q * 2 ^ exponent p q) := by
    rw [round, Nat.min_eq_left]
    unfold infinity
    omega
  have hd : 0 < q * 2 ^ exponent p q := Nat.mul_pos hq (Nat.two_pow_pos _)
  obtain ⟨hup, hdown⟩ := halfEven_bounds p hd
  have hval : magnitude (round p q) * q =
      halfEven p (q * 2 ^ exponent p q) * (q * 2 ^ exponent p q) := by
    rw [hround, magnitude_add hm he]
    ring
  -- half a step of the exponent is a 2^53rd part of the quotient, or half a unit
  have hstep : 2 ^ 52 * (q * 2 ^ exponent p q) ≤ p + 2 ^ 52 * q := by
    by_cases h0 : exponent p q = 0
    · rw [h0, Nat.pow_zero, Nat.mul_one]
      omega
    · have := le_of_exponent hq h0
      omega
  refine ⟨?_, ?_, ?_⟩
  · rw [hround]
    unfold infinity
    omega
  · rw [hval]
    omega
  · rw [hval]
    omega

end Round

/-- The pattern of a signed quotient. -/
def ofQuotient (neg : Bool) (p q : Nat) : Nat := signBit neg + round p q

/-- What a rounded quotient stands for. -/
theorem value_ofQuotient {neg : Bool} {p q : Nat} (h : round p q < infinity) :
    value (ofQuotient neg p q) = .finite neg (magnitude (round p q)) := by
  have hlt : round p q < 2 ^ 63 := by
    unfold infinity at h
    omega
  cases neg with
  | false =>
    have hbits : ofQuotient false p q = round p q := Nat.zero_add _
    rw [hbits, value, Nat.mod_eq_of_lt hlt, if_pos h, decide_eq_false (Nat.not_le.mpr hlt)]
  | true =>
    have hbits : ofQuotient true p q = 2 ^ 63 + round p q := rfl
    rw [hbits, value, Nat.add_mod_left, Nat.mod_eq_of_lt hlt, if_pos h,
      decide_eq_true (Nat.le_add_right _ _)]

/-- A rounded quotient in units of the smallest double. -/
theorem units_ofQuotient {neg : Bool} {p q : Nat} (h : round p q < infinity) :
    units (ofQuotient neg p q) = some (signed neg (magnitude (round p q))) := by
  rw [units, value_ofQuotient h]

/-! ### Operations -/

/-- An operand that is not a number, as an operation passes it on. -/
def quiet (bits : Nat) : Nat := if bits / 2 ^ 51 % 2 = 0 then bits + 2 ^ 51 else bits

/-- `x - y`. -/
def sub (x y : Nat) : Nat :=
  match value x, value y with
  | .nan a, _ => quiet a
  | _, .nan b => quiet b
  | .inf s, .inf t => if s = t then defaultNaN else signBit s + infinity
  | .inf s, .finite _ _ => signBit s + infinity
  | .finite _ _, .inf t => signBit (!t) + infinity
  | .finite s m, .finite t n =>
    let d := signed s m - signed t n
    ofQuotient (if d = 0 then s && !t else decide (d < 0)) d.natAbs 1

/-- `x * k` for a whole number. -/
def scale (x k : Nat) : Nat :=
  match value x with
  | .nan a => quiet a
  | .inf s => signBit s + infinity
  | .finite s m => ofQuotient s (m * k) 1

/-- `g / q` of two whole numbers that are represented exactly. -/
def ratio (g : Int) (q : Nat) : Nat := ofQuotient (decide (g < 0)) (g.natAbs * one) q

/-- `static_cast<int>(x)`; a number out of range, or none, gives the least `int` on x86. -/
def toInt (x : Nat) : Int :=
  match value x with
  | .finite s m =>
    let n := signed s (m / one)
    if -2 ^ 31 ≤ n ∧ n < 2 ^ 31 then n else -2 ^ 31
  | _ => -2 ^ 31

/-- `x < y`. -/
def lt (x y : Nat) : Bool :=
  match value x, value y with
  | .finite s m, .finite t n => decide (signed s m < signed t n)
  | .inf s, .finite _ _ => s
  | .finite _ _, .inf t => !t
  | .inf s, .inf t => s && !t
  | _, _ => false

/-- What `%lf` prints, in millionths; `none` when it prints no number. -/
def printed (x : Nat) : Option Int :=
  match value x with
  | .finite s m => some (signed s (halfEven (m * 1000000) one))
  | _ => none

/-- The whole number of hundredths that a number is nearest to. -/
def hundredths (x : Nat) : Int :=
  match value x with
  | .finite s m => signed s (halfEven (m * 100) one)
  | _ => 0

end Double

end IMServer.Base
