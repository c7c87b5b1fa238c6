import Mathlib.Algebra.Order.Ring.Int

/-!
# Signed 32-bit arithmetic that must not overflow

Library: the operators of `int` in a language in which an unrepresentable result is undefined.
Division truncates towards zero and a divisor of zero is undefined too. A computation written with
these operators is `some` exactly when all its intermediate results are representable.
-/

namespace IMServer.Base

/-- The result of an operation on `int`; `none` when it is not representable. -/
def int32 (x : Int) : Option Int := if -2 ^ 31 ≤ x ∧ x < 2 ^ 31 then some x else none

def add32 (x y : Int) : Option Int := int32 (x + y)

def sub32 (x y : Int) : Option Int := int32 (x - y)

def mul32 (x y : Int) : Option Int := int32 (x * y)

def div32 (x y : Int) : Option Int := if y = 0 then none else int32 (x.tdiv y)

/-- The remainder is defined where the quotient is. -/
def mod32 (x y : Int) : Option Int := (div32 x y).map fun _ => x.tmod y

section Representable

variable {x y : Int}

/-- A number that fits is kept. -/
theorem int32_eq (hlo : -2 ^ 31 ≤ x) (hhi : x < 2 ^ 31) : int32 x = some x := by
  rw [int32, if_pos ⟨hlo, hhi⟩]

/-- A number past the last `int` overflows. -/
theorem int32_eq_none (h : 2 ^ 31 ≤ x) : int32 x = none := by
  rw [int32, if_neg (by omega)]

/-- A sum that fits. -/
theorem add32_eq (hlo : -2 ^ 31 ≤ x + y) (hhi : x + y < 2 ^ 31) : add32 x y = some (x + y) :=
  int32_eq hlo hhi

/-- A difference that fits. -/
theorem sub32_eq (hlo : -2 ^ 31 ≤ x - y) (hhi : x - y < 2 ^ 31) : sub32 x y = some (x - y) :=
  int32_eq hlo hhi

/-- A product that fits. -/
theorem mul32_eq (hlo : -2 ^ 31 ≤ x * y) (hhi : x * y < 2 ^ 31) : mul32 x y = some (x * y) :=
  int32_eq hlo hhi

/-- A quotient of numbers that are not negative is representable. -/
theorem div32_eq (h0 : 0 ≤ x) (hx : x < 2 ^ 31) (hy : 0 < y) : div32 x y = some (x / y) := by
  have hq : x / y ≤ x := Int.ediv_le_self y h0
  have hq0 : 0 ≤ x / y := Int.ediv_nonneg h0 hy.le
  rw [div32, if_neg hy.ne', Int.tdiv_eq_ediv_of_nonneg h0]
  exact int32_eq (by omega) (by omega)

/-- A remainder by a positive number. -/
theorem mod32_eq (hlo : -2 ^ 31 ≤ x) (hhi : x < 2 ^ 31) (hy : 0 < y) :
    mod32 x y = some (x.tmod y) := by
  have hq := Int.natAbs_tdiv_le_natAbs x y
  have hneg : x ≤ 0 → x.tdiv y ≤ 0 := by
    intro hx
    have hnonneg := Int.tdiv_nonneg (show 0 ≤ -x by omega) hy.le
    rw [Int.neg_tdiv] at hnonneg
    omega
  rw [mod32, div32, if_neg hy.ne', int32_eq (by omega) (by omega), Option.map_some]

end Representable

end IMServer.Base
