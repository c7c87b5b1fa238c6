import IMServer.Base.CheckedInt
import IMServer.Business.Accounting

/-!
# The range of a random share

`getRandomMoney` (`server/src/BaseBusiness.cc:484–505`) in checked `int` arithmetic. The product of
the amount and the draw is formed before it is divided, so it overflows for amounts that fit; where
it does not, the share is between nothing and all that is left.
-/

namespace IMServer.Business

open IMServer.Base

/-- `getRandomMoney` for a draw of `RAND(1, 199)`, `BaseBusiness.cc:484–505`; `none` is an
overflow. -/
def getRandomMoney32 (remainMoney leftPacksize draw : Int) : Option Int := do
  if leftPacksize = 0 then some 0
  else if (← div32 remainMoney leftPacksize) = 1 then div32 remainMoney leftPacksize
  else if leftPacksize = 1 then some remainMoney
  else div32 (← div32 (← mul32 remainMoney draw) 100) leftPacksize

section Range

variable {rem n d g : Int}

/-- The branches for an amount and a count that are not negative. -/
theorem getRandomMoney32_eq (h0 : 0 ≤ rem) (hmax : rem < 2 ^ 31) (hn : 1 ≤ n) (hd : 1 ≤ d) :
    getRandomMoney32 rem n d =
      if rem / n = 1 then some 1
      else if n = 1 then some rem
      else if rem * d < 2 ^ 31 then some (rem * d / 100 / n)
      else none := by
  unfold getRandomMoney32
  rw [if_neg (by omega), div32_eq h0 hmax (by omega), Option.bind_eq_bind, Option.bind_some]
  by_cases h1 : rem / n = 1
  · rw [if_pos h1, if_pos h1, h1]
  rw [if_neg h1, if_neg h1]
  by_cases hl : n = 1
  · rw [if_pos hl, if_pos hl]
  rw [if_neg hl, if_neg hl]
  have hp : 0 ≤ rem * d := Int.mul_nonneg h0 (by omega)
  by_cases hprod : rem * d < 2 ^ 31
  · rw [if_pos hprod, mul32_eq (by omega) hprod, Option.bind_some,
      div32_eq hp hprod (by decide), Option.bind_some,
      div32_eq (by omega) (by omega) (by omega)]
  · rw [if_neg hprod, mul32, int32_eq_none (by omega), Option.bind_none]

/-- The share of any amount is computed without overflow, lies between nothing and the amount and
is all of it when it is the last, exactly when it is not drawn or the product with the draw fits. -/
theorem getRandomMoney_in_range_iff (h0 : 0 ≤ rem) (hmax : rem < 2 ^ 31) (hn : 1 ≤ n)
    (hd : 1 ≤ d) (hd' : d ≤ 199) :
    (∃ g, getRandomMoney32 rem n d = some g ∧ 0 ≤ g ∧ g ≤ rem ∧ (n = 1 → g = rem)) ↔
      n = 1 ∨ rem / n = 1 ∨ rem * d < 2 ^ 31 := by
  rw [getRandomMoney32_eq h0 hmax hn hd]
  by_cases h1 : rem / n = 1
  · rw [if_pos h1]
    refine iff_of_true ⟨1, rfl, by decide, ?_, ?_⟩ (.inr (.inl h1))
    · have hle := Int.ediv_le_self n h0
      omega
    · rintro rfl
      rw [Int.ediv_one] at h1
      exact h1.symm
  rw [if_neg h1]
  by_cases hl : n = 1
  · rw [if_pos hl]
    exact iff_of_true ⟨rem, rfl, h0, Int.le_refl _, fun _ => rfl⟩ (.inl hl)
  rw [if_neg hl]
  by_cases hprod : rem * d < 2 ^ 31
  · rw [if_pos hprod]
    obtain ⟨hnn, hle⟩ := draw_le h0 (show 2 ≤ n by omega) (show 0 ≤ d by omega) hd'
    exact iff_of_true ⟨_, rfl, hnn, hle, fun h => absurd h hl⟩ (.inr (.inr hprod))
  · rw [if_neg hprod]
    apply iff_of_false
    · rintro ⟨g, hg, -⟩
      cases hg
    · rintro (h | h | h)
      · exact hl h
      · exact h1 h
      · exact hprod h

/-- A hundred for two, and the highest draw. -/
theorem getRandomMoney_in_range_hundred :
    (∃ g, getRandomMoney32 10000 2 199 = some g ∧ 0 ≤ g ∧ g ≤ 10000 ∧ ((2 : Int) = 1 → g = 10000)) ↔
      (2 : Int) = 1 ∨ (10000 : Int) / 2 = 1 ∨ (10000 : Int) * 199 < 2 ^ 31 :=
  getRandomMoney_in_range_iff (by decide) (by decide) (by decide) (by decide) (by decide)

/-- Half of the largest amount for two, and a draw of two hundredths: the product is one more than
the largest `int`, and where it wraps the share is negative. -/
theorem getRandomMoney_overflows :
    getRandomMoney32 (2 ^ 30) 2 2 = none ∧ shareOf (2 ^ 30) 2 2 = -10737418 := by
  decide

end Range

end IMServer.Business
