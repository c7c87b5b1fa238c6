import IMServer.Base.Double

/-!
# Hundredths in double precision

Library: amounts of at most `2 ^ 24` hundredths, held as the doubles next to them. A quotient by 100
misses its amount by one slack at most, the 2^27th part of a hundredth; a difference adds up the
slacks of its terms and one more. While the slacks are few, the hundredths of a number and the
digits that are printed of it are exact. Its product with 100, cut to a whole number, may be one
less.
-/

namespace IMServer.Base

namespace Double

private theorem one_pos : 0 < one := Nat.mul_pos (by decide) (Nat.two_pow_pos _)

private theorem slack_large : 2 ^ 20 ≤ slack := Nat.pow_le_pow_right (by decide) (by decide)

/-- The double stands for `c` hundredths, and misses them by at most `k` slacks. -/
structure Near (x : Nat) (c : Int) (k : Nat) : Prop where
  small : -2 ^ 24 ≤ c ∧ c ≤ 2 ^ 24
  close : ∃ X, units x = some X ∧ c * one - k * slack ≤ 100 * X ∧ 100 * X ≤ c * one + k * slack

/-- More slacks allow more. -/
theorem Near.mono {x : Nat} {c : Int} {k k' : Nat} (h : Near x c k) (hk : k ≤ k') :
    Near x c k' := by
  obtain ⟨hsmall, X, hX, hlow, hhigh⟩ := h
  have hle : (k : Int) * slack ≤ k' * slack :=
    Int.mul_le_mul_of_nonneg_right (by omega) (Int.natCast_nonneg _)
  exact ⟨hsmall, X, hX, by omega, by omega⟩

/-- A product with a small number of hundredths is small. -/
theorem mul_one_bounds {c : Int} (hc : -2 ^ 24 ≤ c ∧ c ≤ 2 ^ 24) :
    -2 ^ 51 * (slack : Int) ≤ c * one ∧ c * one ≤ 2 ^ 51 * (slack : Int) := by
  have hslack : (0 : Int) ≤ slack := Int.natCast_nonneg _
  have hone : (one : Int) = 2 ^ 27 * slack := Int.natCast_mul _ _
  have hlow : -2 ^ 24 * (slack : Int) ≤ c * slack := Int.mul_le_mul_of_nonneg_right hc.1 hslack
  have hhigh : c * (slack : Int) ≤ 2 ^ 24 * slack := Int.mul_le_mul_of_nonneg_right hc.2 hslack
  have hmul : c * one = 2 ^ 27 * (c * slack) := by
    rw [hone]
    ring
  omega

private theorem neg_iff_mul_one (c : Int) : c < 0 ↔ c * one < 0 := by
  have hone : (0 : Int) < one := Int.natCast_pos.mpr one_pos
  constructor
  · exact fun h => Int.mul_neg_of_neg_of_pos h hone
  · intro h
    by_contra hc
    have := Int.mul_nonneg (Int.not_lt.mp hc) hone.le
    omega

/-- Nothing. -/
theorem near_zero : Near 0 0 0 := by
  refine ⟨by decide, 0, by decide, ?_, ?_⟩
  · rw [Int.zero_mul, Int.natCast_zero, Int.zero_mul]
    decide
  · rw [Int.zero_mul, Int.natCast_zero, Int.zero_mul]
    decide

/-! ### Operations -/

/-- A rounded quotient of signed units. -/
theorem units_ofQuotient_signed (neg : Bool) {d : Int} {q k : Nat} (hq : 0 < q)
    (hneg : d ≠ 0 → neg = decide (d < 0)) (hk : k ≤ 2000) (hd : d.natAbs < 2 ^ k * q) :
    ∃ R, units (ofQuotient neg d.natAbs q) = some R ∧
      2 ^ 53 * (R * q) ≤ 2 ^ 53 * d + d.natAbs + 2 ^ 52 * q ∧
      2 ^ 53 * d ≤ 2 ^ 53 * (R * q) + d.natAbs + 2 ^ 52 * q := by
  obtain ⟨hfinite, hup, hdown⟩ := round_bounds hq hk hd
  refine ⟨_, units_ofQuotient hfinite, ?_⟩
  generalize magnitude (round d.natAbs q) = M at hup hdown
  have hup' : 2 ^ 53 * ((M : Int) * q) ≤ 2 ^ 53 * d.natAbs + d.natAbs + 2 ^ 52 * q := by
    exact_mod_cast hup
  have hdown' : 2 ^ 53 * (d.natAbs : Int) ≤ 2 ^ 53 * (M * q) + d.natAbs + 2 ^ 52 * q := by
    exact_mod_cast hdown
  by_cases h0 : d = 0
  · subst h0
    cases neg with
    | false =>
      simp only [signed, Bool.false_eq_true, if_false]
      omega
    | true =>
      simp only [signed, if_true, Int.neg_mul]
      omega
  · rw [hneg h0]
    unfold signed
    by_cases hlt : d < 0
    · rw [decide_eq_true hlt, if_pos rfl, Int.neg_mul]
      omega
    · rw [decide_eq_false hlt, if_neg Bool.false_ne_true]
      omega

/-- The double next to a number of hundredths. -/
theorem near_ratio {c : Int} (hc : -2 ^ 24 ≤ c ∧ c ≤ 2 ^ 24) : Near (ratio c 100) c 1 := by
  obtain ⟨hlow, hhigh⟩ := mul_one_bounds hc
  have hslack := slack_large
  have habs : (c * one).natAbs = c.natAbs * one := by rw [Int.natAbs_mul, Int.natAbs_natCast]
  have hpow : 2 ^ (53 + slackBits) = 2 ^ 53 * slack := by rw [Nat.pow_add, slack]
  obtain ⟨R, hR, hup, hdown⟩ := units_ofQuotient_signed (d := c * one) (q := 100)
    (k := 53 + slackBits) (decide (c < 0)) (by decide)
    (fun _ => decide_eq_decide.mpr (neg_iff_mul_one c))
    (by decide) (by omega)
  refine ⟨hc, R, ?_, ?_, ?_⟩
  · rw [← hR, habs]
    rfl
  · omega
  · omega

/-- The difference of two finite numbers. -/
theorem units_sub {x y : Nat} {X Y : Int} (hx : units x = some X) (hy : units y = some Y) {k : Nat}
    (hk : k ≤ 2000) (hd : (X - Y).natAbs < 2 ^ k) :
    ∃ D, units (sub x y) = some D ∧ 2 ^ 53 * D ≤ 2 ^ 53 * (X - Y) + (X - Y).natAbs + 2 ^ 52 ∧
      2 ^ 53 * (X - Y) ≤ 2 ^ 53 * D + (X - Y).natAbs + 2 ^ 52 := by
  unfold units at hx hy
  unfold sub
  cases hvx : value x with
  | nan b => rw [hvx] at hx; cases hx
  | inf b => rw [hvx] at hx; cases hx
  | finite s m =>
    cases hvy : value y with
    | nan b => rw [hvy] at hy; cases hy
    | inf b => rw [hvy] at hy; cases hy
    | finite t n =>
      rw [hvx] at hx
      rw [hvy] at hy
      cases hx
      cases hy
      obtain ⟨D, hD, hup, hdown⟩ := units_ofQuotient_signed (q := 1)
        (if signed s m - signed t n = 0 then s && !t else decide (signed s m - signed t n < 0))
        (by decide)
        (fun h0 => if_neg h0) hk (by omega)
      refine ⟨D, hD, ?_, ?_⟩
      · push_cast at hup ⊢
        omega
      · push_cast at hdown ⊢
        omega

/-- The difference of two amounts. -/
theorem Near.sub {x y : Nat} {c g : Int} {k : Nat} (hx : Near x c k) (hy : Near y g 1)
    (hk : k ≤ 2 ^ 13) (hdiff : -2 ^ 24 ≤ c - g ∧ c - g ≤ 2 ^ 24) :
    Near (sub x y) (c - g) (k + 2) := by
  obtain ⟨-, X, hX, hXlow, hXhigh⟩ := hx
  obtain ⟨-, Y, hY, hYlow, hYhigh⟩ := hy
  obtain ⟨hlow, hhigh⟩ := mul_one_bounds hdiff
  have hslack := slack_large
  have hkslack : (k : Int) * slack ≤ 2 ^ 13 * slack :=
    Int.mul_le_mul_of_nonneg_right (by omega) (Int.natCast_nonneg _)
  have hmul : (c - g) * one = c * one - g * one := Int.sub_mul _ _ _
  have hsum : ((k + 2 : Nat) : Int) * slack = k * slack + 2 * slack := by
    push_cast
    ring
  have hpow : 2 ^ (53 + slackBits) = 2 ^ 53 * slack := by rw [Nat.pow_add, slack]
  obtain ⟨D, hD, hup, hdown⟩ := units_sub hX hY (k := 53 + slackBits) (by decide) (by omega)
  refine ⟨hdiff, D, hD, ?_, ?_⟩
  · rw [hsum]
    omega
  · rw [hsum]
    omega

/-! ### Reading amounts -/

/-- A number of units is rounded to the whole number that it is near to, sign included. -/
theorem signed_halfEven {s : Bool} {m f : Nat} {z : Int}
    (hlow : 2 * (z * one) < 2 * (f * signed s m) + one)
    (hhigh : 2 * (f * signed s m) < 2 * (z * one) + one) :
    signed s (halfEven (m * f) one) = z := by
  have hone : (0 : Int) < one := Int.natCast_pos.mpr one_pos
  -- the sign of the number is the sign of the whole number, unless that is 0
  have hnat : ∀ n : Nat, 2 * ((n : Int) * one) < 2 * ((f : Int) * m) + one →
      2 * ((f : Int) * m) < 2 * (n * one) + one → halfEven (m * f) one = n := by
    intro n hl hh
    refine halfEven_eq ?_ ?_
    · rw [Nat.mul_comm m]
      exact_mod_cast hl
    · rw [Nat.mul_comm m]
      exact_mod_cast hh
  have hpos : ∀ z : Int, 2 * ((f : Int) * m) < 2 * (z * one) + one → 0 ≤ z := by
    intro z hz
    by_contra hneg
    have hle : z * one ≤ -1 * one := Int.mul_le_mul_of_nonneg_right (by omega) hone.le
    have hprod : 0 ≤ (f : Int) * m := Int.mul_nonneg (Int.natCast_nonneg _) (Int.natCast_nonneg _)
    omega
  cases s with
  | false =>
    simp only [signed, Bool.false_eq_true, if_false] at hlow hhigh ⊢
    obtain ⟨n, rfl⟩ := Int.eq_ofNat_of_zero_le (hpos z hhigh)
    rw [hnat n hlow hhigh]
  | true =>
    simp only [signed, if_true, Int.mul_neg] at hlow hhigh ⊢
    have hz : 0 ≤ -z := hpos (-z) (by rw [Int.neg_mul]; omega)
    obtain ⟨n, hn⟩ := Int.eq_ofNat_of_zero_le hz
    rw [show z = -(n : Int) by omega, Int.neg_mul] at hlow hhigh
    rw [hnat n (by omega) (by omega)]
    omega

section Near

variable {x : Nat} {c : Int} {k : Nat} (h : Near x c k) (hk : k ≤ 2 ^ 12 + 1)

include h hk

/-- A number near an amount is finite, and within `k` slacks of it. -/
theorem Near.finite : ∃ s m, value x = .finite s m ∧
    c * one - (2 ^ 12 + 1) * slack ≤ 100 * signed s m ∧
    100 * signed s m ≤ c * one + (2 ^ 12 + 1) * slack := by
  obtain ⟨-, X, hX, hlow, hhigh⟩ := h
  have hkslack : (k : Int) * slack ≤ (2 ^ 12 + 1) * slack :=
    Int.mul_le_mul_of_nonneg_right (by omega) (Int.natCast_nonneg _)
  unfold units at hX
  split at hX
  · next s m hv =>
    cases hX
    exact ⟨s, m, hv, by omega, by omega⟩
  · cases hX

/-- The hundredths of an amount are exact. -/
theorem Near.hundredths_eq : hundredths x = c := by
  obtain ⟨s, m, hv, hlow, hhigh⟩ := h.finite hk
  have hslack := slack_large
  have hone : (one : Int) = 2 ^ 27 * slack := Int.natCast_mul _ _
  rw [hundredths, hv]
  refine signed_halfEven ?_ ?_
  · push_cast
    omega
  · push_cast
    omega

/-- The digits that are printed of an amount are exact. -/
theorem Near.printed_eq : printed x = some (c * 10000) := by
  obtain ⟨s, m, hv, hlow, hhigh⟩ := h.finite hk
  have hslack := slack_large
  have hone : (one : Int) = 2 ^ 27 * slack := Int.natCast_mul _ _
  have hmul : c * 10000 * one = 10000 * (c * one) := by ring
  rw [printed, hv]
  refine congrArg some (signed_halfEven ?_ ?_)
  · rw [hmul]
    push_cast
    omega
  · rw [hmul]
    push_cast
    omega

/-- A negative amount is less than every number that is not negative. -/
theorem Near.lt_of_neg (hc : c < 0) {y n : Nat} (hy : value y = .finite false n) :
    lt x y = true := by
  obtain ⟨s, m, hv, -, hhigh⟩ := h.finite hk
  have hslack := slack_large
  have hone : (one : Int) = 2 ^ 27 * slack := Int.natCast_mul _ _
  have hle : c * one ≤ -1 * one :=
    Int.mul_le_mul_of_nonneg_right (by omega) (Int.natCast_nonneg _)
  have hneg : signed s m < 0 := by omega
  rw [lt, hv, hy]
  refine decide_eq_true (Int.lt_of_lt_of_le hneg ?_)
  simp [signed]

omit h hk in
/-- The product of a finite number in range. -/
theorem value_scale {s : Bool} {m f : Nat} (hv : value x = .finite s m) {k : Nat} (hk : k ≤ 2000)
    (hm : m * f < 2 ^ k) :
    ∃ M, value (scale x f) = .finite s M ∧ 2 ^ 53 * M ≤ 2 ^ 53 * (m * f) + m * f + 2 ^ 52 ∧
      2 ^ 53 * (m * f) ≤ 2 ^ 53 * M + m * f + 2 ^ 52 := by
  obtain ⟨hfinite, hup, hdown⟩ := round_bounds (p := m * f) (q := 1) (by decide) hk (by omega)
  refine ⟨magnitude (round (m * f) 1), ?_, by omega, by omega⟩
  rw [scale, hv]
  exact value_ofQuotient hfinite

omit h hk in
/-- Between which whole numbers a number is cut. -/
theorem div_one_bounds {M n : Nat} (hlow : n * one ≤ M + one) (hhigh : M < n * one + one) :
    M / one ≤ n ∧ n ≤ M / one + 1 := by
  constructor
  · apply Nat.le_of_lt_succ
    rw [Nat.div_lt_iff_lt_mul one_pos, Nat.succ_mul]
    exact hhigh
  · rw [← Nat.add_div_right _ one_pos, Nat.le_div_iff_mul_le one_pos]
    exact hlow

/-- The product with 100, cut to an `int`, is the amount or one less, and not negative. -/
theorem Near.toInt_scale (hc : 0 ≤ c) :
    0 ≤ toInt (scale x 100) ∧ toInt (scale x 100) ≤ c ∧ c ≤ toInt (scale x 100) + 1 := by
  obtain ⟨s, m, hv, hlow, hhigh⟩ := h.finite hk
  have hsmall := h.small
  have hslack := slack_large
  have hone : (one : Int) = 2 ^ 27 * slack := Int.natCast_mul _ _
  obtain ⟨-, hcone⟩ := mul_one_bounds hsmall
  have hpow : 2 ^ (53 + slackBits) = 2 ^ 53 * slack := by rw [Nat.pow_add, slack]
  have hpos : s = true → c = 0 := by
    rintro rfl
    by_contra hne
    have hle : 1 * (one : Int) ≤ c * one :=
      Int.mul_le_mul_of_nonneg_right (by omega) (Int.natCast_nonneg _)
    simp only [signed, if_true] at hlow
    omega
  have habs : (100 * m : Int) ≤ c * one + (2 ^ 12 + 1) * slack ∧
      c * one - (2 ^ 12 + 1) * slack ≤ 100 * m := by
    cases s with
    | false => exact ⟨hhigh, hlow⟩
    | true =>
      rw [hpos rfl] at hlow hhigh ⊢
      simp only [signed, if_true] at hlow hhigh
      omega
  obtain ⟨M, hM, hup, hdown⟩ := value_scale hv (f := 100) (k := 53 + slackBits) (by decide)
    (by omega)
  obtain ⟨n, rfl⟩ := Int.eq_ofNat_of_zero_le hc
  have hcut := div_one_bounds (M := M) (n := n) (by zify; omega) (by zify; omega)
  rw [toInt, hM]
  dsimp only
  generalize M / one = Q at hcut ⊢
  cases s with
  | false =>
    simp only [signed, Bool.false_eq_true, if_false]
    rw [if_pos (by omega)]
    omega
  | true =>
    have hzero := hpos rfl
    simp only [signed, if_true]
    rw [if_pos (by omega)]
    omega

end Near

end Double

end IMServer.Base
