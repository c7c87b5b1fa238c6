import IMServer.Base.Decimal

/-!
# Numbers of a fixed width

Library: decimal numerals padded to a width, and texts made of several of them. Among texts of the
same fields, the order of the bytes is the order of the numbers, first field first.
-/

namespace IMServer.Base

/-! ### Texts that begin with parts of one length -/

section Append

variable {xs ys as bs : List UInt8}

/-- Two texts whose beginnings have one length are compared by them first. -/
theorem append_lt_append_iff (h : xs.length = ys.length) :
    xs ++ as < ys ++ bs ↔ xs < ys ∨ xs = ys ∧ as < bs := by
  induction xs generalizing ys with
  | nil =>
    rw [List.eq_nil_of_length_eq_zero h.symm]
    simp
  | cons x xs ih =>
    cases ys with
    | nil => cases h
    | cons y ys =>
      rw [List.cons_append, List.cons_append, List.cons_lt_cons_iff, List.cons_lt_cons_iff,
        ih (Nat.succ.inj h), List.cons.injEq]
      tauto

private theorem append_lt_append_left_iff (xs : List UInt8) : xs ++ as < xs ++ bs ↔ as < bs := by
  rw [append_lt_append_iff rfl]
  simp [List.lt_irrefl]

end Append

/-! ### Digits -/

/-- The last digits of a number. -/
def fixedDigits : Nat → Nat → List UInt8
  | 0, _ => []
  | width + 1, n => fixedDigits width (n / 10) ++ [digitByte (n % 10)]

/-- The width is the length. -/
@[simp]
theorem length_fixedDigits (width n : Nat) : (fixedDigits width n).length = width := by
  induction width generalizing n with
  | zero => rfl
  | succ width ih => rw [fixedDigits, List.length_append, ih, List.length_singleton]

private theorem digitByte_lt_iff {d e : Nat} (hd : d < 10) (he : e < 10) :
    digitByte d < digitByte e ↔ d < e := by
  rw [UInt8.lt_iff_toNat_lt, toNat_digitByte hd, toNat_digitByte he]
  omega

private theorem digitByte_inj
    {d e : Nat} (hd : d < 10) (he : e < 10) (h : digitByte d = digitByte e) :
    d = e := by
  have := congrArg UInt8.toNat h
  rw [toNat_digitByte hd, toNat_digitByte he] at this
  omega

/-- Numbers of one width are told apart by their digits. -/
theorem fixedDigits_inj {width n m : Nat} (hn : n < 10 ^ width) (hm : m < 10 ^ width)
    (h : fixedDigits width n = fixedDigits width m) : n = m := by
  induction width generalizing n m with
  | zero =>
    rw [Nat.pow_zero] at hn hm
    omega
  | succ width ih =>
    rw [Nat.pow_succ] at hn hm
    obtain ⟨hq, hr⟩ := List.append_inj' h rfl
    have hdiv := ih (by omega) (by omega) hq
    have hmod := digitByte_inj (Nat.mod_lt _ (by decide)) (Nat.mod_lt _ (by decide))
      (List.cons.inj hr).1
    omega

/-- Digits are in the order of the numbers. -/
theorem fixedDigits_lt_iff {width n m : Nat} (hn : n < 10 ^ width) (hm : m < 10 ^ width) :
    fixedDigits width n < fixedDigits width m ↔ n < m := by
  induction width generalizing n m with
  | zero =>
    rw [Nat.pow_zero] at hn hm
    simp only [fixedDigits, List.lt_irrefl, false_iff]
    omega
  | succ width ih =>
    rw [Nat.pow_succ] at hn hm
    have hq : n / 10 < 10 ^ width := by omega
    have hq' : m / 10 < 10 ^ width := by omega
    have heq : fixedDigits width (n / 10) = fixedDigits width (m / 10) ↔ n / 10 = m / 10 :=
      ⟨fixedDigits_inj hq hq', congrArg _⟩
    rw [fixedDigits, fixedDigits, append_lt_append_iff (by simp), ih hq hq', heq,
      List.cons_lt_cons_iff, digitByte_lt_iff (Nat.mod_lt _ (by decide)) (Nat.mod_lt _ (by decide))]
    simp only [List.lt_irrefl, and_false, or_false]
    omega

/-! ### Padding -/

/-- A numeral with `fill` before it up to the width. -/
def padded (fill : UInt8) (width n : Nat) : List UInt8 :=
  List.replicate (width - (numeral n).length) fill ++ numeral n

private theorem numeral_of_lt {n : Nat} (h : n < 10) : numeral n = [digitByte n] := by
  have hr := @reverse_positional 10 digitByte (by decide) n
  rw [Nat.div_eq_of_lt h, if_pos rfl, Nat.mod_eq_of_lt h, ← numeral_eq_positional] at hr
  exact List.reverse_eq_iff.mp hr

private theorem numeral_of_ge {n : Nat} (h : 10 ≤ n) :
    numeral n = numeral (n / 10) ++ [digitByte (n % 10)] := by
  have hr := @reverse_positional 10 digitByte (by decide) n
  rw [if_neg (show n / 10 ≠ 0 by omega), ← numeral_eq_positional, ← numeral_eq_positional] at hr
  rw [List.reverse_eq_iff.mp hr, List.reverse_cons, List.reverse_reverse]

/-- A number padded with zeros. -/
theorem padded_zero {width n : Nat} (h : n < 10 ^ (width + 1)) :
    padded 48 (width + 1) n = fixedDigits (width + 1) n := by
  induction width generalizing n with
  | zero =>
    rw [Nat.zero_add, Nat.pow_one] at h
    rw [padded, numeral_of_lt h, fixedDigits, fixedDigits, Nat.mod_eq_of_lt h]
    rfl
  | succ width ih =>
    rw [Nat.pow_succ] at h
    rw [fixedDigits, ← ih (by omega)]
    by_cases hn : n < 10
    · have hzero : n / 10 = 0 := Nat.div_eq_of_lt hn
      rw [padded, padded, numeral_of_lt hn, hzero, Nat.mod_eq_of_lt hn,
        numeral_of_lt (show 0 < 10 by decide), List.length_singleton, List.length_singleton,
        Nat.add_sub_cancel, Nat.add_sub_cancel, List.replicate_succ']
      rfl
    · rw [padded, padded, numeral_of_ge (by omega), List.length_append, List.length_singleton,
        Nat.add_sub_add_right, List.append_assoc]

/-- A number that has as many digits as the width. -/
theorem numeral_of_width {width n : Nat} (h : 10 ^ width ≤ n) (h' : n < 10 ^ (width + 1)) :
    numeral n = fixedDigits (width + 1) n := by
  induction width generalizing n with
  | zero =>
    rw [Nat.zero_add, Nat.pow_one] at h'
    rw [numeral_of_lt h', fixedDigits, fixedDigits, Nat.mod_eq_of_lt h', List.nil_append]
  | succ width ih =>
    have hpos : 0 < 10 ^ width := Nat.pow_pos (by decide)
    rw [Nat.pow_succ] at h h'
    rw [numeral_of_ge (by omega), fixedDigits, ih (by omega) (by omega)]

/-- A number of the full width needs no padding. -/
theorem padded_of_width {fill : UInt8} {width n : Nat} (h : 10 ^ width ≤ n)
    (h' : n < 10 ^ (width + 1)) : padded fill (width + 1) n = fixedDigits (width + 1) n := by
  rw [padded, numeral_of_width h h', length_fixedDigits, Nat.sub_self, List.replicate_zero,
    List.nil_append]

/-! ### Texts of several fields -/

/-- The numbers one after the other, each with its width and the text behind it. -/
def fieldText : List (Nat × List UInt8) → List Nat → List UInt8
  | (width, sep) :: fields, n :: ns => fixedDigits width n ++ (sep ++ fieldText fields ns)
  | _, _ => []

/-- Every number has a field that is wide enough. -/
def FitsFields : List (Nat × List UInt8) → List Nat → Prop
  | (width, _) :: fields, n :: ns => n < 10 ^ width ∧ FitsFields fields ns
  | [], [] => True
  | _, _ => False

/-- The length of a text does not depend on the numbers. -/
theorem length_fieldText {fields : List (Nat × List UInt8)} {ns : List Nat}
    (h : FitsFields fields ns) :
    (fieldText fields ns).length = (fields.map fun f => f.1 + f.2.length).sum := by
  induction fields generalizing ns with
  | nil =>
    cases ns with
    | nil => rfl
    | cons n ns => exact h.elim
  | cons f fields ih =>
    cases ns with
    | nil => exact h.elim
    | cons n ns =>
      rw [fieldText, List.length_append, List.length_append, length_fixedDigits, ih h.2,
        List.map_cons, List.sum_cons, Nat.add_assoc]

/-- Texts are in the order of their numbers. -/
theorem fieldText_lt_iff {fields : List (Nat × List UInt8)} {ns ms : List Nat}
    (hn : FitsFields fields ns) (hm : FitsFields fields ms) :
    fieldText fields ns < fieldText fields ms ↔ ns < ms := by
  induction fields generalizing ns ms with
  | nil =>
    cases ns with
    | nil =>
      cases ms with
      | nil => simp [fieldText, List.lt_irrefl]
      | cons m ms => exact hm.elim
    | cons n ns => exact hn.elim
  | cons f fields ih =>
    cases ns with
    | nil => exact hn.elim
    | cons n ns =>
      cases ms with
      | nil => exact hm.elim
      | cons m ms =>
        have heq : fixedDigits f.1 n = fixedDigits f.1 m ↔ n = m :=
          ⟨fixedDigits_inj hn.1 hm.1, congrArg _⟩
        rw [fieldText, fieldText, append_lt_append_iff (by simp), fixedDigits_lt_iff hn.1 hm.1, heq,
          append_lt_append_left_iff, ih hn.2 hm.2, List.cons_lt_cons_iff]

end IMServer.Base
