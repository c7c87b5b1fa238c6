import IMServer.Base.Bytes
import IMServer.Logging.LogStream

/-!
# Formatting of numbers

`convert` and `convertHex` of `server/src/LogStream.cc` as they work in memory: the digits of a
number are stored from the last one on, then the sign and a terminating zero, and all but the zero
is reversed. Digits come from the remainder of C, which is negative for negative numbers, through a
table that is mirrored around its zero; no number is negated.

Every read of a table and every store is checked; a result says that none was outside of its array.
For every value of every integer type the canonical numeral is stored.
-/

namespace IMServer.Logging

open IMServer.Base

/-! ### Arrays -/

/-- A read of an array at a signed place. -/
def element (a : List UInt8) (k : Int) : Option UInt8 := if 0 ≤ k then a[k.toNat]? else none

/-- A store into an array. -/
def store (buf : List UInt8) (p : Nat) (c : UInt8) : Option (List UInt8) :=
  if p < buf.length then some (buf.set p c) else none

private theorem store_eq (stored rest : List UInt8) (old c : UInt8) :
    store (stored ++ old :: rest) stored.length c = some (stored ++ c :: rest) := by
  rw [store, if_pos]
  · rw [List.set_append_right stored.length c (Nat.le_refl _), Nat.sub_self, List.set_cons_zero]
  · rw [List.length_append, List.length_cons]
    omega

/-! ### The conversions -/

private theorem natAbs_tdiv_natCast (i : Int) (base : Nat) :
    (i.tdiv base).natAbs = i.natAbs / base := by
  rw [Int.natAbs_tdiv, Int.natAbs_natCast]
  rfl

/-- A number that is divided until it is zero gets smaller. -/
theorem natAbs_tdiv_lt {i : Int} {base : Nat} (hbase : 1 < base) (h : i.tdiv base ≠ 0) :
    (i.tdiv base).natAbs < i.natAbs := by
  rw [← Int.natAbs_ne_zero, natAbs_tdiv_natCast] at h
  rw [natAbs_tdiv_natCast]
  have hpos : i.natAbs ≠ 0 := by
    intro h0
    rw [h0, Nat.zero_div] at h
    exact h rfl
  exact Nat.div_lt_self (Nat.pos_of_ne_zero hpos) hbase

/-- The loop of the conversions, `LogStream.cc:34–39` and `58–63`: `table` is read `zero` places
further, and `p` is the place to store at. -/
def writeDigits (table : List UInt8) (zero : Int) {base : Nat} (hbase : 1 < base)
    (buf : List UInt8) (p : Nat) (i : Int) : Option (List UInt8 × Nat) := do
  let c ← element table (zero + i.tmod base)
  let buf ← store buf p c
  if h : i.tdiv base = 0 then some (buf, p + 1)
  else writeDigits table zero hbase buf (p + 1) (i.tdiv base)
termination_by i.natAbs
decreasing_by exact natAbs_tdiv_lt hbase h

/-- The end of the conversions, `LogStream.cc:45–48` and `65–68`. -/
def terminate (buf : List UInt8) (p : Nat) : Option (List UInt8 × Nat) := do
  let buf ← store buf p 0
  some ((buf.take p).reverse ++ buf.drop p, p)

/-- `convert`, `LogStream.cc:28–49`: the array afterwards, and what is returned. -/
def convertTo (buf : List UInt8) (value : Int) : Option (List UInt8 × Nat) := do
  let (buf, p) ← writeDigits digits 9 (show 1 < 10 by decide) buf 0 value
  if value < 0 then
    let buf ← store buf p 45
    terminate buf (p + 1)
  else terminate buf p

/-- `convertHex`, `LogStream.cc:53–69`. -/
def convertHexTo (buf : List UInt8) (value : UInt64) : Option (List UInt8 × Nat) := do
  let (buf, p) ← writeDigits digitsHex 0 (show 1 < 16 by decide) buf 0 value.toNat
  terminate buf p

/-- `operator<<(const void*)`, `LogStream.cc:177–185`: the array, and what is given to `add`. -/
def pointerTo (buf : List UInt8) (v : UInt64) : Option (List UInt8 × Nat) := do
  let buf ← store buf 0 48
  let buf ← store buf 1 120
  let (tail, len) ← convertHexTo (buf.drop 2) v
  some (buf.take 2 ++ tail, len + 2)

/-! ### What the loop stores -/

section Digits

variable {table : List UInt8} {zero : Int} {base : Nat} {digit : Nat → UInt8}

/-- The table has the digit of every remainder of the sign of `i`. -/
def HasDigits (table : List UInt8) (zero : Int) (base : Nat) (digit : Nat → UInt8) (i : Int) :
    Prop :=
  ∀ j : Int, (0 ≤ i → 0 ≤ j) → j.natAbs < base → element table (zero + j) = some (digit j.natAbs)

private theorem HasDigits.tdiv {i : Int} (h : HasDigits table zero base digit i) :
    HasDigits table zero base digit (i.tdiv base) := by
  intro j hj
  apply h j
  intro hi
  exact hj (Int.tdiv_nonneg hi (Int.natCast_nonneg base))

/-- The digit of the last place. -/
theorem HasDigits.element_eq {i : Int} (h : HasDigits table zero base digit i)
    (hbase : 1 < base) :
    element table (zero + i.tmod base) = some (digit (i.natAbs % base)) := by
  have habs : (i.tmod base).natAbs = i.natAbs % base := by
    rw [Int.natAbs_tmod, Int.natAbs_natCast]
  rw [← habs]
  apply h
  · exact fun hi => Int.tmod_nonneg _ hi
  · rw [habs]
    exact Nat.mod_lt _ (by omega)

/-- One turn of the loop. -/
theorem writeDigits_cons (hbase : 1 < base) {i : Int} (hdigits : HasDigits table zero base digit i)
    (stored rest : List UInt8) (old : UInt8) :
    writeDigits table zero hbase (stored ++ old :: rest) stored.length i =
      if i.natAbs / base = 0 then
        some (stored ++ [digit (i.natAbs % base)] ++ rest, stored.length + 1)
      else writeDigits table zero hbase (stored ++ [digit (i.natAbs % base)] ++ rest)
        (stored.length + 1) (i.tdiv base) := by
  have hzero : i.tdiv base = 0 ↔ i.natAbs / base = 0 := by
    rw [← Int.natAbs_eq_zero, natAbs_tdiv_natCast]
  rw [writeDigits.eq_def]
  simp only [hdigits.element_eq hbase, store_eq, Option.bind_eq_bind, Option.bind_some, hzero,
    List.append_assoc, List.singleton_append, dite_eq_ite]

/-- The loop stores the numeral, the last digit first. -/
theorem writeDigits_eq (hbase : 1 < base) {i : Int} (hdigits : HasDigits table zero base digit i)
    {ds : List UInt8} (hds : (positional base digit i.natAbs).reverse = ds)
    (stored rest : List UInt8) {old : List UInt8} (hold : old.length = ds.length) :
    writeDigits table zero hbase (stored ++ (old ++ rest)) stored.length i =
      some (stored ++ (ds ++ rest), stored.length + ds.length) := by
  -- every turn stores one digit and takes it off the number
  induction ds generalizing i stored old with
  | nil =>
    rw [reverse_positional hbase] at hds
    exact absurd hds (List.cons_ne_nil _ _)
  | cons d ds ih =>
    rw [reverse_positional hbase] at hds
    obtain ⟨rfl, hrest⟩ := List.cons.inj hds
    cases old with
    | nil => exact absurd hold (Nat.zero_ne_add_one _)
    | cons first old =>
      rw [List.length_cons, List.length_cons, Nat.add_right_cancel_iff] at hold
      rw [List.cons_append, writeDigits_cons hbase hdigits]
      by_cases hq : i.natAbs / base = 0
      · rw [if_pos hq] at hrest
        subst hrest
        rw [if_pos hq, List.eq_nil_of_length_eq_zero hold, List.append_assoc, List.nil_append]
        rfl
      · rw [if_neg hq, ← natAbs_tdiv_natCast] at hrest
        have hturn := ih hdigits.tdiv hrest (stored ++ [digit (i.natAbs % base)]) hold
        rw [List.length_append, List.length_singleton] at hturn
        rw [if_neg hq, hturn, List.append_assoc, List.singleton_append, List.cons_append,
          List.length_cons, Nat.add_assoc, Nat.add_comm 1]

end Digits

/-! ### What the conversions store -/

/-- The end of a conversion puts what was stored into its order. -/
theorem terminate_eq (stored rest : List UInt8) (old : UInt8) :
    terminate (stored ++ old :: rest) stored.length =
      some (stored.reverse ++ 0 :: rest, stored.reverse.length) := by
  rw [terminate, store_eq, Option.bind_eq_bind, Option.bind_some, List.take_left, List.drop_left,
    List.length_reverse]

private theorem hasDigits_digits (i : Int) : HasDigits digits 9 10 digitByte i := by
  intro j _ hj
  have hcases : ∀ k < 10, element digits (9 + (k : Nat)) = some (digitByte k) ∧
      element digits (9 - (k : Nat)) = some (digitByte k) := by decide
  obtain ⟨hplus, hminus⟩ := hcases j.natAbs hj
  rcases Int.natAbs_eq j with h | h
  · rwa [← h] at hplus
  · rwa [Int.sub_eq_add_neg, ← h] at hminus

private theorem hasDigits_digitsHex (n : Nat) : HasDigits digitsHex 0 16 hexByte n := by
  intro j hpos hj
  have hcases : ∀ k < 16, element digitsHex (0 + (k : Nat)) = some (hexByte k) := by decide
  have hcast : (j.natAbs : Int) = j := Int.natAbs_of_nonneg (hpos (Int.natCast_nonneg n))
  have hdigit := hcases j.natAbs hj
  rwa [hcast] at hdigit

/-- An array is what a text and a zero are stored over, and the rest. -/
theorem exists_window {buf : List UInt8} {n : Nat} (h : n + 1 ≤ buf.length) :
    ∃ old last, old.length = n ∧ buf = old ++ last :: buf.drop (n + 1) := by
  have hlt : n < buf.length := h
  refine ⟨buf.take n, buf[n], ?_, ?_⟩
  · rw [List.length_take]
    omega
  · rw [List.getElem_cons_drop, List.take_append_drop]

/-- The loop of `convert` from the beginning of the array. -/
theorem writeDigits_digits (value : Int) {old : List UInt8}
    (hold : old.length = (numeral value.natAbs).reverse.length) (rest : List UInt8) :
    writeDigits digits 9 (show 1 < 10 by decide) (old ++ rest) 0 value =
      some ((numeral value.natAbs).reverse ++ rest, (numeral value.natAbs).reverse.length) := by
  have hstored := writeDigits_eq (show 1 < 10 by decide) (hasDigits_digits value) rfl [] rest hold
  rw [List.length_nil, Nat.zero_add] at hstored
  exact hstored

/-- `convert` stores the canonical decimal numeral and a zero, and returns the length of the
numeral. -/
theorem convertTo_eq {buf : List UInt8} {value : Int}
    (h : (signedNumeral value).length + 1 ≤ buf.length) :
    convertTo buf value =
      some (signedNumeral value ++ 0 :: buf.drop ((signedNumeral value).length + 1),
        (signedNumeral value).length) := by
  obtain ⟨old, last, hold, hbuf⟩ := exists_window h
  generalize buf.drop ((signedNumeral value).length + 1) = rest at hbuf ⊢
  subst hbuf
  by_cases hv : value < 0
  · -- the sign is stored behind the digits
    have hsigned : signedNumeral value = ((numeral value.natAbs).reverse ++ [45]).reverse := by
      rw [signedNumeral, if_pos hv, List.reverse_append, List.reverse_reverse]
      rfl
    rw [hsigned, List.length_reverse, List.length_append, List.length_singleton] at hold
    rcases List.eq_nil_or_concat' old with rfl | ⟨old, sign, rfl⟩
    · exact absurd hold (Nat.zero_ne_add_one _)
    · rw [List.length_append, List.length_singleton, Nat.add_right_cancel_iff] at hold
      rw [convertTo, List.append_assoc, writeDigits_digits value hold]
      simp only [Option.bind_eq_bind, Option.bind_some, hv, if_true, List.singleton_append]
      have hlen : ((numeral value.natAbs).reverse ++ [45]).length =
          (numeral value.natAbs).reverse.length + 1 := by
        rw [List.length_append, List.length_singleton]
      rw [store_eq, Option.bind_some, List.append_cons, ← hlen, terminate_eq, hsigned]
  · have hsigned : signedNumeral value = (numeral value.natAbs).reverse.reverse := by
      rw [signedNumeral, if_neg hv, List.nil_append, List.reverse_reverse]
    rw [hsigned, List.length_reverse] at hold
    rw [convertTo, writeDigits_digits value hold]
    simp only [Option.bind_eq_bind, Option.bind_some, hv, if_false]
    rw [terminate_eq, hsigned]

/-- `convertHex` stores the canonical hexadecimal numeral and a zero, and returns the length of the
numeral. -/
theorem convertHexTo_eq {buf : List UInt8} {value : UInt64}
    (h : (hexNumeral value.toNat).length + 1 ≤ buf.length) :
    convertHexTo buf value =
      some (hexNumeral value.toNat ++ 0 :: buf.drop ((hexNumeral value.toNat).length + 1),
        (hexNumeral value.toNat).length) := by
  obtain ⟨old, last, hold, hbuf⟩ := exists_window h
  generalize buf.drop ((hexNumeral value.toNat).length + 1) = rest at hbuf ⊢
  subst hbuf
  have hdigits : old.length = (hexNumeral value.toNat).reverse.length := by
    rw [hold, List.length_reverse]
  have hstored := writeDigits_eq (show 1 < 16 by decide) (hasDigits_digitsHex value.toNat) rfl []
    (last :: rest) hdigits
  rw [List.nil_append, List.nil_append, List.length_nil, Nat.zero_add, Int.natAbs_natCast]
    at hstored
  rw [convertHexTo, hstored]
  simp only [Option.bind_eq_bind, Option.bind_some]
  rw [terminate_eq, List.reverse_reverse, hexNumeral]

/-- The window of a pointer: `0x`, the hexadecimal numeral and a zero. -/
theorem pointerTo_eq {buf : List UInt8} {v : UInt64}
    (h : (hexNumeral v.toNat).length + 3 ≤ buf.length) :
    pointerTo buf v =
      some (bytesOf "0x" ++ hexNumeral v.toNat ++ 0 :: buf.drop ((hexNumeral v.toNat).length + 3),
        (hexNumeral v.toNat).length + 2) := by
  cases buf with
  | nil => exact absurd h (Nat.not_succ_le_zero _)
  | cons first buf =>
    cases buf with
    | nil =>
      rw [List.length_singleton] at h
      omega
    | cons second tail =>
      have htail : (hexNumeral v.toNat).length + 1 ≤ tail.length := by
        rw [List.length_cons, List.length_cons] at h
        omega
      simp [pointerTo, store, convertHexTo_eq htail, bytesOf]

/-! ### The texts of a record -/

private theorem getD_of_element {a : List UInt8} {k : Int} {c : UInt8} (h : element a k = some c) :
    a.getD k.toNat 0 = c := by
  unfold element at h
  split at h
  · rw [List.getD_eq_getElem?_getD, h, Option.getD_some]
  · cases h

/-- A quotient has a digit less. -/
theorem div_lt_pow {base n k : Nat} (h : n < base ^ (k + 1)) : n / base < base ^ k := by
  rw [Nat.pow_succ] at h
  exact Nat.div_lt_of_lt_mul (by rwa [Nat.mul_comm])

/-- Where a number has no more digits than there are turns, the turns give all of them. -/
theorem convertLoop_eq {fuel : Nat} {i : Int} (h : i.natAbs < 10 ^ fuel) (hi : i ≠ 0 ∨ fuel ≠ 0) :
    convertLoop fuel i = (numeral i.natAbs).reverse := by
  induction fuel generalizing i with
  | zero =>
    rw [Nat.pow_zero] at h
    omega
  | succ fuel ih =>
    have hquot : (i.tdiv 10).natAbs = i.natAbs / 10 := natAbs_tdiv_natCast i 10
    have hdigit := getD_of_element ((hasDigits_digits i).element_eq (by decide))
    rw [convertLoop, numeral_eq_positional, reverse_positional (by decide), ← hquot]
    refine congrArg₂ List.cons hdigit ?_
    by_cases hq : i.tdiv 10 = 0
    · rw [if_pos hq, if_pos (by rw [hq]; rfl)]
    · rw [if_neg hq, if_neg (Int.natAbs_ne_zero.mpr hq),
        ih (hquot ▸ div_lt_pow h) (.inl hq), numeral_eq_positional]

private theorem convertHexLoop_eq {fuel n : Nat} (h : n < 16 ^ fuel) (hn : n ≠ 0 ∨ fuel ≠ 0) :
    convertHexLoop fuel n = (hexNumeral n).reverse := by
  induction fuel generalizing n with
  | zero =>
    rw [Nat.pow_zero] at h
    omega
  | succ fuel ih =>
    have hdigit : digitsHex.getD (n % 16) 0 = hexByte (n % 16) := by
      have hcases : ∀ d < 16, digitsHex.getD d 0 = hexByte d := by decide
      exact hcases (n % 16) (Nat.mod_lt n (by decide))
    rw [convertHexLoop, hexNumeral, reverse_positional (by decide), hdigit]
    by_cases hq : n / 16 = 0
    · rw [if_pos hq, if_pos hq]
    · rw [if_neg hq, if_neg hq, ih (div_lt_pow h) (.inl hq), hexNumeral]

/-- The text of an integer in a record is its canonical numeral. -/
theorem convert_eq {value : Int} (h : value.natAbs < 10 ^ 20) :
    convert value = signedNumeral value := by
  rw [convert, convertLoop_eq h (.inr (by decide)), List.reverse_append, List.reverse_reverse,
    signedNumeral]
  split <;> rfl

private theorem convertHex_eq (value : UInt64) : convertHex value = hexNumeral value.toNat := by
  rw [convertHex, convertHexLoop_eq (value.toNat_lt.trans_le (by decide)) (.inr (by decide)),
    List.reverse_reverse]

/-! ### Values of the integer types -/

/-- The integer types that a stream takes, `LogStream.h:112–119`. -/
inductive IntType where
  | short
  | unsignedShort
  | int
  | unsignedInt
  | long
  | unsignedLong
  | longLong
  | unsignedLongLong
  deriving DecidableEq, Repr

namespace IntType

def bits : IntType → Nat
  | short | unsignedShort => 16
  | int | unsignedInt => 32
  | long | unsignedLong | longLong | unsignedLongLong => 64

def isSigned : IntType → Bool
  | short | int | long | longLong => true
  | unsignedShort | unsignedInt | unsignedLong | unsignedLongLong => false

/-- The least value. -/
def least (t : IntType) : Int := if t.isSigned then -2 ^ (t.bits - 1) else 0

/-- The first number above the values. -/
def bound (t : IntType) : Int := if t.isSigned then 2 ^ (t.bits - 1) else 2 ^ t.bits

abbrev Value (t : IntType) := { v : Int // t.least ≤ v ∧ v < t.bound }

/-- What the operator of the type gives to `formatInteger`, `LogStream.cc:127–173`: the short types
are converted to those of 32 bits. -/
def argument : (t : IntType) → t.Value → Int
  | short, v => wrap 32 v.1
  | unsignedShort, v => unsigned 32 v.1
  | _, v => v.1

/-- No operator changes its value. -/
theorem argument_eq (t : IntType) (v : t.Value) : t.argument v = v.1 := by
  obtain ⟨v, hleast, hbound⟩ := v
  cases t with
  | short =>
    simp only [least, bound, isSigned, bits, if_true] at hleast hbound
    change wrap 32 v = v
    exact wrap_eq_self (by decide) (by omega) (by omega)
  | unsignedShort =>
    simp only [least, bound, isSigned, bits, Bool.false_eq_true, if_false] at hleast hbound
    rw [argument, unsigned, Int.emod_eq_of_lt hleast (by omega), Int.toNat_of_nonneg hleast]
  | _ => rfl

private theorem natAbs_lt (t : IntType) (v : t.Value) : v.1.natAbs < 2 ^ 64 := by
  obtain ⟨v, hleast, hbound⟩ := v
  change v.natAbs < 2 ^ 64
  cases t
  all_goals
    simp only [least, bound, isSigned, bits, Bool.false_eq_true, if_true, if_false] at hleast hbound
    omega

end IntType

/-- A signed numeral of 64 bits and the terminator. -/
theorem length_signedNumeral_le {v : Int} (h : v.natAbs < 2 ^ 64) :
    (signedNumeral v).length + 1 ≤ kMaxNumericSize := by
  have hdigits : (numeral v.natAbs).length ≤ 20 :=
    length_positional_le (by decide) (h.trans_le (by decide))
  have hsign : (if v < 0 then bytesOf "-" else []).length ≤ 1 := by
    split <;> decide
  rw [signedNumeral, List.length_append, kMaxNumericSize]
  omega

/-- The numeral of a pointer, `0x` and the terminator. -/
theorem length_hexNumeral_le (p : UInt64) :
    (hexNumeral p.toNat).length + 3 ≤ kMaxNumericSize := by
  have hdigits : (hexNumeral p.toNat).length ≤ 16 :=
    length_positional_le (by decide) (p.toNat_lt.trans_le (by decide))
  rw [kMaxNumericSize]
  omega

/-- For every value of every integer type and every pointer, in every array of `kMaxNumericSize`
bytes or more: `convert` stores the canonical decimal numeral of the value and a zero, leaves the
rest of the array and returns the length of the numeral; `convertHex` and the operator for pointers
do the same with the canonical hexadecimal numeral, the latter after `0x`. A numeral is read back,
only that of zero starts with a zero, the sign stands exactly before negative ones, and no more than
`kMaxNumericSize` bytes are stored. The texts of a record are these numerals. -/
theorem numbers_are_canonical (t : IntType) (v : t.Value) (p : UInt64) {buf : List UInt8}
    (hbuf : kMaxNumericSize ≤ buf.length) :
    (convertTo buf (t.argument v) =
        some (signedNumeral v.1 ++ 0 :: buf.drop ((signedNumeral v.1).length + 1),
          (signedNumeral v.1).length) ∧
      readSigned (signedNumeral v.1) = v.1 ∧
      (v.1 ≠ 0 → (numeral v.1.natAbs).head? ≠ some 48) ∧
      ((signedNumeral v.1).head? = some 45 ↔ v.1 < 0) ∧
      (signedNumeral v.1).length + 1 ≤ kMaxNumericSize ∧
      convert v.1 = signedNumeral v.1) ∧
    convertHexTo buf p =
        some (hexNumeral p.toNat ++ 0 :: buf.drop ((hexNumeral p.toNat).length + 1),
          (hexNumeral p.toNat).length) ∧
      pointerTo buf p =
        some (bytesOf "0x" ++ hexNumeral p.toNat ++
            0 :: buf.drop ((hexNumeral p.toNat).length + 3),
          (hexNumeral p.toNat).length + 2) ∧
      readPositional 16 hexValue (hexNumeral p.toNat) = p.toNat ∧
      (p.toNat ≠ 0 → (hexNumeral p.toNat).head? ≠ some 48) ∧
      (hexNumeral p.toNat).length + 3 ≤ kMaxNumericSize ∧
      pointerText p = bytesOf "0x" ++ hexNumeral p.toNat := by
  have hvalue := t.natAbs_lt v
  have hdecimal := length_signedNumeral_le hvalue
  have hhex := length_hexNumeral_le p
  refine ⟨⟨?_, readSigned_signedNumeral v.1, ?_, head_signedNumeral_iff v.1, hdecimal, ?_⟩,
    convertHexTo_eq (by omega), pointerTo_eq (by omega), ?_, ?_, hhex, ?_⟩
  · rw [t.argument_eq]
    exact convertTo_eq (by omega)
  · intro hne
    exact head_numeral_ne_zero (Int.natAbs_ne_zero.mpr hne)
  · exact convert_eq (hvalue.trans_le (by decide))
  · exact readPositional_positional hexValue_hexByte (by decide) p.toNat
  · intro hne
    exact head_positional hexValue_hexByte (by decide) hne
  · rw [pointerText, convertHex_eq]

/-- The least value of 64 bits and the greatest pointer, in an array of 32 bytes. -/
theorem numbers_are_canonical_least :
    convertTo (List.replicate 32 7) (-9223372036854775808) =
        some (bytesOf "-9223372036854775808" ++ 0 :: List.replicate 11 7, 20) ∧
      pointerTo (List.replicate 32 7) 18446744073709551615 =
        some (bytesOf "0xFFFFFFFFFFFFFFFF" ++ 0 :: List.replicate 13 7, 18) := by
  have hall := numbers_are_canonical .longLong ⟨-9223372036854775808, by decide⟩
    18446744073709551615 (show kMaxNumericSize ≤ (List.replicate 32 (7 : UInt8)).length by decide)
  have hdecimal : signedNumeral (-9223372036854775808) = bytesOf "-9223372036854775808" := by
    decide
  have hhex : hexNumeral (18446744073709551615 : UInt64).toNat = bytesOf "FFFFFFFFFFFFFFFF" := by
    decide
  obtain ⟨⟨hconvert, -⟩, -, hpointer, -⟩ := hall
  rw [IntType.argument_eq, hdecimal] at hconvert
  rw [hhex] at hpointer
  exact ⟨hconvert, hpointer⟩

end IMServer.Logging
