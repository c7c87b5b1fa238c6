import Mathlib.Data.List.Nodup
import Mathlib.Logic.Function.Basic

/-!
# Items checked out of a pool

Library: numbered items that several holders take out of a pool and give back. Every item that
is out was out from the start or is held by exactly one holder, so what is out is what was out
at the start exactly when nobody holds anything.
-/

namespace IMServer.Base

universe u

/-- The items `out` are those of `base` and those that someone holds; each is held once, and its
number is below `next`. -/
structure CheckedOut {ι : Type u} (base out : List Nat) (held : ι → List Nat) (next : Nat) :
    Prop where
  mem_iff : ∀ h, h ∈ out ↔ h ∈ base ∨ ∃ i, h ∈ held i
  base_lt : ∀ h ∈ base, h < next
  held_lt : ∀ i, ∀ h ∈ held i, h < next
  notMem_base : ∀ i, ∀ h ∈ held i, h ∉ base
  nodup : ∀ i, (held i).Nodup
  unique : ∀ i j h, h ∈ held i → h ∈ held j → i = j

namespace CheckedOut

variable {ι : Type u} {base out : List Nat} {held : ι → List Nat} {next : Nat}

/-- Nobody holds anything yet. -/
theorem start (hb : ∀ h ∈ base, h < next) : CheckedOut base base (fun _ : ι => []) next where
  mem_iff h := by simp
  base_lt := hb
  held_lt := by simp
  notMem_base := by simp
  nodup := by simp
  unique := by simp

/-- The counter may run ahead. -/
theorem mono (h : CheckedOut base out held next) {next' : Nat} (hn : next ≤ next') :
    CheckedOut base out held next' :=
  { h with
    base_lt := fun x hx => Nat.lt_of_lt_of_le (h.base_lt x hx) hn
    held_lt := fun i x hx => Nat.lt_of_lt_of_le (h.held_lt i x hx) hn }

/-- What is out is what was out at the start exactly when nobody holds anything. -/
theorem same_iff (h : CheckedOut base out held next) :
    (∀ x, x ∈ out ↔ x ∈ base) ↔ ∀ i, held i = [] := by
  constructor
  · intro hsame i
    rw [List.eq_nil_iff_forall_not_mem]
    intro x hx
    exact h.notMem_base i x hx ((hsame x).mp ((h.mem_iff x).mpr (.inr ⟨i, hx⟩)))
  · intro hnil x
    rw [h.mem_iff]
    simp [hnil]

variable [DecidableEq ι]

/-- A member that changes nothing. -/
theorem update_same (h : CheckedOut base out held next) (i : ι) :
    CheckedOut base out (Function.update held i (held i)) next := by
  rwa [Function.update_eq_self]

/-- A new item is taken. -/
theorem take (h : CheckedOut base out held next) (i : ι) :
    CheckedOut base (next :: out) (Function.update held i (next :: held i)) (next + 1) := by
  have hmem : ∀ j x, x ∈ Function.update held i (next :: held i) j ↔
      j = i ∧ x = next ∨ x ∈ held j := by
    intro j x
    by_cases hj : j = i
    · subst hj
      simp
    · simp [hj]
  refine ⟨?_, ?_, ?_, ?_, ?_, ?_⟩
  · intro x
    rw [List.mem_cons, h.mem_iff]
    simp only [hmem]
    constructor
    · rintro (rfl | hb | ⟨j, hj⟩)
      · exact .inr ⟨i, .inl ⟨rfl, rfl⟩⟩
      · exact .inl hb
      · exact .inr ⟨j, .inr hj⟩
    · rintro (hb | ⟨j, ⟨-, rfl⟩ | hj⟩)
      · exact .inr (.inl hb)
      · exact .inl rfl
      · exact .inr (.inr ⟨j, hj⟩)
  · intro x hx
    exact Nat.lt_succ_of_lt (h.base_lt x hx)
  · intro j x hx
    rcases (hmem j x).mp hx with ⟨-, rfl⟩ | hx
    · exact Nat.lt_succ_self _
    · exact Nat.lt_succ_of_lt (h.held_lt j x hx)
  · intro j x hx hb
    rcases (hmem j x).mp hx with ⟨-, rfl⟩ | hx
    · exact absurd (h.base_lt _ hb) (Nat.lt_irrefl _)
    · exact h.notMem_base j x hx hb
  · intro j
    by_cases hj : j = i
    · subst hj
      rw [Function.update_self, List.nodup_cons]
      exact ⟨fun hin => absurd (h.held_lt _ _ hin) (Nat.lt_irrefl _), h.nodup j⟩
    · rw [Function.update_of_ne hj]
      exact h.nodup j
  · intro j k x hj hk
    rcases (hmem j x).mp hj with ⟨hji, hxn⟩ | hj' <;> rcases (hmem k x).mp hk with ⟨hki, hxn'⟩ | hk'
    · rw [hji, hki]
    · exact absurd (hxn ▸ h.held_lt k x hk') (Nat.lt_irrefl _)
    · exact absurd (hxn' ▸ h.held_lt j x hj') (Nat.lt_irrefl _)
    · exact h.unique j k x hj' hk'

/-- An item is given back by its holder. -/
theorem giveBack (h : CheckedOut base out held next) {i : ι} {x : Nat} (hx : x ∈ held i) :
    CheckedOut base (out.filter fun y => some y ≠ some x)
      (Function.update held i ((held i).erase x)) next := by
  have hmem : ∀ j y, y ∈ Function.update held i ((held i).erase x) j ↔ y ≠ x ∧ y ∈ held j := by
    intro j y
    by_cases hj : j = i
    · subst hj
      rw [Function.update_self, (h.nodup j).mem_erase_iff]
    · rw [Function.update_of_ne hj]
      refine (and_iff_right_of_imp ?_).symm
      rintro hy rfl
      exact hj (h.unique j i y hy hx)
  refine ⟨?_, h.base_lt, ?_, ?_, ?_, ?_⟩
  · intro y
    simp only [List.mem_filter, h.mem_iff, hmem, ne_eq, Option.some.injEq, decide_not,
      Bool.not_eq_true', decide_eq_false_iff_not]
    constructor
    · rintro ⟨hb | ⟨j, hj⟩, hne⟩
      · exact .inl hb
      · exact .inr ⟨j, hne, hj⟩
    · rintro (hb | ⟨j, hne, hj⟩)
      · exact ⟨.inl hb, fun heq => h.notMem_base i x hx (heq ▸ hb)⟩
      · exact ⟨.inr ⟨j, hj⟩, hne⟩
  · intro j y hy
    exact h.held_lt j y ((hmem j y).mp hy).2
  · intro j y hy
    exact h.notMem_base j y ((hmem j y).mp hy).2
  · intro j
    by_cases hj : j = i
    · subst hj
      rw [Function.update_self]
      exact (h.nodup j).erase x
    · rw [Function.update_of_ne hj]
      exact h.nodup j
  · intro j k y hj hk
    exact h.unique j k y ((hmem j y).mp hj).2 ((hmem k y).mp hk).2

end CheckedOut

end IMServer.Base
