import Mathlib.Algebra.Order.BigOperators.Group.Finset
import Mathlib.Algebra.Order.Group.Multiset
import Mathlib.Data.Fintype.BigOperators

/-!
# What a finite family holds

Library: the items that the members of a finite family hold together, and how they change when
one member does.
-/

namespace IMServer.Base

universe u v w

variable {ι : Type u} {β : Type v} {α : Type w} [Fintype ι]

/-- What all members hold; `f` says what a member in a given state holds. -/
def allHeld (f : β → Multiset α) (member : ι → β) : Multiset α := ∑ i, f (member i)

/-- When one member changes, it gives up what it held and holds something else. -/
theorem allHeld_update [DecidableEq ι] (f : β → Multiset α) (member : ι → β) (i : ι) (b : β) :
    allHeld f (Function.update member i b) + f (member i) = allHeld f member + f b := by
  have hrest : ∑ j ∈ Finset.univ.erase i, f (Function.update member i b j) =
      ∑ j ∈ Finset.univ.erase i, f (member j) :=
    Finset.sum_congr rfl fun j hj => by rw [Function.update_of_ne (Finset.ne_of_mem_erase hj)]
  rw [allHeld, allHeld, ← Finset.sum_erase_add _ _ (Finset.mem_univ i), hrest,
    Function.update_self, ← Finset.sum_erase_add Finset.univ (fun j => f (member j))
    (Finset.mem_univ i), add_right_comm]

variable {f : β → Multiset α} {member : ι → β}

/-- What goes from a common store to a member, or back, does not change the whole. -/
theorem add_allHeld_update [DecidableEq ι] {i : ι} {b : β} {store store' : Multiset α}
    (h : store' + f b = store + f (member i)) :
    store' + allHeld f (Function.update member i b) = store + allHeld f member := by
  refine add_right_cancel (b := f (member i)) ?_
  calc store' + allHeld f (Function.update member i b) + f (member i)
      = store' + (allHeld f member + f b) := by rw [add_assoc, allHeld_update]
    _ = store' + f b + allHeld f member := by rw [add_comm (allHeld f member), add_assoc]
    _ = store + allHeld f member + f (member i) := by rw [h, add_right_comm]

/-- Members that hold nothing hold nothing together. -/
theorem allHeld_eq_zero (h : ∀ i, f (member i) = 0) : allHeld f member = 0 :=
  Finset.sum_eq_zero fun i _ => h i

/-- Each member's part is in the whole. -/
theorem le_allHeld (i : ι) : f (member i) ≤ allHeld f member :=
  Finset.single_le_sum_of_canonicallyOrdered (f := fun i => f (member i)) (Finset.mem_univ i)

/-- Items of which there is only one have one holder. -/
theorem holder_unique [DecidableEq ι] (h : (allHeld f member).Nodup) {i j : ι} {a : α}
    (hi : a ∈ f (member i)) (hj : a ∈ f (member j)) : i = j := by
  by_contra hne
  have hpair : f (member i) + f (member j) ≤ allHeld f member := by
    have := Finset.sum_le_sum_of_subset (f := fun i => f (member i)) (Finset.subset_univ {i, j})
    rwa [Finset.sum_pair hne] at this
  exact Multiset.disjoint_left.mp
    (Multiset.nodup_add.mp (Multiset.nodup_of_le hpair h)).2.2 hi hj

end IMServer.Base
