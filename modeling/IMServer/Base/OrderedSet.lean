import Mathlib.Data.Finset.Card
import Mathlib.Data.List.Sort

/-!
# Ordered sets

Library: a finite set kept as the strictly increasing list of its elements, with the insertion,
the removal and the split at a bound that ordered containers offer. `toFinset` is the set it
stands for.
-/

namespace IMServer.Base

universe u

/-- A finite set as the increasing list of its elements. -/
structure OrderedSet (α : Type u) [LinearOrder α] where
  toList : List α
  sorted : toList.Pairwise (· < ·)

namespace OrderedSet

variable {α : Type u} [LinearOrder α] {s : OrderedSet α} {x y : α}

def empty : OrderedSet α := ⟨[], .nil⟩

def size (s : OrderedSet α) : Nat := s.toList.length

/-- The least element. -/
def begin (s : OrderedSet α) : Option α := s.toList.head?

private theorem nodup (s : OrderedSet α) : s.toList.Nodup := s.sorted.imp fun h => h.ne

/-- The set that the list stands for. -/
def toFinset (s : OrderedSet α) : Finset α := ⟨s.toList, s.nodup⟩

instance : Membership α (OrderedSet α) := ⟨fun s x => x ∈ s.toList⟩

instance (x : α) (s : OrderedSet α) : Decidable (x ∈ s) :=
  inferInstanceAs (Decidable (x ∈ s.toList))

/-- The set of the elements. -/
@[simp] theorem mem_toFinset : x ∈ s.toFinset ↔ x ∈ s := Iff.rfl

/-- No element is stored twice. -/
theorem size_eq_card (s : OrderedSet α) : s.size = s.toFinset.card := rfl

private theorem sorted_orderedInsert (hx : x ∉ s) :
    (s.toList.orderedInsert (· ≤ ·) x).Pairwise (· < ·) := by
  have hle := List.Pairwise.orderedInsert x _ (s.sorted.imp fun h => h.le)
  have hne : (s.toList.orderedInsert (· ≤ ·) x).Nodup := by
    rw [(List.perm_orderedInsert (· ≤ ·) x s.toList).nodup_iff]
    exact List.nodup_cons.mpr ⟨hx, s.nodup⟩
  exact (hle.and hne).imp fun h => lt_of_le_of_ne h.1 h.2

/-- Insert an element; a set that has it stays as it is. -/
def insert (s : OrderedSet α) (x : α) : OrderedSet α :=
  if hx : x ∈ s then s else ⟨s.toList.orderedInsert (· ≤ ·) x, sorted_orderedInsert hx⟩

/-- `insert` as on sets. -/
theorem toFinset_insert : (s.insert x).toFinset = Insert.insert x s.toFinset := by
  ext y
  rw [Finset.mem_insert, mem_toFinset, mem_toFinset, insert]
  split
  · next hx => exact ⟨.inr, fun h => h.elim (fun h => h ▸ hx) id⟩
  · exact List.mem_orderedInsert (· ≤ ·)

def erase (s : OrderedSet α) (x : α) : OrderedSet α :=
  ⟨s.toList.erase x, s.sorted.sublist List.erase_sublist⟩

/-- `erase` as on sets. -/
theorem toFinset_erase : (s.erase x).toFinset = s.toFinset.erase x := rfl

/-- The elements before the first that is not less than the bound, in order. -/
def below (s : OrderedSet α) (bound : α) : List α := s.toList.filter (· < bound)

/-- The elements below a bound, each once. -/
theorem coe_below (s : OrderedSet α) (bound : α) :
    (s.below bound : Multiset α) = (s.toFinset.filter (· < bound)).val := by
  simp [below, toFinset]

/-- The elements from the first that is not less than the bound on. -/
def above (s : OrderedSet α) (bound : α) : OrderedSet α :=
  ⟨s.toList.filter fun x => ¬ x < bound, s.sorted.filter _⟩

/-- The elements from a bound on. -/
theorem toFinset_above (s : OrderedSet α) (bound : α) :
    (s.above bound).toFinset = s.toFinset.filter (¬ · < bound) := by
  ext y
  rw [Finset.mem_filter, mem_toFinset, mem_toFinset]
  exact List.mem_filter.trans (and_congr_right fun _ => decide_eq_true_iff)

/-- The first element is an element. -/
theorem mem_of_begin (h : s.begin = some x) : x ∈ s := List.mem_of_mem_head? h

/-- The first element is the least. -/
theorem begin_le (h : s.begin = some x) (hy : y ∈ s) : x ≤ y := by
  obtain ⟨tail, htail⟩ := List.head?_eq_some_iff.mp h
  have hs := s.sorted
  have hy : y ∈ s.toList := hy
  rw [htail] at hs hy
  rcases List.mem_cons.mp hy with rfl | hy
  · exact le_rfl
  · exact ((List.pairwise_cons.mp hs).1 y hy).le

/-- Without a first element the set is empty. -/
theorem notMem_of_begin_eq_none (h : s.begin = none) : y ∉ s := by
  have hnil : s.toList = [] := List.head?_eq_none_iff.mp h
  intro hy
  have hy : y ∈ s.toList := hy
  simp [hnil] at hy

/-- Elements after `insert`. -/
theorem mem_insert : y ∈ s.insert x ↔ y = x ∨ y ∈ s := by
  rw [← mem_toFinset, toFinset_insert, Finset.mem_insert, mem_toFinset]

/-- `erase` adds nothing. -/
theorem mem_of_mem_erase (h : y ∈ s.erase x) : y ∈ s := List.mem_of_mem_erase h

/-- Elements below a bound. -/
theorem mem_below {bound : α} : y ∈ s.below bound ↔ y ∈ s ∧ y < bound := by
  rw [below, List.mem_filter, decide_eq_true_iff]
  rfl

/-- Elements from a bound on. -/
theorem mem_above {bound : α} : y ∈ s.above bound ↔ y ∈ s ∧ ¬ y < bound := by
  rw [← mem_toFinset, toFinset_above, Finset.mem_filter, mem_toFinset]

end OrderedSet

end IMServer.Base
