import Mathlib.Data.Multiset.AddSub
import Mathlib.Data.Multiset.UnionInter

/-!
# Ownership of heap cells

Library: a heap of cells that are allocated and freed, and lists of owners in which every live
cell occurs exactly once. Moving a cell from one owner to another does not change the list;
only a live cell can be read or freed, and only a free address can be allocated.
-/

namespace IMServer.Base

universe u v

/-- The live cells. -/
abbrev Heap (A : Type u) (C : Type v) := A → Option C

variable {A : Type u} {C : Type v} [DecidableEq A]

/-- Write a cell. -/
def Heap.store (h : Heap A C) (a : A) (c : C) : Heap A C := Function.update h a (some c)

/-- Free a live cell; freeing any other address fails. -/
def Heap.free (h : Heap A C) (a : A) : Option (Heap A C) :=
  if (h a).isSome then some (Function.update h a none) else none

/-- Every live cell has one owner, and nothing else has any. -/
structure Owned (h : Heap A C) (owners : Multiset A) : Prop where
  nodup : owners.Nodup
  mem_iff : ∀ a, a ∈ owners ↔ (h a).isSome = true

namespace Owned

variable {h : Heap A C} {owners : Multiset A} {a : A}

omit [DecidableEq A] in
/-- What is owned is allocated. -/
theorem exists_cell (ho : Owned h owners) (ha : a ∈ owners) : ∃ c, h a = some c :=
  Option.isSome_iff_exists.mp ((ho.mem_iff a).mp ha)

/-- An allocated cell gets an owner. -/
theorem alloc (ho : Owned h owners) (ha : h a = none) (c : C) :
    Owned (h.store a c) (a ::ₘ owners) := by
  have hnot : a ∉ owners := by
    rw [ho.mem_iff, ha]
    nofun
  refine ⟨Multiset.nodup_cons.mpr ⟨hnot, ho.nodup⟩, fun b => ?_⟩
  rw [Multiset.mem_cons, Heap.store, Function.update_apply, ho.mem_iff]
  split
  · next hb => exact iff_of_true (.inl hb) rfl
  · next hb => exact or_iff_right hb

/-- A store keeps the owners. -/
theorem store (ho : Owned h owners) (ha : a ∈ owners) (c : C) : Owned (h.store a c) owners := by
  refine ⟨ho.nodup, fun b => ?_⟩
  rw [Heap.store, Function.update_apply]
  split
  · next hb => exact iff_of_true (hb ▸ ha) rfl
  · exact ho.mem_iff b

/-- An owner frees its cell once. -/
theorem free (ho : Owned h (a ::ₘ owners)) :
    ∃ h', h.free a = some h' ∧ h' = Function.update h a none ∧ Owned h' owners := by
  have hlive := (ho.mem_iff a).mp (Multiset.mem_cons_self a owners)
  have hnd := Multiset.nodup_cons.mp ho.nodup
  refine ⟨_, if_pos hlive, rfl, hnd.2, fun b => ?_⟩
  rw [Function.update_apply]
  split
  · next hb => exact iff_of_false (hb ▸ hnd.1) nofun
  · next hb => rw [← ho.mem_iff, Multiset.mem_cons, or_iff_right hb]

end Owned

end IMServer.Base
