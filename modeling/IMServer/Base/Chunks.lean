import Mathlib.Data.List.Basic

/-!
# Items kept whole in chunks

Library: a list of chunks that holds a list of items one after the other, none of them split
between two chunks.
-/

namespace IMServer.Base

universe u

variable {α : Type u}

/-- The chunks are the concatenations of consecutive groups of the items. -/
def Chunked (chunks items : List (List α)) : Prop :=
  ∃ groups : List (List (List α)), groups.flatten = items ∧ groups.map List.flatten = chunks

namespace Chunked

variable {chunks items : List (List α)}

/-- The chunks hold what the items hold, in the same order. -/
theorem flatten_eq (h : Chunked chunks items) : chunks.flatten = items.flatten := by
  obtain ⟨groups, rfl, rfl⟩ := h
  rw [List.flatten_flatten]

/-- A new chunk that holds nothing yet. -/
theorem push_nil (h : Chunked chunks items) : Chunked (chunks ++ [[]]) items := by
  obtain ⟨groups, rfl, rfl⟩ := h
  exact ⟨groups ++ [[]], by simp, by simp⟩

/-- A new item in a new chunk. -/
theorem push (h : Chunked chunks items) (item : List α) :
    Chunked (chunks ++ [item]) (items ++ [item]) := by
  obtain ⟨groups, rfl, rfl⟩ := h
  exact ⟨groups ++ [[item]], by simp, by simp⟩

/-- A new item at the end of the last chunk. -/
theorem extend {last : List α} (h : Chunked (chunks ++ [last]) items) (item : List α) :
    Chunked (chunks ++ [last ++ item]) (items ++ [item]) := by
  obtain ⟨groups, rfl, hg⟩ := h
  obtain ⟨gs, g', rfl, rfl, hlast⟩ := List.map_eq_append_iff.mp hg
  obtain ⟨g, rfl, rfl⟩ := List.map_eq_singleton_iff.mp hlast
  exact ⟨gs ++ [g ++ [item]], by simp, by simp⟩

end Chunked

end IMServer.Base
