import Mathlib.Data.List.Basic

/-!
# Elements with their sources

Library: a list of elements that come from several sources, and what one of them contributes.
-/

namespace IMServer.Base

universe v w x

variable {ι : Type x} [DecidableEq ι]

/-- The elements that come from one source, in order. -/
def ofSource {β : Type v} (i : ι) (xs : List (ι × β)) : List β :=
  (xs.filter fun x => x.1 = i).map Prod.snd

section OfSource

variable {β : Type v} (i : ι)

/-- Nothing from any source. -/
@[simp]
theorem ofSource_nil : ofSource i ([] : List (ι × β)) = [] := rfl

/-- What comes from a source, in two parts. -/
@[simp]
theorem ofSource_append (xs ys : List (ι × β)) :
    ofSource i (xs ++ ys) = ofSource i xs ++ ofSource i ys := by
  simp [ofSource]

/-- An element from the source. -/
theorem ofSource_cons_self (b : β) (xs : List (ι × β)) :
    ofSource i ((i, b) :: xs) = b :: ofSource i xs := by
  simp [ofSource]

/-- An element from another source. -/
theorem ofSource_cons_of_ne {i j : ι} (h : j ≠ i) (b : β) (xs : List (ι × β)) :
    ofSource i ((j, b) :: xs) = ofSource i xs := by
  simp [ofSource, h]

/-- All elements from the source. -/
theorem ofSource_map_self (bs : List β) : ofSource i (bs.map (Prod.mk i)) = bs := by
  simp [ofSource, List.filter_map, Function.comp_def]

/-- All elements from another source. -/
theorem ofSource_map_of_ne {i j : ι} (h : j ≠ i) (bs : List β) :
    ofSource i (bs.map (Prod.mk j)) = [] := by
  simp [ofSource, List.filter_map, Function.comp_def, h]

/-- A function on what the sources deliver. -/
theorem ofSource_map {γ : Type w} (f : β → γ) (xs : List (ι × β)) :
    ofSource i (xs.map fun x => (x.1, f x.2)) = (ofSource i xs).map f := by
  simp [ofSource, List.filter_map, Function.comp_def]

/-- A list to which no source contributes is empty. -/
theorem eq_nil_of_ofSource {xs : List (ι × β)} (h : ∀ i, ofSource i xs = []) : xs = [] := by
  cases xs with
  | nil => rfl
  | cons x xs =>
    have hx := h x.1
    rw [ofSource_cons_self x.1 x.2 xs] at hx
    cases hx

end OfSource

end IMServer.Base
