import IMServer.Base.Decoder
import IMServer.Base.Sources
import Mathlib.Logic.Function.Basic

/-!
# Decoding interleaved inputs

Library: the chunks of several inputs arrive in any order, and each input is drained on its own.
What is decoded from one input is what its chunks alone decode to.
-/

namespace IMServer.Base

universe u v w x

variable {ι : Type x} [DecidableEq ι]

namespace Decoder

variable {σ : Type u} {α : Type v} {ε : Type w} (d : Decoder σ α ε)

/-- Drain the input a chunk belongs to, chunk after chunk. -/
def feedAll : (ι → List σ) → List (ι × List σ) → List (ι × Signal α ε)
  | _, [] => []
  | pending, (i, chunk) :: rest =>
    let now := d.drain (pending i ++ chunk)
    now.1.map (Prod.mk i) ++ feedAll (Function.update pending i now.2) rest

/-- The signals of one input are those of feeding it its own chunks. -/
theorem ofSource_feedAll (i : ι) (events : List (ι × List σ)) (pending : ι → List σ) :
    ofSource i (d.feedAll pending events) = (d.feed (pending i) (ofSource i events)).1 := by
  induction events generalizing pending with
  | nil => rfl
  | cons e rest ih =>
    obtain ⟨j, chunk⟩ := e
    rw [feedAll, ofSource_append, ih]
    by_cases hj : j = i
    · subst hj
      rw [ofSource_map_self, ofSource_cons_self, feed, Function.update_self]
    · rw [ofSource_map_of_ne hj, ofSource_cons_of_ne hj, List.nil_append,
        Function.update_of_ne (Ne.symm hj)]

end Decoder

/-- Signals without an error of any source are items. -/
theorem exists_items {α : Type v} {ε : Type w} {xs : List (ι × Signal α ε)}
    (h : ∀ i, firstError (ofSource i xs) = none) :
    ∃ ys : List (ι × α), xs = ys.map fun y => (y.1, .item y.2) := by
  induction xs with
  | nil => exact ⟨[], rfl⟩
  | cons x xs ih =>
    obtain ⟨j, s⟩ := x
    have htail : ∀ i, firstError (ofSource i xs) = none := by
      intro i
      have hi := h i
      by_cases hj : j = i
      · subst hj
        rw [ofSource_cons_self] at hi
        cases s with
        | item a => exact hi
        | error e => cases hi
      · rwa [ofSource_cons_of_ne hj] at hi
    obtain ⟨ys, rfl⟩ := ih htail
    have hj := h j
    rw [ofSource_cons_self] at hj
    cases s with
    | item a => exact ⟨(j, a) :: ys, rfl⟩
    | error e => cases hj

end IMServer.Base
