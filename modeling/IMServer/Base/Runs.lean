import Mathlib.Data.List.Basic

/-!
# Maximal runs

Library: the maximal runs of elements between separators, and how a scan finds them that carries
the part of a run it has read.
-/

namespace IMServer.Base

variable {α : Type} {p : α → Bool}

/-- The maximal runs of elements other than the separators. -/
def runs (p : α → Bool) (s : List α) : List (List α) := (s.splitOnP p).filter fun w => !w.isEmpty

/-- The maximal runs when `cur` has been read of the first one. -/
def runsFrom (p : α → Bool) (cur s : List α) : List (List α) :=
  ((s.splitOnP p).modifyHead (cur ++ ·)).filter fun w => !w.isEmpty

/-- With nothing open the runs start afresh. -/
theorem runsFrom_empty (s : List α) : runsFrom p [] s = runs p s := by
  have hid : (fun w : List α => [] ++ w) = id := rfl
  rw [runsFrom, hid, List.modifyHead_id, runs, id]

/-- What has been read is a run if it is not empty. -/
theorem runsFrom_nil (cur : List α) : runsFrom p cur [] = if cur.isEmpty then [] else [cur] := by
  rw [runsFrom, List.splitOnP_nil, List.modifyHead_cons, List.append_nil, List.filter_cons,
    List.filter_nil]
  cases cur <;> rfl

/-- A separator ends a run. -/
theorem runsFrom_separator {c : α} (hc : p c = true) (cur s : List α) :
    runsFrom p cur (c :: s) = (if cur.isEmpty then [] else [cur]) ++ runs p s := by
  rw [runsFrom, List.splitOnP_cons_eq_if_modifyHead, if_pos hc, List.modifyHead_cons,
    List.append_nil, List.filter_cons, runs]
  cases cur <;> rfl

/-- Another element is read. -/
theorem runsFrom_element {c : α} (hc : p c = false) (cur s : List α) :
    runsFrom p cur (c :: s) = runsFrom p (cur ++ [c]) s := by
  have hcomp : (fun w : List α => cur ++ w) ∘ (fun w => c :: w) = fun w => (cur ++ [c]) ++ w := by
    funext w
    rw [Function.comp_apply, List.append_assoc, List.singleton_append]
  rw [runsFrom, List.splitOnP_cons_eq_if_modifyHead, hc, if_neg Bool.false_ne_true,
    List.modifyHead_modifyHead, hcomp, runsFrom]

/-- The runs hold the elements other than the separators in their order. -/
theorem flatten_runsFrom (cur s : List α) :
    (runsFrom p cur s).flatten = cur ++ s.filter fun c => !p c := by
  induction s generalizing cur with
  | nil =>
    rw [runsFrom_nil]
    cases cur with
    | nil => rfl
    | cons c cur => simp
  | cons c s ih =>
    cases hc : p c with
    | true =>
      rw [runsFrom_separator hc, List.flatten_append, ← runsFrom_empty, ih, List.nil_append,
        List.filter_cons_of_neg (by rw [hc]; decide)]
      cases cur with
      | nil => rfl
      | cons d cur => simp
    | false =>
      rw [runsFrom_element hc, ih, List.filter_cons_of_pos (by rw [hc]; rfl), List.append_assoc,
        List.singleton_append]

end IMServer.Base
