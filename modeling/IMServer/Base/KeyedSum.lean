import Mathlib.Data.List.AList
import Mathlib.Algebra.BigOperators.Group.List.Basic
import Mathlib.Algebra.Order.Ring.Int
import Mathlib.Tactic.Ring

/-!
# Sums over maps and tables

Library: the sum of a measure over the values of a finite map and over the rows of a table,
and how inserting, erasing and updating rows change it.
-/

namespace IMServer.Base

section Maps

variable {K V : Type} [DecidableEq K]

/-- The sum of a measure over the values of a finite map. -/
def sumValues (f : V → Int) (s : AList fun _ : K => V) : Int := (s.entries.map fun e => f e.2).sum

private theorem sum_kerase (f : V → Int) (k : K) (l : List (Sigma fun _ : K => V)) :
    ((l.kerase k).map fun e => f e.2).sum =
      (l.map fun e => f e.2).sum - ((l.dlookup k).elim 0 f) := by
  induction l with
  | nil => simp
  | cons e l ih =>
    obtain ⟨k', v⟩ := e
    by_cases hk : k = k'
    · subst hk
      simp
    · rw [List.kerase_cons_ne hk, List.dlookup_cons_ne l ⟨k', v⟩ hk]
      simp only [List.map_cons, List.sum_cons, ih]
      ring

/-- An erased key takes its value off the sum. -/
theorem sumValues_erase (f : V → Int) (s : AList fun _ : K => V) (k : K) :
    sumValues f (s.erase k) = sumValues f s - ((s.lookup k).elim 0 f) :=
  sum_kerase f k s.entries

/-- An inserted value replaces the old one in the sum. -/
theorem sumValues_insert (f : V → Int) (s : AList fun _ : K => V) (k : K) (v : V) :
    sumValues f (s.insert k v) = sumValues f s - ((s.lookup k).elim 0 f) + f v := by
  have h := sum_kerase f k s.entries
  rw [sumValues, AList.entries_insert, List.map_cons, List.sum_cons, h]
  simp only [sumValues, AList.lookup]
  ring

/-- The sum depends only on what is found under each key. -/
theorem sumValues_congr (f : V → Int) {s t : AList fun _ : K => V}
    (h : ∀ k, s.lookup k = t.lookup k) : sumValues f s = sumValues f t := by
  have hp : s.entries.Perm t.entries :=
    List.lookup_ext s.nodupKeys t.nodupKeys fun k v => by
      rw [show s.entries.dlookup k = t.entries.dlookup k from h k]
  exact (hp.map _).sum_eq

end Maps

section Tables

variable {R : Type}

/-- Change the rows that a condition selects. -/
def updateWhere (sel : R → Bool) (change : R → R) (rows : List R) : List R :=
  rows.map fun r => if sel r then change r else r

/-- Adding an amount to every selected row adds it once for each of them. -/
theorem sum_updateWhere (f : R → Int) (sel : R → Bool) (change : R → R) (d : Int)
    (hc : ∀ r, sel r = true → f (change r) = f r + d) (rows : List R) :
    ((updateWhere sel change rows).map f).sum = (rows.map f).sum + rows.countP sel * d := by
  induction rows with
  | nil => simp [updateWhere]
  | cons r rows ih =>
    rw [updateWhere] at ih ⊢
    by_cases hs : sel r = true
    · simp only [List.map_cons, List.sum_cons, ih, hs, if_true, hc r hs,
        List.countP_cons_of_pos hs]
      push_cast
      ring
    · simp only [List.map_cons, List.sum_cons, ih, hs, if_false, List.countP_cons_of_neg hs,
        Bool.false_eq_true]
      ring

end Tables
end IMServer.Base
