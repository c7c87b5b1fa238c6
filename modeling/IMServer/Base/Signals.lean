import Mathlib.Data.Fintype.Card
import Mathlib.Data.Fintype.BigOperators

/-!
# Waiting for one of several resources

Library: threads that sleep until there is a resource for them, where every resource that comes in
wakes at least one of the sleepers. A thread may wake up by itself. Then there are always as many
woken threads as resources, or nobody sleeps: no resource lies there unnoticed.
-/

namespace IMServer.Base

universe u

/-- What a thread does at a condition variable. -/
inductive Rest where
  | away
  | asleep
  /-- It has been woken and not gone on yet. -/
  | woken
  deriving DecidableEq, Repr

namespace Rest

variable {ι : Type u} {r : ι → Rest}

section Signal

variable [DecidableEq ι]

/-- The chosen threads are woken if they sleep. -/
def signal (r : ι → Rest) (chosen : Finset ι) (i : ι) : Rest :=
  if r i = .asleep ∧ i ∈ chosen then .woken else r i

/-- At least one is chosen of those that sleep, if there are any. -/
def WakesOne (r : ι → Rest) (chosen : Finset ι) : Prop :=
  ∀ i, r i = .asleep → ∃ j ∈ chosen, r j = .asleep

instance [Fintype ι] (r : ι → Rest) (chosen : Finset ι) : Decidable (WakesOne r chosen) :=
  inferInstanceAs (Decidable (∀ i, r i = .asleep → ∃ j ∈ chosen, r j = .asleep))

/-- A signal moves nobody to or from work. -/
theorem signal_eq_away {chosen : Finset ι} {i : ι} : signal r chosen i = .away ↔ r i = .away := by
  unfold signal
  split
  · next h => simp [h.1]
  · exact Iff.rfl

/-- Who sleeps on was asleep. -/
theorem asleep_of_signal {chosen : Finset ι} {i : ι} (h : signal r chosen i = .asleep) :
    r i = .asleep := by
  unfold signal at h
  split at h
  · cases h
  · exact h

/-- Who is chosen does not sleep on. -/
theorem signal_of_mem {chosen : Finset ι} {i : ι} (h : i ∈ chosen) :
    signal r chosen i ≠ .asleep := by
  intro hs
  have hr := asleep_of_signal hs
  simp [signal, hr, h] at hs

end Signal

variable [Fintype ι]

/-- How many threads have been woken. -/
def wokenCount (r : ι → Rest) : Nat := (Finset.univ.filter fun i => r i = .woken).card

/-- There are no more woken than members. -/
theorem wokenCount_le_card (r : ι → Rest) : wokenCount r ≤ Fintype.card ι :=
  Finset.card_le_univ _

/-- Nobody is woken. -/
theorem wokenCount_eq_zero (h : ∀ i, r i ≠ .woken) : wokenCount r = 0 := by
  rw [wokenCount, Finset.card_eq_zero, Finset.filter_eq_empty_iff]
  exact fun i _ => h i

/-- There are as many woken threads as resources, or nobody sleeps. -/
def Enough (amount : Nat) (r : ι → Rest) : Prop := ∀ i, r i = .asleep → amount ≤ wokenCount r

/-- Nothing to do needs nobody. -/
theorem enough_zero (r : ι → Rest) : Enough 0 r := fun _ _ => Nat.zero_le _

private theorem Enough.mono {a b : Nat} (h : Enough b r) (hab : a ≤ b) : Enough a r :=
  fun i hi => hab.trans (h i hi)

variable [DecidableEq ι]

/-- A thread that is woken is one more. -/
theorem wokenCount_signal_lt {chosen : Finset ι} {i : ι} (hi : i ∈ chosen) (hr : r i = .asleep) :
    wokenCount r < wokenCount (signal r chosen) := by
  refine Finset.card_lt_card ⟨fun j hj => ?_, fun hsub => ?_⟩
  · have hj' := (Finset.mem_filter.mp hj).2
    simp [signal, hj']
  · have hmem : i ∈ Finset.univ.filter fun i => signal r chosen i = .woken := by
      simp [signal, hi, hr]
    have hw := (Finset.mem_filter.mp (hsub hmem)).2
    rw [hr] at hw
    cases hw

/-- One thread changes the number by one at most. -/
theorem wokenCount_le_update (i : ι) (x : Rest) :
    wokenCount r ≤ wokenCount (Function.update r i x) + 1 := by
  have hsub : (Finset.univ.filter fun j => r j = .woken) ⊆
      insert i (Finset.univ.filter fun j => Function.update r i x j = .woken) := by
    intro j hj
    by_cases hji : j = i
    · exact Finset.mem_insert.mpr (.inl hji)
    · refine Finset.mem_insert_of_mem (Finset.mem_filter.mpr ⟨Finset.mem_univ j, ?_⟩)
      rw [Function.update_of_ne hji]
      exact (Finset.mem_filter.mp hj).2
  exact (Finset.card_le_card hsub).trans (Finset.card_insert_le _ _)

/-- A woken member that goes on. -/
theorem wokenCount_update_lt {i : ι} {x : Rest} (hi : r i = .woken) (hx : x ≠ .woken) :
    wokenCount (Function.update r i x) < wokenCount r := by
  refine Finset.card_lt_card ⟨fun j hj => ?_, fun hsub => ?_⟩
  · by_cases hji : j = i
    · subst hji
      simp [hx] at hj
    · simpa [hji] using hj
  · have hmem := hsub (Finset.mem_filter.mpr ⟨Finset.mem_univ i, hi⟩)
    simp [hx] at hmem

/-- A resource comes in, and a sleeper is woken. -/
theorem Enough.signal {a : Nat} {chosen : Finset ι} (h : Enough a r) (hc : WakesOne r chosen) :
    Enough (a + 1) (signal r chosen) := by
  intro i hi
  have hr := asleep_of_signal hi
  obtain ⟨j, hj, hrj⟩ := hc i hr
  have hlt := wokenCount_signal_lt hj hrj
  have := h i hr
  omega

/-- A thread goes away with a resource. -/
theorem Enough.leave {a : Nat} (h : Enough (a + 1) r) (i : ι) :
    Enough a (Function.update r i .away) := by
  intro j hj
  by_cases hji : j = i
  · subst hji
    simp at hj
  · rw [Function.update_of_ne hji] at hj
    have hle := wokenCount_le_update (r := r) i .away
    have := h j hj
    omega

/-- A thread wakes up by itself. -/
theorem Enough.wake {a : Nat} (h : Enough a r) {i : ι} (hi : r i = .asleep) :
    Enough a (Function.update r i .woken) := by
  have hsame : Function.update r i .woken = Rest.signal r {i} := by
    funext j
    by_cases hji : j = i
    · subst hji
      simp [Rest.signal, hi]
    · simp [Rest.signal, hji]
  rw [hsame]
  exact (h.signal fun _ _ => ⟨i, Finset.mem_singleton_self i, hi⟩).mono (Nat.le_succ a)

end Rest

end IMServer.Base
