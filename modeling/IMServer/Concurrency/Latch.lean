import IMServer.Base.Monitor
import IMServer.Base.Run

/-!
# Latches

`server/src/CountDownLatch.cc`, with the `MutexLock` and the `Condition` it is made of
(`Mutex.h:11–110`, `Condition.h:24–41`): any number of threads call `wait` and `countDown`, and
may wake up without a notification.
-/

namespace IMServer.Concurrency

open IMServer.Base

/-- `CountDownLatch::wait` and `CountDownLatch::countDown`. -/
inductive LatchOp where
  | wait
  | countDown
  deriving DecidableEq, Repr

/-- `CountDownLatch.cc:10–27`; the data is `count_`, an `int` in the source, which it would take 2³¹
calls of `countDown` to run below its range. -/
def latchSpec : MonitorSpec LatchOp Int where
  guard
    | .wait, count => !decide (0 < count)
    | .countDown, _ => true
  effect
    | .wait, count => count
    | .countDown, count => count - 1
  notify
    | .wait, _ => .nobody
    | .countDown, count => if count = 0 then .all else .nobody

/-- The latch and the threads that use it. -/
abbrev CountDownLatch (ι : Type) := Monitor ι LatchOp Int

namespace CountDownLatch

variable {ι : Type} [DecidableEq ι]

/-- How often `countDown` has been executed. -/
def countDowns (log : List (ι × LatchOp)) : Nat := log.countP fun x => x.2 = .countDown

omit [DecidableEq ι] in
private theorem foldl_effect (log : List (ι × LatchOp)) (count : Int) :
    log.foldl (fun c x => latchSpec.effect x.2 c) count = count - countDowns log := by
  induction log generalizing count with
  | nil => simp [countDowns]
  | cons x log ih =>
    obtain ⟨i, op⟩ := x
    rw [List.foldl_cons, ih]
    cases op with
    | wait => simp [latchSpec, countDowns]
    | countDown =>
      simp only [latchSpec, countDowns, List.countP_cons, decide_true, if_true]
      omega

/-- A thread that makes the count zero notifies all. -/
theorem latch_alerts (b op : LatchOp) (d : Int) (h : latchSpec.guard op d = false)
    (h' : latchSpec.guard op (latchSpec.effect b d) = true) :
    latchSpec.notify b (latchSpec.effect b d) = .all := by
  cases op with
  | countDown => cases h
  | wait =>
    cases b with
    | wait =>
      simp only [latchSpec] at h h'
      rw [h] at h'
      cases h'
    | countDown =>
      simp only [latchSpec, Bool.not_eq_eq_eq_not, Bool.not_false, Bool.not_true,
        decide_eq_true_eq, decide_eq_false_iff_not] at h h' ⊢
      rw [if_pos (by omega)]

/-- Every call of `wait` that has returned, or is about to, came after enough calls of
`countDown`. -/
def Ordered (count : Int) (log : List (ι × LatchOp)) : Prop :=
  ∀ before i after, log = before ++ (i, .wait) :: after → count ≤ countDowns before

/-- What every step keeps. -/
structure Inv (count : Int) (m : CountDownLatch ι) : Prop where
  locked : m.Locked
  noMissed : m.NoMissed latchSpec
  replays : m.Replays latchSpec count
  ordered : Ordered count m.log

variable {count : Int} {m : CountDownLatch ι}

omit [DecidableEq ι] in
/-- What is left of the count. -/
theorem Inv.data_eq (h : Inv count m) : m.data = count - countDowns m.log := by
  rw [h.replays, foldl_effect]

omit [DecidableEq ι] in
/-- The log grows by an operation whose guard holds. -/
theorem Inv.ordered_append (h : Inv count m) (i : ι) {op : LatchOp}
    (hg : latchSpec.guard op m.data = true) : Ordered count (m.log ++ [(i, op)]) := by
  intro before j after heq
  rcases List.eq_nil_or_concat after with rfl | ⟨after', x, rfl⟩
  · obtain ⟨hlog, hx⟩ := List.append_inj' heq rfl
    cases hx
    have hd := h.data_eq
    simp only [latchSpec, Bool.not_eq_eq_eq_not, Bool.not_true, decide_eq_false_iff_not] at hg
    rw [← hlog]
    omega
  · rw [List.concat_eq_append, ← List.cons_append, ← List.append_assoc] at heq
    exact h.ordered before j after' (List.append_inj' heq rfl).1

/-- Every event keeps the invariant. -/
theorem Inv.step (h : Inv count m) {e : MonitorEvent ι LatchOp} (he : m.Honest latchSpec e) :
    Inv count (m.step latchSpec e) := by
  refine ⟨h.locked.step e, h.noMissed.step h.locked (fun b op d hg hg' => ?_) he, h.replays.step e,
    ?_⟩
  · exact .inl (latch_alerts b op d hg hg')
  · cases e <;> simp only [Monitor.step]
    case body i woken =>
      split
      · split
        · next hg => exact h.ordered_append i hg
        · exact h.ordered
      · exact h.ordered
    all_goals
      split
      all_goals exact h.ordered

omit [DecidableEq ι] in
/-- A new latch. -/
theorem inv_new (count : Int) : Inv count ({ data := count } : CountDownLatch ι) := by
  refine ⟨⟨by simp [MonitorPosition.holds], by simp [MonitorPosition.recorded]⟩, ?_, rfl, ?_⟩
  · intro i op hi
    simp at hi
  · intro before i after h
    simp at h

/-- In every interleaving of any number of threads, whoever wakes up by itself: `count_` is the
initial count less the calls of `countDown` executed, no call of `wait` gets through before there
were as many of them as the initial count, and from then on no thread sleeps or is about to.
`holder_` names the one thread that is in its operation, and nobody otherwise. -/
theorem latch_opens_when_counted (count : Int) (events : List (MonitorEvent ι LatchOp))
    (he : Legal (fun m e => some (Monitor.step latchSpec m e)) (Monitor.Honest latchSpec)
      ({ data := count } : CountDownLatch ι) events) :
    let m := events.foldl (Monitor.step latchSpec) { data := count }
    m.data = count - countDowns m.log ∧
      (∀ before i after, m.log = before ++ (i, .wait) :: after → count ≤ countDowns before) ∧
      (count ≤ countDowns m.log → ∀ i op, m.position i ≠ .asleep op ∧
        m.position i ≠ .finishing op true ∧ m.position i ≠ .leaving op true) ∧
      (∀ i, m.holder = some i ↔ (m.position i).recorded = true) ∧
      ∀ i j, (m.position i).holds = true → (m.position j).holds = true → i = j := by
  intro m
  have hinv : Inv count m :=
    foldl_invariant (Inv count) (fun _ _ h he => h.step he) events (inv_new count) he
  refine ⟨hinv.data_eq, hinv.ordered, fun hc i op => ?_, fun i => (hinv.locked.holder i).symm,
    fun i j => hinv.locked.eq⟩
  have hopen : latchSpec.guard op m.data = true := by
    have hd := hinv.data_eq
    cases op with
    | wait =>
      simp only [latchSpec, Bool.not_eq_eq_eq_not, Bool.not_true, decide_eq_false_iff_not]
      omega
    | countDown => rfl
  have hno := fun hp => Bool.eq_false_iff.mp (hinv.noMissed i op hp) hopen
  exact ⟨fun hp => hno (.inl hp), fun hp => hno (.inr (.inl hp)), fun hp => hno (.inr (.inr hp))⟩

/-- One thread waits, another counts down, and the first one gets through. -/
def waitThenCount : List (MonitorEvent Bool LatchOp) :=
  let all : Bool → Bool := fun _ => true
  [.call true .wait, .acquire true, .assignHolder true, .body true all, .unassignHolder true,
    .release true, .call false .countDown, .acquire false, .assignHolder false, .body false all,
    .unassignHolder false, .release false, .acquire true, .assignHolder true, .body true all]

/-- Two threads. -/
theorem latch_opens_when_counted_two :
    let m := waitThenCount.foldl (Monitor.step latchSpec) { data := 1 }
    m.data = 0 ∧ m.holder = some true ∧ 1 ≤ countDowns m.log ∧
      ∀ i op, m.position i ≠ .asleep op := by
  intro m
  have he : Legal (fun m e => some (Monitor.step latchSpec m e)) (Monitor.Honest latchSpec)
      ({ data := 1 } : CountDownLatch Bool) waitThenCount :=
    ⟨trivial, trivial, trivial, trivial, trivial, trivial, trivial, trivial, trivial,
      fun _ _ => rfl, trivial, trivial, trivial, trivial, trivial, trivial⟩
  obtain ⟨-, -, hawake, -⟩ := latch_opens_when_counted 1 waitThenCount he
  have hcount : 1 ≤ countDowns m.log := by decide
  exact ⟨rfl, rfl, hcount, fun i op => (hawake (by exact_mod_cast hcount) i op).1⟩

end CountDownLatch

end IMServer.Concurrency
