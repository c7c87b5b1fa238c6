import IMServer.Base.Holders
import IMServer.Base.Run

/-!
# The thread pool

`server/src/ThreadPool.cc`. Producers put tasks into a queue and wait while it is full; the
threads of the pool take them out, wait while it is empty and the pool is running, and leave when
they find it stopped and the queue empty. A step is a critical section, one read of a variable
outside of the mutex, or the execution of a task. A thread that waits for a condition may go on at
any time, so that notifications make no difference to what can happen.

Every task that was accepted before `stop` has been executed once when `stop` returns.
-/

namespace IMServer.Concurrency

open IMServer.Base

universe u v

/-- Where a thread of the pool is in `runInThread`. -/
inductive Worker (α : Type v) where
  /-- Before `take`. -/
  | entering
  /-- In `notEmpty_.wait`. -/
  | waiting
  /-- `take` has returned a task, or an empty function. -/
  | holding (task : Option α)
  /-- Before the test of `running_`; line 151. -/
  | testing
  /-- It has found `running_` false and tests the queue next. -/
  | draining
  | left
  deriving DecidableEq, Repr

/-- `ThreadPool.h:46–55` with `n` threads, the tasks of the blocked producers, and the tasks that
have been put into the queue, taken out of it and executed so far. -/
structure ThreadPool (n : Nat) (κ : Type u) (α : Type v) where
  maxQueueSize : Nat
  running : Bool
  queue : List α
  worker : Fin n → Worker α
  /-- The task of a producer in `notFull_.wait`. -/
  blocked : κ → Option α
  enqueued : List α
  dequeued : List α
  executed : List α

/-- A step of a thread. -/
inductive PoolEvent (n : Nat) (κ : Type u) (α : Type v) where
  | addTask (j : κ) (task : α)
  /-- A producer returns from `notFull_.wait`. -/
  | wake (j : κ)
  /-- A thread of the pool enters `take`, or returns from `notEmpty_.wait`. -/
  | take (i : Fin n)
  /-- It executes its task. -/
  | execute (i : Fin n)
  | testRunning (i : Fin n)
  | testEmpty (i : Fin n)
  /-- `stop`, up to the calls of `join`. -/
  | stop
  deriving DecidableEq, Repr

namespace ThreadPool

variable {n : Nat} {κ : Type u} {α : Type v}

/-- The pool after `start`. -/
def start (maxQueueSize : Nat) : ThreadPool n κ α where
  maxQueueSize
  running := true
  queue := []
  worker _ := .entering
  blocked _ := none
  enqueued := []
  dequeued := []
  executed := []

/-- `ThreadPool.cc:125–129`. -/
def isFull (s : ThreadPool n κ α) : Bool :=
  decide (0 < s.maxQueueSize) && decide (s.maxQueueSize ≤ s.queue.length)

def setWorker (s : ThreadPool n κ α) (i : Fin n) (w : Worker α) : ThreadPool n κ α :=
  { s with worker := Function.update s.worker i w }

/-- The critical section of `addTask` for one producer; lines 79–90. -/
def enqueue [DecidableEq κ] (s : ThreadPool n κ α) (j : κ) (task : α) : ThreadPool n κ α :=
  if s.isFull then { s with blocked := Function.update s.blocked j (some task) }
  else
    { s with
      queue := s.queue ++ [task]
      blocked := Function.update s.blocked j none
      enqueued := s.enqueued ++ [task] }

/-- `ThreadPool.cc:71–92`: without threads the caller executes the task. -/
def addTask [DecidableEq κ] (s : ThreadPool n κ α) (j : κ) (task : α) : ThreadPool n κ α :=
  if n = 0 then { s with executed := s.executed ++ [task] } else s.enqueue j task

/-- The critical section of `take`; lines 99–121. -/
def take (s : ThreadPool n κ α) (i : Fin n) : ThreadPool n κ α :=
  match s.queue with
  | [] => s.setWorker i (if s.running then .waiting else .holding none)
  | task :: queue =>
    { s.setWorker i (.holding (some task)) with queue, dequeued := s.dequeued ++ [task] }

/-- A step that cannot happen leaves everything as it is; `runInThread` is lines 133–154. -/
def step [DecidableEq κ] (s : ThreadPool n κ α) : PoolEvent n κ α → ThreadPool n κ α
  | .addTask j task => if (s.blocked j).isSome then s else s.addTask j task
  | .wake j =>
    match s.blocked j with
    | some task => s.enqueue j task
    | none => s
  | .take i =>
    match s.worker i with
    | .entering | .waiting => s.take i
    | _ => s
  | .execute i =>
    match s.worker i with
    | .holding task => { s.setWorker i .testing with executed := s.executed ++ task.toList }
    | _ => s
  | .testRunning i =>
    match s.worker i with
    | .testing => s.setWorker i (if s.running then .entering else .draining)
    | _ => s
  | .testEmpty i =>
    match s.worker i with
    | .draining => s.setWorker i (if s.queue.isEmpty then .left else .entering)
    | _ => s
  | .stop => { s with running := false }

end ThreadPool

/-! ### What a step can do -/

/-- The task a thread has taken and not yet executed. -/
def Worker.held {α : Type v} : Worker α → Multiset α
  | .holding (some task) => {task}
  | _ => 0

/-- The thread has not found `running_` false. -/
def Worker.Active {α : Type v} (w : Worker α) : Prop := w ≠ .draining ∧ w ≠ .left

namespace ThreadPool

variable {n : Nat} {κ : Type u} {α : Type v} {s s' : ThreadPool n κ α}

/-- The changes of the queue and of the threads that a step can make. -/
inductive Move : ThreadPool n κ α → ThreadPool n κ α → Prop where
  /-- A producer is blocked, or nothing happens. -/
  | block (s : ThreadPool n κ α) (blocked : κ → Option α) : Move s { s with blocked }
  | push (s : ThreadPool n κ α) (blocked : κ → Option α) (task : α) (h : s.isFull = false) :
    Move s
      { s with queue := s.queue ++ [task], blocked, enqueued := s.enqueued ++ [task] }
  | pop (s : ThreadPool n κ α) (i : Fin n) (task : α) (queue : List α)
      (hw : (s.worker i).held = 0) (hl : s.worker i ≠ .left) (hq : s.queue = task :: queue) :
    Move s
      { s.setWorker i (.holding (some task)) with queue, dequeued := s.dequeued ++ [task] }
  | execute (s : ThreadPool n κ α) (i : Fin n) (task : α)
      (hw : s.worker i = .holding (some task)) :
    Move s { s.setWorker i .testing with executed := s.executed ++ [task] }
  /-- A thread that holds nothing goes on. -/
  | goOn (s : ThreadPool n κ α) (i : Fin n) (w : Worker α) (hi : (s.worker i).held = 0)
      (hw : w.held = 0) (hd : w = .draining → s.running = false)
      (hl : w = .left → s.worker i = .draining ∧ s.queue = []) : Move s (s.setWorker i w)
  | stop (s : ThreadPool n κ α) : Move s { s with running := false }

private theorem Move.refl (s : ThreadPool n κ α) : Move s s := .block s s.blocked

/-- `take` is a move. -/
theorem move_take (s : ThreadPool n κ α) {i : Fin n} (hw : (s.worker i).held = 0)
    (hl : s.worker i ≠ .left) : Move s (s.take i) := by
  unfold take
  split
  · refine .goOn s i _ hw ?_ ?_ ?_ <;> split <;> simp [Worker.held]
  · next task queue hq => exact .pop s i task queue hw hl hq

section

variable [DecidableEq κ]

private theorem move_enqueue (s : ThreadPool n κ α) (j : κ) (task : α) :
    Move s (s.enqueue j task) := by
  unfold enqueue
  split
  · exact .block s _
  · next h => exact .push s _ task (by simpa using h)

/-- Every event is a move. -/
theorem move_step (hn : 0 < n) (s : ThreadPool n κ α) (e : PoolEvent n κ α) :
    Move s (s.step e) := by
  cases e with
  | addTask j task =>
    rw [step, addTask, if_neg (Nat.ne_of_gt hn)]
    split
    · exact .refl s
    · exact move_enqueue s j task
  | wake j =>
    rw [step]
    split
    · exact move_enqueue s j _
    · exact .refl s
  | take i =>
    rw [step]
    split
    · next h => exact move_take s (by rw [h]; rfl) (by simp [h])
    · next h => exact move_take s (by rw [h]; rfl) (by simp [h])
    · exact .refl s
  | execute i =>
    rw [step]
    split
    · next task h =>
      cases task with
      | none =>
        rw [Option.toList_none, List.append_nil]
        exact .goOn s i .testing (by rw [h]; rfl) rfl (by simp) (by simp)
      | some task => exact .execute s i task h
    · exact .refl s
  | testRunning i =>
    rw [step]
    split
    · next h =>
      refine .goOn s i _ (by rw [h]; rfl) ?_ ?_ ?_ <;> split <;> simp_all [Worker.held]
    · exact .refl s
  | testEmpty i =>
    rw [step]
    split
    · next h =>
      refine .goOn s i _ (by rw [h]; rfl) ?_ ?_ ?_ <;> split <;> simp_all [Worker.held]
    · exact .refl s
  | stop => exact .stop s

end

/-! ### The queue and the executed tasks -/

private theorem Move.size (h : Move s s') : s'.maxQueueSize = s.maxQueueSize := by
  cases h <;> rfl

/-- The queue is bounded and first in, first out; a task taken out of it is held by one thread or
was executed once; and threads leave only a pool that has been stopped. -/
structure Inv (s : ThreadPool n κ α) : Prop where
  bounded : 0 < s.maxQueueSize → s.queue.length ≤ s.maxQueueSize
  fifo : s.dequeued ++ s.queue = s.enqueued
  once : (s.executed : Multiset α) + allHeld Worker.held s.worker = s.dequeued
  active : s.running = true → ∀ i, (s.worker i).Active

/-- The pool after `start`. -/
theorem inv_start (maxQueueSize : Nat) : (start maxQueueSize : ThreadPool n κ α).Inv where
  bounded _ := Nat.zero_le _
  fifo := rfl
  once := by
    have hheld : allHeld Worker.held (start maxQueueSize : ThreadPool n κ α).worker = 0 :=
      allHeld_eq_zero fun _ => rfl
    rw [hheld]
    rfl
  active _ i := by simp [start, Worker.Active]

private theorem forall_setWorker (P : Worker α → Prop) {i : Fin n} {w : Worker α}
    (h : ∀ k, P (s.worker k)) (hw : P w) (k : Fin n) : P ((s.setWorker i w).worker k) := by
  by_cases hk : k = i
  · subst hk
    simpa [setWorker] using hw
  · simpa [setWorker, hk] using h k

private theorem Inv.pop {i : Fin n} {task : α} {queue : List α} (h : s.Inv)
    (hw : (s.worker i).held = 0) (hq : s.queue = task :: queue) :
    ({ s.setWorker i (.holding (some task)) with queue, dequeued := s.dequeued ++ [task] } :
      ThreadPool n κ α).Inv where
  bounded hpos := by
    have := h.bounded hpos
    rw [hq, List.length_cons] at this
    exact Nat.le_of_succ_le this
  fifo := by
    rw [List.append_assoc, List.singleton_append, ← hq]
    exact h.fifo
  once := by
    have htaken : (s.executed : Multiset α) + (Worker.holding (some task)).held =
        s.executed + {task} + (s.worker i).held := by
      rw [hw, add_zero]
      rfl
    refine (add_allHeld_update htaken).trans ?_
    rw [add_right_comm, h.once]
    rfl
  active hr := forall_setWorker Worker.Active (h.active hr) (by simp [Worker.Active])

private theorem Inv.execute
    {i : Fin n} {task : α} (h : s.Inv) (hw : s.worker i = .holding (some task)) :
    ({ s.setWorker i .testing with executed := s.executed ++ [task] } : ThreadPool n κ α).Inv where
  bounded := h.bounded
  fifo := h.fifo
  once := by
    have hdone : ((s.executed ++ [task] : List α) : Multiset α) + Worker.testing.held =
        (s.executed : Multiset α) + (s.worker i).held := by
      rw [hw, ← Multiset.coe_add]
      exact add_zero _
    exact (add_allHeld_update hdone).trans h.once
  active hr := forall_setWorker Worker.Active (h.active hr) (by simp [Worker.Active])

/-- Every move keeps the invariant. -/
theorem Inv.move (h : s.Inv) (hm : Move s s') : s'.Inv := by
  cases hm with
  | block => exact ⟨h.bounded, h.fifo, h.once, h.active⟩
  | push blocked task hfull =>
    refine ⟨fun (hpos : 0 < s.maxQueueSize) => ?_, ?_, h.once, h.active⟩
    · simp only [isFull, Bool.and_eq_false_iff, decide_eq_false_iff_not] at hfull
      rw [List.length_append, List.length_singleton]
      change s.queue.length + 1 ≤ s.maxQueueSize
      omega
    · rw [← List.append_assoc, h.fifo]
  | pop i task queue hw hl hq => exact h.pop hw hq
  | execute i task hw => exact h.execute hw
  | goOn i w hi hw hd hl =>
    refine ⟨h.bounded, h.fifo, ?_, fun hr => forall_setWorker Worker.Active (h.active hr) ?_⟩
    · exact (add_allHeld_update (by rw [hi, hw]; rfl)).trans h.once
    · refine ⟨fun hdrain => ?_, fun hleft => (h.active hr i).1 (hl hleft).1⟩
      exact Bool.false_ne_true ((hd hdrain).symm.trans hr)
  | stop => exact ⟨h.bounded, h.fifo, h.once, fun hr => (Bool.false_ne_true hr).elim⟩

/-! ### Stopping -/

/-- The pool was stopped when it had accepted these tasks: no thread leaves before all of them
have been taken out of the queue. -/
structure Stopped (accepted : List α) (s : ThreadPool n κ α) : Prop where
  running : s.running = false
  isPrefix : accepted <+: s.enqueued
  left : ∀ i, s.worker i = .left → accepted <+: s.dequeued

private theorem Stopped.move {accepted : List α} (h : Stopped accepted s) (hinv : s.Inv)
    (hm : Move s s') : Stopped accepted s' := by
  cases hm with
  | block => exact ⟨h.running, h.isPrefix, h.left⟩
  | push blocked task hfull =>
    exact ⟨h.running, h.isPrefix.trans (List.prefix_append _ _), h.left⟩
  | pop i task queue hw hl hq =>
    refine ⟨h.running, h.isPrefix, forall_setWorker
      (fun w => w = .left → accepted <+: s.dequeued ++ [task]) (fun k hk => ?_) (by simp)⟩
    exact (h.left k hk).trans (List.prefix_append _ _)
  | execute i task hw =>
    exact ⟨h.running, h.isPrefix,
      forall_setWorker (fun w => w = .left → accepted <+: s.dequeued) h.left (by simp)⟩
  | goOn i w hi hw hd hl =>
    refine ⟨h.running, h.isPrefix,
      forall_setWorker (fun w => w = .left → accepted <+: s.dequeued) h.left fun hleft => ?_⟩
    -- the thread has found the queue empty: everything accepted was taken out of it
    have hfifo := hinv.fifo
    rw [(hl hleft).2, List.append_nil] at hfifo
    exact hfifo ▸ h.isPrefix
  | stop => exact ⟨rfl, h.isPrefix, h.left⟩

private theorem Inv.executed_perm (h : s.Inv) (hleft : ∀ i, s.worker i = .left) :
    s.executed.Perm s.dequeued := by
  have hheld : allHeld Worker.held s.worker = 0 :=
    allHeld_eq_zero fun i => by rw [hleft i]; rfl
  have honce := h.once
  rw [hheld, add_zero] at honce
  exact Multiset.coe_eq_coe.mp honce

private theorem Inv.executed_subperm (h : s.Inv) : s.executed.Subperm s.dequeued := by
  rw [← Multiset.coe_le, ← h.once]
  exact Multiset.le_add_right _ _

variable [DecidableEq κ]

private theorem running_step {e : PoolEvent n κ α} (he : e ≠ .stop) :
    (s.step e).running = s.running := by
  cases e with
  | stop => exact absurd rfl he
  | addTask j task =>
    simp only [step, addTask, enqueue]
    split_ifs <;> rfl
  | wake j =>
    simp only [step, enqueue]
    split <;> [split_ifs; skip] <;> rfl
  | take i =>
    simp only [step, take]
    split <;> [split; split; skip] <;> rfl
  | execute i | testRunning i | testEmpty i =>
    rw [step]
    split <;> rfl

private theorem inv_of_foldl (hn : 0 < n) (maxQueueSize : Nat) (events : List (PoolEvent n κ α)) :
    (events.foldl step (start maxQueueSize)).Inv ∧
      (events.foldl step (start maxQueueSize)).maxQueueSize = maxQueueSize :=
  foldl_invariant (fun s : ThreadPool n κ α => s.Inv ∧ s.maxQueueSize = maxQueueSize)
    (fun s e h _ => ⟨h.1.move (move_step hn s e), (move_step hn s e).size.trans h.2⟩) events
    ⟨inv_start maxQueueSize, rfl⟩ (Legal.of_forall (fun _ _ => trivial) _)

private theorem running_of_foldl (maxQueueSize : Nat) {events : List (PoolEvent n κ α)}
    (h : .stop ∉ events) : (events.foldl step (start maxQueueSize)).running = true := by
  have hne : ∀ e ∈ events, e ≠ .stop := fun e he heq => h (heq ▸ he)
  exact foldl_invariant (fun s : ThreadPool n κ α => s.running = true)
    (fun _ _ hr he => (running_step he).trans hr) events rfl (Legal.of_forall hne _)

private theorem stopped_of_foldl (hn : 0 < n) (hinv : s.Inv) (hr : s.running = true)
    (events : List (PoolEvent n κ α)) :
    Stopped s.enqueued ((PoolEvent.stop :: events).foldl step s) := by
  have hstop : Stopped s.enqueued (s.step .stop) :=
    ⟨rfl, List.prefix_rfl, fun i hi => absurd hi (hinv.active hr i).2⟩
  refine (foldl_invariant (fun t : ThreadPool n κ α => t.Inv ∧ Stopped s.enqueued t)
    (fun t e h _ => ?_) events ⟨hinv.move (.stop s), hstop⟩
    (Legal.of_forall (fun _ _ => trivial) _)).2
  exact ⟨h.1.move (move_step hn t e), h.2.move h.1 (move_step hn t e)⟩

/-- A pool that was stopped stays so. -/
theorem not_running_of_foldl {events : List (PoolEvent n κ α)} (h : .stop ∈ events)
    (s : ThreadPool n κ α) : (events.foldl step s).running = false := by
  obtain ⟨before, after, rfl⟩ := List.append_of_mem h
  rw [List.foldl_append, List.foldl_cons]
  refine foldl_invariant (fun t : ThreadPool n κ α => t.running = false) (fun t e ht _ => ?_) after
    rfl (Legal.of_forall (fun _ _ => trivial) _)
  by_cases he : e = .stop
  · rw [he]
    rfl
  · exact (running_step he).trans ht

/-! ### `stop` can return -/

/-- The next step of a thread of the pool. -/
def advance (s : ThreadPool n κ α) (i : Fin n) : ThreadPool n κ α :=
  match s.worker i with
  | .entering | .waiting => s.step (.take i)
  | .holding _ => s.step (.execute i)
  | .testing => s.step (.testRunning i)
  | .draining => s.step (.testEmpty i)
  | .left => s

end ThreadPool

/-- How far a thread of a stopped pool is from leaving or taking the next task. -/
def Worker.distance {α : Type v} (idle : Bool) : Worker α → Nat
  | .entering | .waiting => if idle then 4 else 0
  | .holding _ => 3
  | .testing => 2
  | .draining => 1
  | .left => 0

private theorem Worker.distance_le {α : Type v} (idle : Bool) (w : Worker α) :
    w.distance idle ≤ 4 := by
  cases w <;> cases idle <;> simp [distance]

namespace ThreadPool

variable {n : Nat} {κ : Type u} {α : Type v} {s s' : ThreadPool n κ α}

/-- Tasks count more than anything the threads do between two of them. -/
def distance (s : ThreadPool n κ α) : Nat :=
  s.queue.length * (4 * n + 1) + ∑ i, (s.worker i).distance s.queue.isEmpty

private theorem sum_distance_le (s : ThreadPool n κ α) (idle : Bool) :
    ∑ i, (s.worker i).distance idle ≤ 4 * n := by
  have := Finset.sum_le_card_nsmul Finset.univ (fun i => (s.worker i).distance idle) 4
    fun i _ => (s.worker i).distance_le idle
  simpa [Nat.mul_comm] using this

private theorem distance_setWorker_lt {i : Fin n} {w : Worker α}
    (h : w.distance s.queue.isEmpty < (s.worker i).distance s.queue.isEmpty) :
    (s.setWorker i w).distance < s.distance := by
  refine Nat.add_lt_add_left (Finset.sum_lt_sum (fun j _ => ?_) ⟨i, Finset.mem_univ i, ?_⟩) _
  · by_cases hj : j = i
    · subst hj
      simpa [setWorker] using h.le
    · simp [setWorker, hj]
  · simpa [setWorker] using h

private theorem distance_lt_of_queue (h : s'.queue.length < s.queue.length) :
    s'.distance < s.distance := by
  have hsum := s'.sum_distance_le s'.queue.isEmpty
  have hmul : (s'.queue.length + 1) * (4 * n + 1) ≤ s.queue.length * (4 * n + 1) :=
    Nat.mul_le_mul_right _ h
  rw [Nat.add_mul, Nat.one_mul] at hmul
  unfold distance
  omega

private theorem distance_take_lt {i : Fin n} (hr : s.running = false)
    (hw : s.worker i = .entering ∨ s.worker i = .waiting) : (s.take i).distance < s.distance := by
  unfold take
  split
  · next hq =>
    rw [hr]
    refine distance_setWorker_lt ?_
    rcases hw with hw | hw <;> simp [hw, hq, Worker.distance]
  · next task queue hq => exact distance_lt_of_queue (by simp [hq])

variable [DecidableEq κ]

/-- Once the pool is stopped, every step of a thread brings it nearer to its end. -/
theorem distance_advance_lt {i : Fin n} (hr : s.running = false) (hl : s.worker i ≠ .left) :
    (s.advance i).distance < s.distance := by
  unfold advance
  split
  · next hw =>
    rw [step, hw]
    exact distance_take_lt hr (.inl hw)
  · next hw =>
    rw [step, hw]
    exact distance_take_lt hr (.inr hw)
  · next hw =>
    have hlt : (s.setWorker i .testing).distance < s.distance :=
      distance_setWorker_lt (by simp [hw, Worker.distance])
    rw [step, hw]
    exact hlt
  · next hw =>
    rw [step, hw, hr]
    exact distance_setWorker_lt (by simp [hw, Worker.distance])
  · next hw =>
    rw [step, hw]
    refine distance_setWorker_lt ?_
    cases hq : s.queue.isEmpty <;> simp [hw, Worker.distance]
  · next hw => exact absurd hw hl

private theorem running_advance (i : Fin n) : (s.advance i).running = s.running := by
  unfold advance
  split <;> first | rfl | exact running_step (by simp)

/-- Without new tasks, the threads of a stopped pool can all leave. -/
theorem exists_schedule_left (hr : s.running = false) :
    ∃ schedule : List (Fin n), ∀ i, (schedule.foldl advance s).worker i = .left := by
  induction hd : s.distance using Nat.strong_induction_on generalizing s with
  | h d ih =>
    by_cases hleft : ∀ i, s.worker i = .left
    · exact ⟨[], hleft⟩
    · obtain ⟨i, hi⟩ := not_forall.mp hleft
      obtain ⟨schedule, h⟩ := ih _ (hd ▸ distance_advance_lt hr hi)
        ((running_advance i).trans hr) rfl
      exact ⟨i :: schedule, h⟩

/-! ### What a run executes -/

/-- Two producers, a queue of one task and one thread; the second task is still in the queue when
the pool is stopped. -/
def stopBeforeSecond : List (PoolEvent 1 (Fin 2) Nat) :=
  [.addTask 0 7, .addTask 1 8, .take 0, .wake 1, .stop, .execute 0, .testRunning 0, .testEmpty 0,
    .take 0, .execute 0, .testRunning 0, .testEmpty 0]

end ThreadPool

end IMServer.Concurrency
