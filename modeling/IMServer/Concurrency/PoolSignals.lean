import IMServer.Base.Signals
import IMServer.Concurrency.ThreadPool

/-!
# The signals of the thread pool

`server/src/ThreadPool.cc` with its condition variables: a thread in `notEmpty_.wait` or in
`notFull_.wait` goes on only when it has been woken. `addTask` wakes at least one thread of the
pool, `take` at least one producer if the queue is bounded, and `stop` all threads of the pool;
anybody may wake up by itself. Without the signals a step is one of `ThreadPool`.

A running pool comes to rest only when everything that was given to `addTask` has been executed,
and it does so after a number of steps.
-/

namespace IMServer.Concurrency

open IMServer.Base
open IMServer.Base.Rest (signal WakesOne Enough wokenCount enough_zero signal_eq_away
  asleep_of_signal signal_of_mem wokenCount_eq_zero wokenCount_le_card wokenCount_update_lt)

universe u v

/-- The pool and its two condition variables, `ThreadPool.h:47–48`. -/
structure SignalPool (n : Nat) (κ : Type u) (α : Type v) where
  pool : ThreadPool n κ α
  notEmpty : Fin n → Rest
  notFull : κ → Rest

/-- A step of a thread, with the choice whom it wakes. -/
inductive SignalEvent (n : Nat) (κ : Type u) (α : Type v) where
  | addTask (j : κ) (task : α) (woken : Finset (Fin n))
  /-- A producer that has been woken returns from `notFull_.wait`. -/
  | wake (j : κ) (woken : Finset (Fin n))
  /-- A thread of the pool enters `take`, or returns from `notEmpty_.wait`. -/
  | take (i : Fin n) (woken : Finset κ)
  | execute (i : Fin n)
  | testRunning (i : Fin n)
  | testEmpty (i : Fin n)
  | stop
  /-- A thread wakes up by itself. -/
  | rouse (i : Fin n)
  | rouseProducer (j : κ)

namespace SignalPool

variable {n : Nat} {κ : Type u} {α : Type v}

/-- The pool after `start`. -/
def start (maxQueueSize : Nat) : SignalPool n κ α where
  pool := .start maxQueueSize
  notEmpty _ := .away
  notFull _ := .away

section Step

variable [DecidableEq κ]

/-- The critical section of `addTask`; `ThreadPool.cc:79–90`. -/
def enqueue (s : SignalPool n κ α) (j : κ) (task : α) (woken : Finset (Fin n)) :
    SignalPool n κ α :=
  if s.pool.isFull then
    { s with pool := s.pool.enqueue j task, notFull := Function.update s.notFull j .asleep }
  else
    { pool := s.pool.enqueue j task
      notEmpty := signal s.notEmpty woken
      notFull := Function.update s.notFull j .away }

/-- The critical section of `take`; lines 99–121. -/
def take (s : SignalPool n κ α) (i : Fin n) (woken : Finset κ) : SignalPool n κ α :=
  if s.pool.queue.isEmpty then
    { s with
      pool := s.pool.take i
      notEmpty := Function.update s.notEmpty i (if s.pool.running then .asleep else .away) }
  else
    { pool := s.pool.take i
      notEmpty := Function.update s.notEmpty i .away
      notFull := if 0 < s.pool.maxQueueSize then signal s.notFull woken else s.notFull }

/-- A step that cannot happen leaves everything as it is. -/
def step (s : SignalPool n κ α) : SignalEvent n κ α → SignalPool n κ α
  | .addTask j task woken =>
    if (s.pool.blocked j).isSome then s
    else if n = 0 then { s with pool := s.pool.addTask j task }
    else s.enqueue j task woken
  | .wake j woken =>
    match s.pool.blocked j, s.notFull j with
    | some task, .woken => s.enqueue j task woken
    | _, _ => s
  | .take i woken =>
    match s.pool.worker i, s.notEmpty i with
    | .entering, _ | .waiting, .woken => s.take i woken
    | _, _ => s
  | .execute i => { s with pool := s.pool.step (.execute i) }
  | .testRunning i => { s with pool := s.pool.step (.testRunning i) }
  | .testEmpty i => { s with pool := s.pool.step (.testEmpty i) }
  | .stop => { s with pool := s.pool.step .stop, notEmpty := signal s.notEmpty Finset.univ }
  | .rouse i =>
    if s.notEmpty i = .asleep then
      { s with notEmpty := Function.update s.notEmpty i .woken }
    else s
  | .rouseProducer j =>
    if s.notFull j = .asleep then { s with notFull := Function.update s.notFull j .woken } else s

end Step

section Refines

variable [DecidableEq κ]

private theorem pool_enqueue (s : SignalPool n κ α) (j : κ) (task : α) (woken : Finset (Fin n)) :
    (s.enqueue j task woken).pool = s.pool.enqueue j task := by
  unfold enqueue
  split <;> rfl

private theorem pool_take (s : SignalPool n κ α) (i : Fin n) (woken : Finset κ) :
    (s.take i woken).pool = s.pool.take i := by
  unfold take
  split <;> rfl

/-- Without the signals a step is one of the pool, or nothing. -/
theorem pool_step (s : SignalPool n κ α) (e : SignalEvent n κ α) :
    (s.step e).pool = s.pool ∨ ∃ e', (s.step e).pool = s.pool.step e' := by
  cases e with
  | addTask j task woken =>
    refine .inr ⟨.addTask j task, ?_⟩
    simp only [step, ThreadPool.step, ThreadPool.addTask]
    split_ifs
    · rfl
    · rfl
    · exact pool_enqueue s j task woken
  | wake j woken =>
    simp only [step]
    split
    · next task hb _ =>
      refine .inr ⟨.wake j, ?_⟩
      simp only [ThreadPool.step, hb]
      exact pool_enqueue s j task woken
    · exact .inl rfl
  | take i woken =>
    simp only [step]
    split
    · next hi =>
      refine .inr ⟨.take i, ?_⟩
      simp only [ThreadPool.step, hi]
      exact pool_take s i woken
    · next hi _ =>
      refine .inr ⟨.take i, ?_⟩
      simp only [ThreadPool.step, hi]
      exact pool_take s i woken
    · exact .inl rfl
  | execute i => exact .inr ⟨.execute i, rfl⟩
  | testRunning i => exact .inr ⟨.testRunning i, rfl⟩
  | testEmpty i => exact .inr ⟨.testEmpty i, rfl⟩
  | stop => exact .inr ⟨.stop, rfl⟩
  | rouse i | rouseProducer j =>
    simp only [step]
    split <;> exact .inl rfl

/-- A run with the signals is a run of the pool. -/
theorem exists_pool_run (events : List (SignalEvent n κ α)) (s : SignalPool n κ α) :
    ∃ events' : List (PoolEvent n κ α),
      (events.foldl step s).pool = events'.foldl ThreadPool.step s.pool := by
  induction events generalizing s with
  | nil => exact ⟨[], rfl⟩
  | cons e events ih =>
    obtain ⟨events', h⟩ := ih (s.step e)
    rw [List.foldl_cons, h]
    rcases pool_step s e with hs | ⟨e', hs⟩
    · exact ⟨events', by rw [hs]⟩
    · exact ⟨e' :: events', by rw [hs, List.foldl_cons]⟩

end Refines

/-- `pthread_cond_signal` wakes at least one of the threads that wait. -/
def Allowed (s : SignalPool n κ α) : SignalEvent n κ α → Prop
  | .addTask _ _ woken | .wake _ woken => WakesOne s.notEmpty woken
  | .take _ woken => WakesOne s.notFull woken
  | _ => True

variable [Fintype κ]

instance [DecidableEq κ] (s : SignalPool n κ α) : ∀ e, Decidable (s.Allowed e)
  | .addTask _ _ woken | .wake _ woken => inferInstanceAs (Decidable (WakesOne s.notEmpty woken))
  | .take _ woken => inferInstanceAs (Decidable (WakesOne s.notFull woken))
  | .execute _ | .testRunning _ | .testEmpty _ | .stop | .rouse _ | .rouseProducer _ =>
    .isTrue trivial

/-! ### Nobody sleeps while there is work -/

/-- What every step keeps. -/
structure Inv (s : SignalPool n κ α) : Prop where
  pool : s.pool.Inv
  /-- A task in the queue has a thread that was woken for it, or no thread sleeps. -/
  workers : Enough s.pool.queue.length s.notEmpty
  /-- The same for the free places of the queue and the producers. -/
  producers : Enough (s.pool.maxQueueSize - s.pool.queue.length) s.notFull
  waiting : ∀ i, s.notEmpty i = .away ↔ s.pool.worker i ≠ .waiting
  blocked : ∀ j, s.notFull j = .away ↔ s.pool.blocked j = none
  /-- Producers wait only for a bounded queue. -/
  limited : ∀ j, s.notFull j ≠ .away → 0 < s.pool.maxQueueSize
  stopped : s.pool.running = false → ∀ i, s.notEmpty i ≠ .asleep

private theorem inv_start (maxQueueSize : Nat) : (start maxQueueSize : SignalPool n κ α).Inv where
  pool := ThreadPool.inv_start maxQueueSize
  workers := enough_zero _
  producers _ h := nomatch h
  waiting _ := ⟨fun _ => nofun, fun _ => rfl⟩
  blocked _ := ⟨fun _ => rfl, fun _ => rfl⟩
  limited _ h := absurd rfl h
  stopped h := nomatch h

section Inv

variable [DecidableEq κ] {s : SignalPool n κ α}

/-- A producer finds the queue full. -/
theorem Inv.block (h : s.Inv) (j : κ) (task : α) (hfull : s.pool.isFull = true) :
    { s with
      pool := { s.pool with blocked := Function.update s.pool.blocked j (some task) }
      notFull := Function.update s.notFull j .asleep }.Inv := by
  have hlen : 0 < s.pool.maxQueueSize ∧ s.pool.maxQueueSize ≤ s.pool.queue.length := by
    simpa [ThreadPool.isFull] using hfull
  have hzero : s.pool.maxQueueSize - s.pool.queue.length = 0 := Nat.sub_eq_zero_of_le hlen.2
  refine ⟨h.pool.move (.block s.pool _), h.workers, ?_, h.waiting, fun k => ?_, fun _ _ => hlen.1,
    h.stopped⟩
  · change Enough (s.pool.maxQueueSize - s.pool.queue.length) _
    rw [hzero]
    exact enough_zero _
  · by_cases hk : k = j
    · subst hk
      simp
    · simpa [hk] using h.blocked k

/-- A producer puts its task into the queue and wakes a thread. -/
theorem Inv.push (h : s.Inv) (j : κ) (task : α) {woken : Finset (Fin n)}
    (hw : WakesOne s.notEmpty woken) (hfull : s.pool.isFull = false) :
    SignalPool.Inv
      { pool := { s.pool with
          queue := s.pool.queue ++ [task]
          blocked := Function.update s.pool.blocked j none
          enqueued := s.pool.enqueued ++ [task] }
        notEmpty := signal s.notEmpty woken
        notFull := Function.update s.notFull j .away } := by
  have hlen : s.pool.maxQueueSize = 0 ∨ s.pool.queue.length < s.pool.maxQueueSize := by
    simp only [ThreadPool.isFull, Bool.and_eq_false_iff, decide_eq_false_iff_not] at hfull
    omega
  refine ⟨h.pool.move (.push s.pool _ task hfull), ?_, ?_, fun i => ?_, fun k => ?_, fun k hk => ?_,
    fun hr i hi => h.stopped hr i (asleep_of_signal hi)⟩
  · simp only [List.length_append, List.length_singleton]
    exact h.workers.signal hw
  · simp only [List.length_append, List.length_singleton]
    rcases hlen with hzero | hlt
    · rw [hzero, Nat.zero_sub]
      exact enough_zero _
    · -- one place less, and one producer less that waits for it
      have hplaces : s.pool.maxQueueSize - s.pool.queue.length =
          s.pool.maxQueueSize - (s.pool.queue.length + 1) + 1 := by omega
      have hp := h.producers
      rw [hplaces] at hp
      exact hp.leave j
  · exact signal_eq_away.trans (h.waiting i)
  · by_cases hk : k = j
    · subst hk
      simp
    · simpa [hk] using h.blocked k
  · by_cases hkj : k = j
    · subst hkj
      simp at hk
    · exact h.limited k (by simpa [hkj] using hk)

private theorem Inv.enqueue (h : s.Inv) (j : κ) (task : α) {woken : Finset (Fin n)}
    (hw : WakesOne s.notEmpty woken) : (s.enqueue j task woken).Inv := by
  cases hfull : s.pool.isFull with
  | true =>
    simp only [SignalPool.enqueue, ThreadPool.enqueue, hfull, if_true]
    exact h.block j task hfull
  | false =>
    simp only [SignalPool.enqueue, ThreadPool.enqueue, hfull, Bool.false_eq_true, if_false]
    exact h.push j task hw hfull

/-- A thread that comes to `take` holds no task and has not left. -/
theorem Inv.take (h : s.Inv) {i : Fin n} {woken : Finset κ} (hw : WakesOne s.notFull woken)
    (hi : s.pool.worker i = .entering ∨ s.pool.worker i = .waiting) : (s.take i woken).Inv := by
  have hheld : (s.pool.worker i).held = 0 := by rcases hi with hi | hi <;> rw [hi] <;> rfl
  have hleft : s.pool.worker i ≠ .left := by rcases hi with hi | hi <;> rw [hi] <;> nofun
  have hpool := h.pool.move (ThreadPool.move_take s.pool hheld hleft)
  cases hq : s.pool.queue with
  | nil =>
    simp only [SignalPool.take, ThreadPool.take, hq, List.isEmpty_nil, if_true] at hpool ⊢
    refine ⟨hpool, ?_, h.producers, fun k => ?_, h.blocked, h.limited, fun hr k => ?_⟩
    · simp only [ThreadPool.setWorker, hq, List.length_nil]
      exact enough_zero _
    · by_cases hk : k = i
      · subst hk
        cases s.pool.running <;> simp [ThreadPool.setWorker]
      · simpa [ThreadPool.setWorker, hk] using h.waiting k
    · have hr' : s.pool.running = false := hr
      by_cases hk : k = i
      · subst hk
        simp [hr']
      · simpa [hk] using h.stopped hr' k
  | cons task queue =>
    have hlen : s.pool.queue.length = queue.length + 1 := by rw [hq, List.length_cons]
    simp only [SignalPool.take, ThreadPool.take, hq, List.isEmpty_cons, Bool.false_eq_true,
      if_false] at hpool ⊢
    refine ⟨hpool, ?_, ?_, fun k => ?_, fun j => ?_, fun j hj => ?_, fun hr k hk => ?_⟩
    · have hworkers := h.workers
      rw [hlen] at hworkers
      exact hworkers.leave i
    · simp only [ThreadPool.setWorker]
      split
      · next hpos =>
        -- one place more, and one producer more that was woken for it
        have hle := h.pool.bounded hpos
        have hplaces : s.pool.maxQueueSize - queue.length =
            s.pool.maxQueueSize - s.pool.queue.length + 1 := by omega
        rw [hplaces]
        exact h.producers.signal hw
      · next hzero =>
        rw [Nat.eq_zero_of_not_pos hzero, Nat.zero_sub]
        exact enough_zero _
    · by_cases hk : k = i
      · subst hk
        simp [ThreadPool.setWorker]
      · simpa [ThreadPool.setWorker, hk] using h.waiting k
    · simp only [ThreadPool.setWorker]
      split
      · exact signal_eq_away.trans (h.blocked j)
      · exact h.blocked j
    · refine h.limited j fun haway => hj ?_
      simp only
      split
      · exact signal_eq_away.mpr haway
      · exact haway
    · by_cases hki : k = i
      · subst hki
        simp at hk
      · simp only [Function.update_of_ne hki] at hk
        exact h.stopped hr k hk

omit [DecidableEq κ] in
/-- A thread of the pool goes on outside of `take`. -/
theorem Inv.goOn (h : s.Inv) {p : ThreadPool n κ α} (hp : p.Inv)
    (hsame : p.queue = s.pool.queue ∧ p.maxQueueSize = s.pool.maxQueueSize ∧
      p.blocked = s.pool.blocked ∧ p.running = s.pool.running)
    (hw : ∀ i, p.worker i = .waiting ↔ s.pool.worker i = .waiting) :
    { s with pool := p }.Inv := by
  obtain ⟨hq, hm, hb, hr⟩ := hsame
  refine ⟨hp, ?_, ?_, fun i => (h.waiting i).trans (not_congr (hw i)).symm, fun j => ?_,
    fun j hj => ?_, fun hs => ?_⟩
  · simp only [hq]
    exact h.workers
  · simp only [hq, hm]
    exact h.producers
  · simp only [hb]
    exact h.blocked j
  · simp only [hm]
    exact h.limited j hj
  · exact h.stopped (hr ▸ hs)

omit [Fintype κ] [DecidableEq κ] in
/-- The worker moves from one place outside `take` to another. -/
theorem setWorker_waiting {p : ThreadPool n κ α} {i : Fin n} {w : Worker α}
    (hi : p.worker i ≠ .waiting) (hw : w ≠ .waiting) (k : Fin n) :
    (p.setWorker i w).worker k = .waiting ↔ p.worker k = .waiting := by
  by_cases hk : k = i
  · subst hk
    simp [ThreadPool.setWorker, hi, hw]
  · simp [ThreadPool.setWorker, hk]

private theorem Inv.step (hn : 0 < n) (h : s.Inv) {e : SignalEvent n κ α} (he : s.Allowed e) :
    (s.step e).Inv := by
  have hmove := fun e' => h.pool.move (ThreadPool.move_step hn s.pool e')
  cases e with
  | addTask j task woken =>
    simp only [SignalPool.step, Nat.ne_of_gt hn, if_false]
    split
    · exact h
    · exact h.enqueue j task he
  | wake j woken =>
    simp only [SignalPool.step]
    split
    · exact h.enqueue j _ he
    · exact h
  | take i woken =>
    simp only [SignalPool.step]
    split
    · next hi => exact h.take he (.inl hi)
    · next hi _ => exact h.take he (.inr hi)
    · exact h
  | execute i =>
    have hp := hmove (.execute i)
    simp only [SignalPool.step]
    simp only [ThreadPool.step] at hp ⊢
    split
    · next hi =>
      rw [hi] at hp
      exact h.goOn hp ⟨rfl, rfl, rfl, rfl⟩ (setWorker_waiting (by simp [hi]) (by simp))
    · exact h
  | testRunning i =>
    have hp := hmove (.testRunning i)
    simp only [SignalPool.step]
    simp only [ThreadPool.step] at hp ⊢
    split
    · next hi =>
      rw [hi] at hp
      refine h.goOn hp ⟨rfl, rfl, rfl, rfl⟩ (setWorker_waiting (by simp [hi]) ?_)
      split <;> simp
    · exact h
  | testEmpty i =>
    have hp := hmove (.testEmpty i)
    simp only [SignalPool.step]
    simp only [ThreadPool.step] at hp ⊢
    split
    · next hi =>
      rw [hi] at hp
      refine h.goOn hp ⟨rfl, rfl, rfl, rfl⟩ (setWorker_waiting (by simp [hi]) ?_)
      split <;> simp
    · exact h
  | stop =>
    have hnone : ∀ i, signal s.notEmpty Finset.univ i ≠ .asleep :=
      fun i => signal_of_mem (Finset.mem_univ i)
    exact ⟨hmove .stop, fun i hi => absurd hi (hnone i), h.producers,
      fun i => signal_eq_away.trans (h.waiting i), h.blocked, h.limited, fun _ => hnone⟩
  | rouse i =>
    simp only [SignalPool.step]
    split
    · next hi =>
      refine ⟨h.pool, h.workers.wake hi, h.producers, fun k => ?_, h.blocked, h.limited,
        fun hr k => ?_⟩
      · by_cases hk : k = i
        · subst hk
          simpa [hi] using h.waiting k
        · simpa [hk] using h.waiting k
      · exact fun _ => h.stopped hr i hi
    · exact h
  | rouseProducer j =>
    simp only [SignalPool.step]
    split
    · next hj =>
      refine ⟨h.pool, h.workers, h.producers.wake hj, h.waiting, fun k => ?_, fun k hk => ?_,
        h.stopped⟩
      · by_cases hkj : k = j
        · subst hkj
          simpa [hj] using h.blocked k
        · simpa [hkj] using h.blocked k
      · exact h.limited j (by simp [hj])
    · exact h

end Inv

/-! ### At rest -/

/-- Every thread of the pool sleeps or has left, and no producer that was woken is still to go
on. -/
def Quiet (s : SignalPool n κ α) : Prop :=
  (∀ i, s.notEmpty i = .asleep ∨ s.pool.worker i = .left) ∧ ∀ j, s.notFull j ≠ .woken

section Quiet

variable {s : SignalPool n κ α}

/-- A running pool at rest has nothing to do. -/
theorem Inv.done_of_quiet (hn : 0 < n) (h : s.Inv) (hr : s.pool.running = true) (hq : s.Quiet) :
    s.pool.queue = [] ∧ (∀ j, s.pool.blocked j = none) ∧
      s.pool.executed.Perm s.pool.enqueued := by
  have hasleep : ∀ i, s.notEmpty i = .asleep :=
    fun i => (hq.1 i).resolve_right (h.pool.active hr i).2
  have hempty : s.pool.queue = [] := by
    have hle := h.workers ⟨0, hn⟩ (hasleep _)
    rw [wokenCount_eq_zero fun i => by rw [hasleep i]; nofun] at hle
    exact List.eq_nil_of_length_eq_zero (Nat.eq_zero_of_le_zero hle)
  refine ⟨hempty, fun j => ?_, ?_⟩
  · rw [← h.blocked j]
    cases hj : s.notFull j with
    | away => rfl
    | woken => exact absurd hj (hq.2 j)
    | asleep =>
      -- all places are free, so a producer would have been woken
      have hpos := h.limited j (by simp [hj])
      have hle := h.producers j hj
      rw [wokenCount_eq_zero hq.2, hempty, List.length_nil] at hle
      omega
  · have hheld : allHeld Worker.held s.pool.worker = 0 := allHeld_eq_zero fun i => by
      have hw : s.pool.worker i = .waiting := by
        by_contra hne
        have haway := (h.waiting i).mpr hne
        rw [hasleep i] at haway
        cases haway
      rw [hw]
      rfl
    have honce := h.pool.once
    have hfifo := h.pool.fifo
    rw [hheld, add_zero] at honce
    rw [hempty, List.append_nil] at hfifo
    rw [← hfifo]
    exact Multiset.coe_eq_coe.mp honce

/-- A stopped pool at rest has no thread left. -/
theorem Inv.left_of_quiet (h : s.Inv) (hr : s.pool.running = false) (hq : s.Quiet) (i : Fin n) :
    s.pool.worker i = .left :=
  (hq.1 i).resolve_left (h.stopped hr i)

end Quiet

/-! ### Coming to rest -/

/-- The step is one of a thread that is awake, inside the pool or in `addTask`. -/
def Advances (s : SignalPool n κ α) : SignalEvent n κ α → Prop
  | .wake j _ => s.notFull j = .woken
  | .take i _ => s.pool.worker i = .entering ∨ s.notEmpty i = .woken
  | .execute i => ∃ task, s.pool.worker i = .holding task
  | .testRunning i => s.pool.worker i = .testing
  | .testEmpty i => s.pool.worker i = .draining
  | _ => False

end SignalPool

/-- How far a thread of the pool is from its rest, or from taking the next task. -/
def Worker.toil {α : Type v} (running idle : Bool) (r : Rest) : Worker α → Nat
  | .entering => if running then 2 else if idle then 5 else 0
  | .waiting => if running then (if r = .woken then 1 else 0) else if idle then 5 else 0
  | .holding _ => 4
  | .testing => 3
  | .draining => 2
  | .left => 0

private theorem Worker.toil_le {α : Type v} (running idle : Bool) (r : Rest) (w : Worker α) :
    w.toil running idle r ≤ 5 := by
  cases w with
  | entering | waiting =>
    simp only [toil]
    split_ifs <;> omega
  | holding | testing | draining | left => simp [toil]

namespace SignalPool

variable {n : Nat} {κ : Type u} {α : Type v} [Fintype κ]

/-- The tasks that are still to be put into the queue and taken out of it. -/
def work (s : SignalPool n κ α) : Nat :=
  2 * (Finset.univ.filter fun j => (s.pool.blocked j).isSome).card + s.pool.queue.length

/-- What the threads do between two of them. -/
def idling (s : SignalPool n κ α) : Nat :=
  ∑ i, (s.pool.worker i).toil s.pool.running s.pool.queue.isEmpty (s.notEmpty i) +
    wokenCount s.notFull

def effort (s : SignalPool n κ α) : Nat :=
  s.work * (5 * n + Fintype.card κ + 1) + s.idling

private theorem idling_le (s : SignalPool n κ α) : s.idling ≤ 5 * n + Fintype.card κ := by
  have hsum := Finset.sum_le_card_nsmul Finset.univ
    (fun i => (s.pool.worker i).toil s.pool.running s.pool.queue.isEmpty (s.notEmpty i)) 5
    fun i _ => Worker.toil_le _ _ _ _
  exact Nat.add_le_add (by simpa [Nat.mul_comm] using hsum) (wokenCount_le_card _)

variable {s s' : SignalPool n κ α}

private theorem effort_lt_of_work (h : s'.work < s.work) : s'.effort < s.effort := by
  have hidle := s'.idling_le
  have hmul : (s'.work + 1) * (5 * n + Fintype.card κ + 1) ≤
      s.work * (5 * n + Fintype.card κ + 1) := Nat.mul_le_mul_right _ h
  rw [Nat.add_mul, Nat.one_mul] at hmul
  unfold effort
  omega

private theorem effort_lt_of_idling (hw : s'.work = s.work) (h : s'.idling < s.idling) :
    s'.effort < s.effort := by
  unfold effort
  rw [hw]
  omega

/-- One thread of the pool goes on, and nothing else changes. -/
theorem effort_lt_of_toil {i : Fin n} {w : Worker α} {r : Rest}
    (hlt : w.toil s.pool.running s.pool.queue.isEmpty r <
      (s.pool.worker i).toil s.pool.running s.pool.queue.isEmpty (s.notEmpty i))
    (hs : s' = { s with
      pool := { s.pool.setWorker i w with executed := s'.pool.executed }
      notEmpty := Function.update s.notEmpty i r }) : s'.effort < s.effort := by
  rw [hs]
  refine effort_lt_of_idling rfl (Nat.add_lt_add_right ?_ _)
  refine Finset.sum_lt_sum (fun k _ => ?_) ⟨i, Finset.mem_univ i, ?_⟩
  · by_cases hk : k = i
    · subst hk
      simpa [ThreadPool.setWorker] using hlt.le
    · simp [ThreadPool.setWorker, hk]
  · simpa [ThreadPool.setWorker] using hlt

/-- A producer that was blocked goes on: its task gets into the queue, or it sleeps again. -/
theorem effort_enqueue_lt [DecidableEq κ] {j : κ} {task : α} {woken : Finset (Fin n)}
    (hb : s.pool.blocked j = some task) (hj : s.notFull j = .woken) :
    (s.enqueue j task woken).effort < s.effort := by
  cases hfull : s.pool.isFull with
  | true =>
    have hsame : Function.update s.pool.blocked j (some task) = s.pool.blocked := by
      rw [← hb, Function.update_eq_self]
    simp only [enqueue, ThreadPool.enqueue, hfull, if_true, hsame]
    exact effort_lt_of_idling rfl (Nat.add_lt_add_left (wokenCount_update_lt hj (by decide)) _)
  | false =>
    simp only [enqueue, ThreadPool.enqueue, hfull, Bool.false_eq_true, if_false]
    refine effort_lt_of_work ?_
    have hcard : (Finset.univ.filter
        fun k => (Function.update s.pool.blocked j none k).isSome).card + 1 ≤
        (Finset.univ.filter fun k => (s.pool.blocked k).isSome).card := by
      refine Nat.succ_le_of_lt (Finset.card_lt_card ⟨fun k hk => ?_, fun hsub => ?_⟩)
      · by_cases hkj : k = j
        · subst hkj
          simp at hk
        · simpa [hkj] using hk
      · have hmem : j ∈ Finset.univ.filter fun k => (s.pool.blocked k).isSome := by simp [hb]
        simpa using hsub hmem
    simp only [work, List.length_append, List.length_singleton]
    omega

/-- A thread of the pool comes to `take`. -/
theorem effort_take_lt [DecidableEq κ] {i : Fin n} {woken : Finset κ}
    (hi : s.pool.worker i = .entering ∨ s.pool.worker i = .waiting ∧ s.notEmpty i = .woken) :
    (s.take i woken).effort < s.effort := by
  cases hq : s.pool.queue with
  | nil =>
    refine effort_lt_of_toil (i := i) (w := if s.pool.running then .waiting else .holding none)
      (r := if s.pool.running then .asleep else .away) ?_ (by simp [take, ThreadPool.take, hq,
        ThreadPool.setWorker])
    rcases hi with hi | ⟨hi, hr⟩
    · cases hrun : s.pool.running <;> simp [hi, hq, Worker.toil]
    · cases hrun : s.pool.running <;> simp [hi, hr, hq, Worker.toil]
  | cons task queue =>
    refine effort_lt_of_work ?_
    simp [take, ThreadPool.take, hq, work, ThreadPool.setWorker]

/-- Every step of a thread that is awake brings the pool nearer to its rest. -/
theorem Inv.effort_step_lt [DecidableEq κ] (h : s.Inv) {e : SignalEvent n κ α}
    (he : s.Advances e) : (s.step e).effort < s.effort := by
  cases e with
  | addTask | stop | rouse | rouseProducer => exact he.elim
  | wake j woken =>
    have hj : s.notFull j = .woken := he
    cases hb : s.pool.blocked j with
    | none =>
      have haway := (h.blocked j).mpr hb
      rw [hj] at haway
      cases haway
    | some task =>
      simp only [SignalPool.step, hb, hj]
      exact effort_enqueue_lt hb hj
  | take i woken =>
    rcases he with hi | hi
    · simp only [SignalPool.step, hi]
      exact effort_take_lt (.inl hi)
    · have hw : s.pool.worker i = .waiting := by
        by_contra hne
        have haway := (h.waiting i).mpr hne
        rw [hi] at haway
        cases haway
      simp only [SignalPool.step, hw, hi]
      exact effort_take_lt (.inr ⟨hw, hi⟩)
  | execute i =>
    obtain ⟨task, hi⟩ := he
    refine effort_lt_of_toil (i := i) (w := .testing) (r := s.notEmpty i) ?_ ?_
    · simp [hi, Worker.toil]
    · simp [SignalPool.step, ThreadPool.step, hi]
  | testRunning i =>
    have hi : s.pool.worker i = .testing := he
    refine effort_lt_of_toil (i := i) (w := if s.pool.running then .entering else .draining)
      (r := s.notEmpty i) ?_ ?_
    · cases hrun : s.pool.running <;> simp [hi, Worker.toil]
    · simp [SignalPool.step, ThreadPool.step, hi, ThreadPool.setWorker]
  | testEmpty i =>
    have hi : s.pool.worker i = .draining := he
    have hrun : s.pool.running = false := by
      by_contra hne
      exact (h.pool.active (by simpa using hne) i).1 hi
    refine effort_lt_of_toil (i := i) (w := if s.pool.queue.isEmpty then .left else .entering)
      (r := s.notEmpty i) ?_ ?_
    · cases hq : s.pool.queue.isEmpty <;> simp [hi, hrun, Worker.toil]
    · simp [SignalPool.step, ThreadPool.step, hi, ThreadPool.setWorker]

/-- As long as the pool is not at rest, some thread is awake. -/
theorem Inv.exists_advances (h : s.Inv) (hq : ¬ s.Quiet) : ∃ e, s.Allowed e ∧ s.Advances e := by
  rw [Quiet, not_and_or] at hq
  rcases hq with hq | hq
  · obtain ⟨i, hi⟩ := not_forall.mp hq
    rw [not_or] at hi
    have hall : WakesOne s.notFull Finset.univ := fun j hj => ⟨j, Finset.mem_univ j, hj⟩
    cases hw : s.pool.worker i with
    | entering => exact ⟨.take i Finset.univ, hall, .inl hw⟩
    | waiting =>
      refine ⟨.take i Finset.univ, hall, .inr ?_⟩
      cases hr : s.notEmpty i with
      | away => exact absurd hw ((h.waiting i).mp hr)
      | asleep => exact absurd hr hi.1
      | woken => rfl
    | holding task => exact ⟨.execute i, trivial, task, hw⟩
    | testing => exact ⟨.testRunning i, trivial, hw⟩
    | draining => exact ⟨.testEmpty i, trivial, hw⟩
    | left => exact absurd hw hi.2
  · obtain ⟨j, hj⟩ := not_forall.mp hq
    exact ⟨.wake j Finset.univ, fun i hi => ⟨i, Finset.mem_univ i, hi⟩, not_not.mp hj⟩

/-- One thread and a queue of one task; the thread sleeps before there is a task, and the second
producer before there is a place. -/
def sleepingBoth : List (SignalEvent 1 Bool Nat) :=
  let i : Fin 1 := Fin.last 0
  [.take i ∅, .addTask false 7 {i}, .addTask true 8 ∅, .take i {true}, .wake true ∅, .execute i,
    .testRunning i, .take i ∅, .execute i, .testRunning i, .take i ∅]

end SignalPool

end IMServer.Concurrency
