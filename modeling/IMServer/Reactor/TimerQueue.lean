import IMServer.Base.Bytes
import IMServer.Base.OrderedSet
import IMServer.Base.Ownership
import IMServer.Base.Run
import Mathlib.Algebra.Group.Nat.Defs
import Mathlib.Data.Prod.Lex

/-!
# Timers

`server/src/TimerQueue.cc` and `Timer.h`: the two sets of the queue, the timers on the heap, and
the steps of the loop's thread in `handleRead`, between which callbacks add and cancel timers
and other threads create timers and queue calls. A step fails when an assertion of the source
does or when it uses a timer that has been deleted.
-/

namespace IMServer.Reactor

open IMServer.Base

/-- The address of a `Timer`. -/
abbrev Addr := Nat

/-- The address of no object; the sentry of `getExpired` has it. -/
def UINTPTR_MAX : Addr := 2 ^ 64 - 1

/-- `static_cast<int64_t>` of a number of microseconds; out of range it is the least
`int64_t`. -/
def toInt64 (microseconds : Int) : Int :=
  if -2 ^ 63 ≤ microseconds ∧ microseconds < 2 ^ 63 then microseconds else -2 ^ 63

/-- `Timestamp.h:120–125`; a sum beyond `int64_t` wraps around. -/
def addTime (timestamp microseconds : Int) : Int := wrap 64 (timestamp + toInt64 microseconds)

/-- `TimerQueue.cc:33–47`, in microseconds; a difference beyond `int64_t` wraps around. -/
def howMuchTimeFromNow (when clock : Int) : Int := max (wrap 64 (when - clock)) 100

/-- Without overflow it is the time that is left, and at least a hundred microseconds. -/
theorem howMuchTimeFromNow_eq {when clock : Int} (hlo : -2 ^ 63 ≤ when - clock)
    (hhi : when - clock < 2 ^ 63) : howMuchTimeFromNow when clock = max (when - clock) 100 := by
  rw [howMuchTimeFromNow, wrap_eq_self (by decide) hlo hhi]

/-- Without overflow it is the sum. -/
theorem addTime_eq {timestamp microseconds : Int} (h0 : 0 ≤ microseconds)
    (ht : 0 ≤ timestamp) (hsum : timestamp + microseconds < 2 ^ 63) :
    addTime timestamp microseconds = timestamp + microseconds := by
  rw [addTime, toInt64, if_pos ⟨by omega, by omega⟩, wrap_eq_self (by decide) (by omega) hsum]

/-- `Timer.h:43–47`; times are in microseconds, as `interval_` is once `addTime` has multiplied
it. -/
structure Timer where
  expiration : Int
  interval : Int
  /-- `repeat_`. -/
  repeating : Bool
  sequence : Nat
  deriving DecidableEq, Repr

/-- `Timer.cc:8–18`; the invalid time is zero. -/
def Timer.restart (t : Timer) (now : Int) : Timer :=
  { t with expiration := if t.repeating then addTime now t.interval else 0 }

/-- `TimerId.h`; any pair can be passed to `cancel`. -/
structure TimerId where
  timer : Addr
  sequence : Nat
  deriving DecidableEq, Repr

/-- `std::pair<Timestamp, Timer*>` with its order. -/
abbrev Entry := Int ×ₗ Addr

/-- `std::pair<Timer*, int64_t>` with its order. -/
abbrev ActiveTimer := Addr ×ₗ Nat

def Entry.timer (e : Entry) : Addr := (ofLex e).2

/-- `TimerQueue.h:68–80`, with the timers that are alive, `s_numCreated_`, and the time for
which the timerfd is armed. -/
structure TimerQueue where
  heap : Heap Addr Timer := fun _ => none
  numCreated : Nat := 0
  timers : OrderedSet Entry := .empty
  activeTimers : OrderedSet ActiveTimer := .empty
  callingExpiredTimers : Bool := false
  cancelingTimers : OrderedSet ActiveTimer := .empty
  timerfd : Option Int := none

namespace TimerQueue

/-- `new Timer(cb, when, interval)` at an address the allocator may give. -/
def new (q : TimerQueue) (a : Addr) (when interval : Int) (repeating : Bool) :
    Option TimerQueue :=
  if 0 < a ∧ a < UINTPTR_MAX ∧ q.heap a = none then
    let sequence := q.numCreated + 1
    some { q with
      heap := q.heap.store a { expiration := when, interval, repeating, sequence }
      numCreated := sequence }
  else none

/-- Arm the timerfd; `TimerQueue.cc:60–73`. -/
def resetTimerfd (q : TimerQueue) (clock expiration : Int) : TimerQueue :=
  { q with timerfd := some (clock + howMuchTimeFromNow expiration clock) }

/-- A timer with this expiration comes before all others; lines 229–235. -/
def earliestChanged (q : TimerQueue) (when : Int) : Bool :=
  match q.timers.begin with
  | none => true
  | some e => when < (ofLex e).1

/-- `TimerQueue.cc:225–249`; the second component is `earliestChanged`. -/
def insert (q : TimerQueue) (a : Addr) : Option (TimerQueue × Bool) := do
  guard (q.timers.size = q.activeTimers.size)
  let timer ← q.heap a
  let earliestChanged := q.earliestChanged timer.expiration
  guard (toLex (timer.expiration, a) ∉ q.timers)
  guard (toLex (a, timer.sequence) ∉ q.activeTimers)
  let q := { q with
    timers := q.timers.insert (toLex (timer.expiration, a))
    activeTimers := q.activeTimers.insert (toLex (a, timer.sequence)) }
  guard (q.timers.size = q.activeTimers.size)
  some (q, earliestChanged)

/-- `TimerQueue.cc:122–131`. -/
def addTimerInLoop (q : TimerQueue) (a : Addr) (clock : Int) : Option TimerQueue := do
  let (q, earliestChanged) ← q.insert a
  if earliestChanged then do
    let timer ← q.heap a
    some (q.resetTimerfd clock timer.expiration)
  else some q

/-- `TimerQueue.cc:133–151`. -/
def cancelInLoop (q : TimerQueue) (id : TimerId) : Option TimerQueue := do
  guard (q.timers.size = q.activeTimers.size)
  let timer : ActiveTimer := toLex (id.timer, id.sequence)
  let q ← (if timer ∈ q.activeTimers then do
      let t ← q.heap id.timer
      guard (toLex (t.expiration, id.timer) ∈ q.timers)
      let heap ← q.heap.free id.timer
      some { q with
        heap
        timers := q.timers.erase (toLex (t.expiration, id.timer))
        activeTimers := q.activeTimers.erase timer }
    else if q.callingExpiredTimers then
      some { q with cancelingTimers := q.cancelingTimers.insert timer }
    else some q)
  guard (q.timers.size = q.activeTimers.size)
  some q

/-- The loop of `getExpired` over the expired entries; lines 184–189. -/
def eraseActive (heap : Heap Addr Timer) :
    List Entry → OrderedSet ActiveTimer → Option (OrderedSet ActiveTimer)
  | [], activeTimers => some activeTimers
  | e :: expired, activeTimers => do
    let timer ← heap e.timer
    guard (toLex (e.timer, timer.sequence) ∈ activeTimers)
    eraseActive heap expired (activeTimers.erase (toLex (e.timer, timer.sequence)))

/-- `TimerQueue.cc:173–193`. -/
def getExpired (q : TimerQueue) (now : Int) : Option (TimerQueue × List Entry) := do
  guard (q.timers.size = q.activeTimers.size)
  let sentry : Entry := toLex (now, UINTPTR_MAX)
  let expired := q.timers.below sentry
  let timers := q.timers.above sentry
  guard (∀ e ∈ timers.begin, now < (ofLex e).1)
  let activeTimers ← eraseActive q.heap expired q.activeTimers
  guard (timers.size = activeTimers.size)
  some ({ q with timers, activeTimers }, expired)

/-- One round of the loop of `reset`; lines 199–213. -/
def resetOne (q : TimerQueue) (e : Entry) (now : Int) : Option TimerQueue := do
  let timer ← q.heap e.timer
  if timer.repeating && toLex (e.timer, timer.sequence) ∉ q.cancelingTimers then do
    let (q, _) ← { q with heap := q.heap.store e.timer (timer.restart now) }.insert e.timer
    some q
  else do
    let heap ← q.heap.free e.timer
    some { q with heap }

/-- The end of `reset`; lines 215–223. -/
def rearm (q : TimerQueue) (clock : Int) : Option TimerQueue :=
  match q.timers.begin with
  | none => some q
  | some e => do
    let timer ← q.heap e.timer
    if 0 < timer.expiration then some (q.resetTimerfd clock timer.expiration) else some q

/-! ### What each function does when it does not fail -/

section Inversion

variable {q q' : TimerQueue} {a : Addr}

/-- A timer is allocated. -/
theorem new_eq_some {when interval : Int} {repeating : Bool}
    (h : q.new a when interval repeating = some q') :
    q.heap a = none ∧ q' = { q with
      heap := q.heap.store a
        { expiration := when, interval, repeating, sequence := q.numCreated + 1 }
      numCreated := q.numCreated + 1 } := by
  obtain ⟨⟨-, -, hnone⟩, hq⟩ := Option.ite_none_right_eq_some.mp h
  exact ⟨hnone, (Option.some.inj hq).symm⟩

/-- A timer enters both sets. -/
theorem insert_eq_some {changed : Bool} (h : q.insert a = some (q', changed)) :
    ∃ t, q.heap a = some t ∧ changed = q.earliestChanged t.expiration ∧ q' = { q with
      timers := q.timers.insert (toLex (t.expiration, a))
      activeTimers := q.activeTimers.insert (toLex (a, t.sequence)) } := by
  simp only [insert, Option.bind_eq_bind, Option.bind_eq_some_iff] at h
  obtain ⟨-, -, t, ht, -, -, -, -, -, -, h⟩ := h
  obtain ⟨rfl, rfl⟩ := Prod.mk.inj (Option.some.inj h)
  exact ⟨t, ht, rfl, rfl⟩

/-- `addTimerInLoop` arms the timerfd when the timer comes before all others. -/
theorem addTimerInLoop_eq_some {clock : Int} (h : q.addTimerInLoop a clock = some q') :
    ∃ t, q.heap a = some t ∧ q' = { q with
      timers := q.timers.insert (toLex (t.expiration, a))
      activeTimers := q.activeTimers.insert (toLex (a, t.sequence))
      timerfd := if q.earliestChanged t.expiration then
          some (clock + howMuchTimeFromNow t.expiration clock)
        else q.timerfd } := by
  simp only [addTimerInLoop, Option.bind_eq_bind, Option.bind_eq_some_iff] at h
  obtain ⟨⟨q₁, changed⟩, hi, h⟩ := h
  obtain ⟨t, ht, rfl, rfl⟩ := insert_eq_some hi
  refine ⟨t, ht, ?_⟩
  dsimp only at h
  split at h
  · next hc =>
    rw [ht, Option.bind_some] at h
    rw [if_pos hc]
    exact (Option.some.inj h).symm
  · next hc =>
    rw [if_neg hc]
    exact (Option.some.inj h).symm

/-- `cancelInLoop` deletes the timer when it is in the sets, and notes the call when callbacks are
being run. -/
theorem cancelInLoop_eq_some {id : TimerId} (h : q.cancelInLoop id = some q') :
    (toLex (id.timer, id.sequence) ∈ q.activeTimers ∧ ∃ t, q.heap id.timer = some t ∧
      q' = { q with
        heap := Function.update q.heap id.timer none
        timers := q.timers.erase (toLex (t.expiration, id.timer))
        activeTimers := q.activeTimers.erase (toLex (id.timer, id.sequence)) }) ∨
    (toLex (id.timer, id.sequence) ∉ q.activeTimers ∧ q' = { q with
      cancelingTimers := if q.callingExpiredTimers then
          q.cancelingTimers.insert (toLex (id.timer, id.sequence))
        else q.cancelingTimers }) := by
  simp only [cancelInLoop, Option.bind_eq_bind, Option.bind_eq_some_iff] at h
  obtain ⟨-, -, q₁, h₁, -, -, h⟩ := h
  obtain rfl := Option.some.inj h
  split at h₁
  · next hm =>
    simp only [Option.bind_eq_some_iff] at h₁
    obtain ⟨t, ht, -, -, heap, hfree, h₁⟩ := h₁
    obtain ⟨-, hheap⟩ := Option.ite_none_right_eq_some.mp hfree
    obtain rfl := Option.some.inj hheap
    exact .inl ⟨hm, t, ht, (Option.some.inj h₁).symm⟩
  · next hm =>
    refine .inr ⟨hm, ?_⟩
    split at h₁
    · next hc => rw [if_pos hc]; exact (Option.some.inj h₁).symm
    · next hc => rw [if_neg hc]; exact (Option.some.inj h₁).symm

/-- The expired timers leave both sets. -/
theorem getExpired_eq_some {now : Int} {expired : List Entry}
    (h : q.getExpired now = some (q', expired)) :
    expired = q.timers.below (toLex (now, UINTPTR_MAX)) ∧ ∃ activeTimers, q' = { q with
      timers := q.timers.above (toLex (now, UINTPTR_MAX)), activeTimers } := by
  simp only [getExpired, Option.bind_eq_bind, Option.bind_eq_some_iff] at h
  obtain ⟨-, -, -, -, activeTimers, -, -, -, h⟩ := h
  obtain ⟨rfl, rfl⟩ := Prod.mk.inj (Option.some.inj h)
  exact ⟨rfl, activeTimers, rfl⟩

/-- One round of `reset` restarts a repeating timer that was not cancelled, and deletes any
other. -/
theorem resetOne_eq_some {e : Entry} {now : Int} (h : q.resetOne e now = some q') :
    ∃ t, q.heap e.timer = some t ∧
      ((t.repeating = true ∧ toLex (e.timer, t.sequence) ∉ q.cancelingTimers ∧ q' = { q with
          heap := q.heap.store e.timer (t.restart now)
          timers := q.timers.insert (toLex (addTime now t.interval, e.timer))
          activeTimers := q.activeTimers.insert (toLex (e.timer, t.sequence)) }) ∨
        ((t.repeating = true → toLex (e.timer, t.sequence) ∈ q.cancelingTimers) ∧
          q' = { q with heap := Function.update q.heap e.timer none })) := by
  simp only [resetOne, Option.bind_eq_bind, Option.bind_eq_some_iff] at h
  obtain ⟨t, ht, h⟩ := h
  refine ⟨t, ht, ?_⟩
  split at h
  · next hr =>
    simp only [Bool.and_eq_true, decide_eq_true_eq] at hr
    simp only [Option.bind_eq_some_iff] at h
    obtain ⟨⟨q₁, changed⟩, hi, h⟩ := h
    obtain ⟨t', ht', -, rfl⟩ := insert_eq_some hi
    obtain rfl : t.restart now = t' := by
      simpa [Heap.store] using ht'
    refine .inl ⟨hr.1, hr.2, ?_⟩
    rw [← Option.some.inj h]
    simp [Timer.restart, hr.1]
  · next hr =>
    simp only [Option.bind_eq_some_iff] at h
    obtain ⟨heap, hfree, h⟩ := h
    obtain ⟨-, hheap⟩ := Option.ite_none_right_eq_some.mp hfree
    obtain rfl := Option.some.inj hheap
    refine .inr ⟨fun hrep => ?_, (Option.some.inj h).symm⟩
    simpa [hrep] using hr

/-- The end of `reset` arms the timerfd for the first timer unless its time is not valid. -/
theorem rearm_eq_some {clock : Int} (h : q.rearm clock = some q') :
    (q' = q ∧ ∀ e, q.timers.begin = some e → ∃ t, q.heap e.timer = some t ∧ t.expiration ≤ 0) ∨
      ∃ e t, q.timers.begin = some e ∧ q.heap e.timer = some t ∧ 0 < t.expiration ∧
        q' = q.resetTimerfd clock t.expiration := by
  unfold rearm at h
  split at h
  · next hb => exact .inl ⟨(Option.some.inj h).symm, fun e he => by rw [hb] at he; cases he⟩
  · next e he =>
    simp only [Option.bind_eq_bind, Option.bind_eq_some_iff] at h
    obtain ⟨t, ht, h⟩ := h
    split at h
    · next hpos => exact .inr ⟨e, t, he, ht, hpos, (Option.some.inj h).symm⟩
    · next hpos =>
      refine .inl ⟨(Option.some.inj h).symm, fun e' he' => ?_⟩
      obtain rfl := Option.some.inj (he.symm.trans he')
      exact ⟨t, ht, not_lt.mp hpos⟩

end Inversion

end TimerQueue

/-! ### The steps of the threads -/

/-- What other threads queue in the loop. -/
inductive TimerFunctor where
  | addTimerInLoop (timer : Addr)
  | cancelInLoop (id : TimerId)
  deriving DecidableEq, Repr

/-- Where the loop's thread is. -/
inductive Position where
  /-- Outside `handleRead`. -/
  | idle
  /-- In the loop of `handleRead` (lines 163–166), before the callback of the first entry of
  `next`, or inside the callback of the one before it. -/
  | calling (next expired : List Entry) (now : Int)
  /-- In the loop of `reset`. -/
  | resetting (rest : List Entry) (now : Int)

/-- The timers that `handleRead` has taken out of the sets. -/
def Position.batch : Position → List Entry
  | .idle => []
  | .calling _ expired _ => expired
  | .resetting rest _ => rest

/-- Whether the loop's thread may be running code of the user. -/
def Position.user : Position → Bool
  | .resetting .. => false
  | _ => true

/-- A timer queue and the loop that owns it. -/
structure TimerLoop where
  queue : TimerQueue := {}
  pending : List TimerFunctor := []
  position : Position := .idle

/-- One step of a thread. -/
inductive TimerEvent where
  /-- `addTimer` by the loop's thread or by another one; the allocator gives the address. -/
  | addTimer (inLoop : Bool) (a : Addr) (when interval : Int) (repeating : Bool) (clock : Int)
  | cancel (inLoop : Bool) (id : TimerId)
  /-- A `Timer` of another loop is created. -/
  | createdElsewhere
  /-- The loop runs the oldest queued call. -/
  | functor (clock : Int)
  | handleRead (now : Int)
  /-- `handleRead` runs the next callback. -/
  | run
  /-- `reset` begins, goes on or ends. -/
  | reset (clock : Int)
  deriving DecidableEq, Repr

namespace TimerLoop

def runFunctor (q : TimerQueue) (clock : Int) : TimerFunctor → Option TimerQueue
  | .addTimerInLoop a => q.addTimerInLoop a clock
  | .cancelInLoop id => q.cancelInLoop id

/-- A step that cannot happen leaves everything as it is. -/
def step (s : TimerLoop) : TimerEvent → Option TimerLoop
  | .addTimer inLoop a when interval repeating clock =>
    match s.queue.new a when interval repeating with
    | none => some s
    | some q =>
      if inLoop then
        if s.position.user then do
          let queue ← q.addTimerInLoop a clock
          some { s with queue }
        else some s
      else some { s with queue := q, pending := s.pending ++ [.addTimerInLoop a] }
  | .cancel inLoop id =>
    if inLoop then
      if s.position.user then do
        let queue ← s.queue.cancelInLoop id
        some { s with queue }
      else some s
    else some { s with pending := s.pending ++ [.cancelInLoop id] }
  | .createdElsewhere =>
    some { s with queue := { s.queue with numCreated := s.queue.numCreated + 1 } }
  | .functor clock =>
    match s.position, s.pending with
    | .idle, f :: pending => do
      let queue ← runFunctor s.queue clock f
      some { s with queue, pending }
    | _, _ => some s
  | .handleRead now =>
    match s.position with
    | .idle => do
      -- reading the timerfd clears it
      let (q, expired) ← { s.queue with timerfd := none }.getExpired now
      some { s with
        queue := { q with callingExpiredTimers := true, cancelingTimers := .empty }
        position := .calling expired expired now }
    | _ => some s
  | .run =>
    match s.position with
    | .calling (e :: next) expired now => do
      let _ ← s.queue.heap e.timer
      some { s with position := .calling next expired now }
    | _ => some s
  | .reset clock =>
    match s.position with
    | .calling [] expired now =>
      some { s with
        queue := { s.queue with callingExpiredTimers := false }
        position := .resetting expired now }
    | .resetting (e :: rest) now => do
      let queue ← s.queue.resetOne e now
      some { s with queue, position := .resetting rest now }
    | .resetting [] _ => do
      let queue ← s.queue.rearm clock
      some { s with queue, position := .idle }
    | _ => some s

/-! ### What a step can do -/

/-- The event cannot happen where the loop's thread is. -/
def Skips (s : TimerLoop) : TimerEvent → Prop
  | .addTimer inLoop a when interval repeating _ =>
    s.queue.new a when interval repeating = none ∨ inLoop = true ∧ s.position.user = false
  | .cancel inLoop _ => inLoop = true ∧ s.position.user = false
  | .createdElsewhere => False
  | .functor _ => s.position = .idle → s.pending = []
  | .handleRead _ => s.position ≠ .idle
  | .run => ∀ e next expired now, s.position ≠ .calling (e :: next) expired now
  | .reset _ => s.position = .idle ∨
    ∃ e next expired now, s.position = .calling (e :: next) expired now

/-- An event that does not apply changes nothing. -/
theorem step_of_skips {s : TimerLoop} {e : TimerEvent} (h : s.Skips e) : s.step e = some s := by
  cases e with
  | addTimer inLoop a when interval repeating clock =>
    rcases h with hn | ⟨rfl, hu⟩
    · simp [step, hn]
    · simp only [step, hu]
      split <;> rfl
  | cancel inLoop id => simp [step, h.1, h.2]
  | createdElsewhere => exact absurd h id
  | functor clock =>
    simp only [step]
    split
    · next f rest hi hp =>
      rw [h hi] at hp
      cases hp
    · rfl
  | handleRead now =>
    simp only [step]
    split
    · next hi => exact absurd hi h
    · rfl
  | run =>
    simp only [step]
    split
    · next f next expired now hp => exact absurd hp (h f next expired now)
    · rfl
  | reset clock => rcases h with hi | ⟨f, next, expired, now, hp⟩ <;> simp [step, *]

/-- The steps that succeed, one constructor for each thing that can happen. -/
inductive Move (s : TimerLoop) : TimerEvent → TimerLoop → Prop where
  | skip {e : TimerEvent} (he : s.Skips e) : Move s e s
  | addTimer {a : Addr} {when interval : Int} {repeating : Bool} {clock : Int} {q q' : TimerQueue}
      (hu : s.position.user = true) (hn : s.queue.new a when interval repeating = some q)
      (ha : q.addTimerInLoop a clock = some q') :
      Move s (.addTimer true a when interval repeating clock) { s with queue := q' }
  | queueAdd {a : Addr} {when interval : Int} {repeating : Bool} {clock : Int} {q : TimerQueue}
      (hn : s.queue.new a when interval repeating = some q) :
      Move s (.addTimer false a when interval repeating clock)
        { s with queue := q, pending := s.pending ++ [.addTimerInLoop a] }
  | cancel {id : TimerId} {q : TimerQueue} (hu : s.position.user = true)
      (hc : s.queue.cancelInLoop id = some q) : Move s (.cancel true id) { s with queue := q }
  | queueCancel {id : TimerId} :
      Move s (.cancel false id) { s with pending := s.pending ++ [.cancelInLoop id] }
  | createdElsewhere :
      Move s .createdElsewhere
        { s with queue := { s.queue with numCreated := s.queue.numCreated + 1 } }
  | functorAdd {a : Addr} {rest : List TimerFunctor} {clock : Int} {q : TimerQueue}
      (hi : s.position = .idle) (hp : s.pending = .addTimerInLoop a :: rest)
      (ha : s.queue.addTimerInLoop a clock = some q) :
      Move s (.functor clock) { s with queue := q, pending := rest }
  | functorCancel {id : TimerId} {rest : List TimerFunctor} {clock : Int} {q : TimerQueue}
      (hi : s.position = .idle) (hp : s.pending = .cancelInLoop id :: rest)
      (hc : s.queue.cancelInLoop id = some q) :
      Move s (.functor clock) { s with queue := q, pending := rest }
  | handleRead {now : Int} {q : TimerQueue} {expired : List Entry} (hi : s.position = .idle)
      (hg : { s.queue with timerfd := none }.getExpired now = some (q, expired)) :
      Move s (.handleRead now) { s with
        queue := { q with callingExpiredTimers := true, cancelingTimers := .empty }
        position := .calling expired expired now }
  | run {f : Entry} {next expired : List Entry} {now : Int} {t : Timer}
      (hp : s.position = .calling (f :: next) expired now)
      (ht : s.queue.heap f.timer = some t) :
      Move s .run { s with position := .calling next expired now }
  | resetBegin {expired : List Entry} {now clock : Int}
      (hp : s.position = .calling [] expired now) :
      Move s (.reset clock) { s with
        queue := { s.queue with callingExpiredTimers := false }
        position := .resetting expired now }
  | resetOne {f : Entry} {rest : List Entry} {now clock : Int} {q : TimerQueue}
      (hp : s.position = .resetting (f :: rest) now) (hr : s.queue.resetOne f now = some q) :
      Move s (.reset clock) { s with queue := q, position := .resetting rest now }
  | resetEnd {now clock : Int} {q : TimerQueue} (hp : s.position = .resetting [] now)
      (hr : s.queue.rearm clock = some q) :
      Move s (.reset clock) { s with queue := q, position := .idle }

section MoveOfStep

variable {s s' : TimerLoop}

private theorem move_of_addTimer {inLoop repeating : Bool} {a : Addr} {when interval clock : Int}
    (h : s.step (.addTimer inLoop a when interval repeating clock) = some s') :
    s.Move (.addTimer inLoop a when interval repeating clock) s' := by
  simp only [step] at h
  split at h
  · next hn => exact Option.some.inj h ▸ .skip (.inl hn)
  · next q hn =>
    cases inLoop with
    | false => exact Option.some.inj h ▸ .queueAdd hn
    | true =>
      rw [if_pos rfl] at h
      split at h
      · next hu =>
        obtain ⟨q', ha, h⟩ := Option.bind_eq_some_iff.mp h
        exact Option.some.inj h ▸ .addTimer hu hn ha
      · next hu => exact Option.some.inj h ▸ .skip (.inr ⟨rfl, by simpa using hu⟩)

private theorem move_of_cancel {inLoop : Bool} {id : TimerId}
    (h : s.step (.cancel inLoop id) = some s') : s.Move (.cancel inLoop id) s' := by
  simp only [step] at h
  cases inLoop with
  | false => exact Option.some.inj h ▸ .queueCancel
  | true =>
    rw [if_pos rfl] at h
    split at h
    · next hu =>
      obtain ⟨q, hc, h⟩ := Option.bind_eq_some_iff.mp h
      exact Option.some.inj h ▸ .cancel hu hc
    · next hu => exact Option.some.inj h ▸ .skip ⟨rfl, by simpa using hu⟩

private theorem move_of_functor {clock : Int} (h : s.step (.functor clock) = some s') :
    s.Move (.functor clock) s' := by
  simp only [step] at h
  split at h
  · next f rest hi hp =>
    obtain ⟨q, hq, h⟩ := Option.bind_eq_some_iff.mp h
    obtain rfl := Option.some.inj h
    cases f with
    | addTimerInLoop a => exact .functorAdd hi hp hq
    | cancelInLoop id => exact .functorCancel hi hp hq
  · next hn =>
    refine Option.some.inj h ▸ .skip fun hi => ?_
    cases hp : s.pending with
    | nil => rfl
    | cons f rest => exact absurd hp (hn f rest hi)

private theorem move_of_reset {clock : Int} (h : s.step (.reset clock) = some s') :
    s.Move (.reset clock) s' := by
  simp only [step] at h
  split at h
  · next hp => exact Option.some.inj h ▸ .resetBegin hp
  · next hp =>
    obtain ⟨q, hr, h⟩ := Option.bind_eq_some_iff.mp h
    exact Option.some.inj h ▸ .resetOne hp hr
  · next hp =>
    obtain ⟨q, hr, h⟩ := Option.bind_eq_some_iff.mp h
    exact Option.some.inj h ▸ .resetEnd hp hr
  · next h₁ h₂ h₃ =>
    -- no round is being reset: the loop is idle or a callback is left
    refine Option.some.inj h ▸ .skip ?_
    cases hp : s.position with
    | idle => exact .inl hp
    | calling next expired now =>
      cases next with
      | nil => exact absurd hp (h₁ expired now)
      | cons f next => exact .inr ⟨f, next, expired, now, hp⟩
    | resetting rest now =>
      cases rest with
      | nil => exact absurd hp (h₃ now)
      | cons f rest => exact absurd hp (h₂ f rest now)

/-- Every step is a move. -/
theorem move_of_step {e : TimerEvent} (h : s.step e = some s') : s.Move e s' := by
  cases e with
  | addTimer inLoop a when interval repeating clock => exact move_of_addTimer h
  | cancel inLoop id => exact move_of_cancel h
  | createdElsewhere => exact Option.some.inj h ▸ .createdElsewhere
  | functor clock => exact move_of_functor h
  | handleRead now =>
    simp only [step] at h
    split at h
    · next hi =>
      obtain ⟨⟨q, expired⟩, hg, h⟩ := Option.bind_eq_some_iff.mp h
      exact Option.some.inj h ▸ .handleRead hi hg
    · next hi => exact Option.some.inj h ▸ .skip hi
  | run =>
    simp only [step] at h
    split at h
    · next f next expired now hp =>
      obtain ⟨t, ht, h⟩ := Option.bind_eq_some_iff.mp h
      exact Option.some.inj h ▸ .run hp ht
    · next hp => exact Option.some.inj h ▸ .skip hp
  | reset clock => exact move_of_reset h

end MoveOfStep

end TimerLoop

end IMServer.Reactor
