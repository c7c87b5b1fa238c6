import IMServer.Concurrency.ThreadStart
import IMServer.Reactor.LoopQuit

/-!
# A thread with an event loop

`server/src/EventLoopThread.cc:19–66`. `startLoop` starts a thread and waits until it has stored the
address of its loop in `loop_`; the destructor calls `quit` on the loop and joins the thread, which
resets `loop_` and destroys the loop at its end. The destructor reads `loop_` without the mutex. A
step is `none` when a loop that has been destroyed is used. Nobody else quits the loop.

The loop that `startLoop` returns stays there until the destructor sets `quit_`. Two races are left:
the loop may be gone before the destructor calls `wakeup`, and a `quit` that comes before the thread
has got to `loop` is lost, so that the destructor waits for ever.
-/

namespace IMServer.Reactor

open IMServer.Base IMServer.Concurrency

/-- The critical sections. -/
inductive LoopThreadOp where
  /-- `startLoop` waits for `loop_`; lines 36–42. -/
  | await
  /-- `loop_ = &loop`; lines 56–60. -/
  | publish
  /-- `loop_ = NULL`; lines 64–65. -/
  | clear
  deriving DecidableEq, Repr

/-- The data is whether `loop_` is not `NULL`. -/
def loopThreadSpec : MonitorSpec LoopThreadOp Bool where
  guard
    | .await, loop => loop
    | .publish, _ | .clear, _ => true
  effect
    | .await, loop => loop
    | .publish, _ => true
    | .clear, _ => false
  notify
    | .publish, _ => .one
    | .await, _ | .clear, _ => .nobody

/-- Where the owner of the `EventLoopThread` is. -/
inductive OwnerStage where
  | idle
  /-- In `startLoop`, after `thread_.start()`. -/
  | starting
  | started
  /-- In the destructor, which has found `loop_` set. -/
  | quitting
  /-- `quit_` has been set, and `wakeup` is about to be called. -/
  | waking
  | joining
  | joined
  /-- The destructor has found `loop_` not set. -/
  | gone
  deriving DecidableEq, Repr

/-- How often the owner has called `quit`. -/
def OwnerStage.quits : OwnerStage → Nat
  | .waking | .joining | .joined => 1
  | .idle | .starting | .started | .quitting | .gone => 0

/-- Where the thread is in `threadFunc`. -/
inductive LoopThreadStage where
  | unborn
  /-- The loop has been constructed, and `callback_` is run. -/
  | preparing
  | publishing
  /-- In `loop.loop()`. -/
  | looping
  | clearing
  /-- The loop has been destroyed. -/
  | ended
  deriving DecidableEq, Repr

/-- `loop.loop()` has returned. -/
def LoopThreadStage.left : LoopThreadStage → Bool
  | .clearing | .ended => true
  | .unborn | .preparing | .publishing | .looping => false

/-- `EventLoopThread.h:23–35`, and the loop on the stack of the thread. -/
structure EventLoopThread (F : Type) where
  monitor : Monitor Who LoopThreadOp Bool := { data := false }
  loop : QuitLoop F := {}
  owner : OwnerStage := .idle
  thread : LoopThreadStage := .unborn

inductive LoopThreadEvent (F : Type) where
  /-- `thread_.start()` has returned, and `startLoop` goes on. -/
  | start
  /-- `callback_` has returned. -/
  | publish
  /-- A step inside a critical section. -/
  | monitor (e : MonitorEvent Who LoopThreadOp)
  /-- `startLoop` returns. -/
  | return
  /-- The thread calls `loop`. -/
  | enter
  /-- A step of the loop, or of a thread that queues something in it. -/
  | queue (e : LoopEvent F)
  /-- `quit_` is tested. -/
  | test
  /-- `loop` has returned. -/
  | leave
  /-- The loop is destroyed. -/
  | finish
  /-- The destructor reads `loop_`; line 20. -/
  | destroy
  /-- `quit_` is set; line 24, `EventLoop.cc:130`. -/
  | quit
  | wakeup
  | join

/-- The steps of the loop leave the calls of `quit` alone. -/
theorem QuitLoop.queue_quits {F : Type} (s : QuitLoop F) (e : LoopEvent F) :
    (s.step (.queue e)).quits = s.quits ∧ (s.step (.queue e)).quitsBefore = s.quitsBefore ∧
      (s.step (.queue e)).quitting = s.quitting := by
  simp only [QuitLoop.step]
  split <;> exact ⟨rfl, rfl, rfl⟩

private theorem QuitLoop.test_quits {F : Type} (s : QuitLoop F) :
    (s.step .test).quits = s.quits ∧ (s.step .test).quitsBefore = s.quitsBefore ∧
      (s.step .test).quitting = s.quitting := by
  simp only [QuitLoop.step]
  split <;> exact ⟨rfl, rfl, rfl⟩

private theorem QuitLoop.step_quits
    {F : Type} (s : QuitLoop F) {e : QuitEvent F} (he : e ≠ .enter) :
    s.quits ≤ (s.step e).quits ∧ (s.step e).quitsBefore = s.quitsBefore := by
  cases e with
  | enter => exact absurd rfl he
  | quit thread =>
    simp only [QuitLoop.step]
    split
    · exact ⟨Nat.le_refl _, rfl⟩
    · exact ⟨Nat.le_succ _, rfl⟩
  | quitInLoop =>
    simp only [QuitLoop.step]
    split
    · exact ⟨Nat.le_succ _, rfl⟩
    · exact ⟨Nat.le_refl _, rfl⟩
  | queue e | test | wakeup thread =>
    simp only [QuitLoop.step]
    split <;> exact ⟨Nat.le_refl _, rfl⟩

/-- Outside of `loop` the loop does not move on. -/
theorem QuitLoop.outside_step {F : Type} {s : QuitLoop F} (ho : s.stage = .outside)
    {e : QuitEvent F} (he : e ≠ .enter) : (s.step e).stage = .outside := by
  cases e with
  | queue e =>
    simp only [QuitLoop.step]
    split
    · exact ho
    · next hn =>
      have hout : e.inLoopThread = false := by simpa [ho] using hn
      have hm := s.queue.move_step e
      simp only [QuitLoop.advance]
      generalize s.queue.step e = l' at hm ⊢
      cases hm with
      | aside phase rounds => simp [rounds, ho]
      | poll | handleRead | swap | run | finish => cases hout
  | enter => exact absurd rfl he
  | test =>
    simp [QuitLoop.step, ho]
  | quit thread =>
    simp only [QuitLoop.step]
    split <;> exact ho
  | wakeup thread =>
    simp only [QuitLoop.step]
    split <;> exact ho
  | quitInLoop =>
    simp [QuitLoop.step, ho]

namespace EventLoopThread

variable {F : Type}

/-- A step that cannot happen leaves everything as it is. -/
def step (s : EventLoopThread F) : LoopThreadEvent F → Option (EventLoopThread F)
  | .start =>
    some (if s.owner = .idle then
      { s with
        owner := .starting, thread := .preparing
        monitor := s.monitor.step loopThreadSpec (.call .creator .await) }
    else s)
  | .publish =>
    some (if s.thread = .preparing then
      { s with
        thread := .publishing
        monitor := s.monitor.step loopThreadSpec (.call .created .publish) }
    else s)
  | .monitor e => some { s with monitor := s.monitor.step loopThreadSpec e }
  | .return =>
    match s.owner, s.monitor.position .creator with
    | .starting, .outside => some { s with owner := .started }
    | _, _ => some s
  | .enter =>
    match s.thread, s.monitor.position .created with
    | .publishing, .outside => some { s with thread := .looping, loop := s.loop.step .enter }
    | _, _ => some s
  | .queue e => some (if s.thread = .ended then s else { s with loop := s.loop.step (.queue e) })
  | .test => some (if s.thread = .ended then s else { s with loop := s.loop.step .test })
  | .leave =>
    some (if s.thread = .looping ∧ s.loop.stage = .outside then
      { s with
        thread := .clearing
        monitor := s.monitor.step loopThreadSpec (.call .created .clear) }
    else s)
  | .finish =>
    match s.thread, s.monitor.position .created with
    | .clearing, .outside => some { s with thread := .ended }
    | _, _ => some s
  | .destroy =>
    some (if s.owner = .started then
      { s with owner := if s.monitor.data then .quitting else .gone } else s)
  | .quit =>
    if s.owner = .quitting then
      if s.thread = .ended then none
      else some { s with owner := .waking, loop := s.loop.step (.quit 0) }
    else some s
  | .wakeup =>
    if s.owner = .waking then
      if s.thread = .ended then none
      else some { s with owner := .joining, loop := s.loop.step (.wakeup 0) }
    else some s
  | .join =>
    some (if s.owner = .joining ∧ s.thread = .ended then { s with owner := .joined } else s)

/-- The critical sections are entered as above, and a notification wakes the owner. -/
def Allowed (s : EventLoopThread F) : LoopThreadEvent F → Prop
  | .monitor e => e.isCall = false ∧ s.monitor.Honest loopThreadSpec e
  | _ => True

/-- What a step can do. -/
inductive Move (s : EventLoopThread F) : EventLoopThread F → Prop where
  | stay : Move s s
  | start (owner : s.owner = .idle) :
    Move s { s with
      owner := .starting, thread := .preparing
      monitor := s.monitor.step loopThreadSpec (.call .creator .await) }
  | publish (thread : s.thread = .preparing) :
    Move s { s with
      thread := .publishing
      monitor := s.monitor.step loopThreadSpec (.call .created .publish) }
  | monitor (e : MonitorEvent Who LoopThreadOp) (called : e.isCall = false)
    (honest : s.monitor.Honest loopThreadSpec e) :
    Move s { s with monitor := s.monitor.step loopThreadSpec e }
  | return (owner : s.owner = .starting) (position : s.monitor.position .creator = .outside) :
    Move s { s with owner := .started }
  | enter (thread : s.thread = .publishing) (position : s.monitor.position .created = .outside) :
    Move s { s with thread := .looping, loop := s.loop.step .enter }
  | loop (e : QuitEvent F) (enters : e ≠ .enter)
    (quits : (s.loop.step e).quits = s.loop.quits ∧
      (s.loop.step e).quitsBefore = s.loop.quitsBefore ∧
      (s.loop.step e).quitting = s.loop.quitting) : Move s { s with loop := s.loop.step e }
  | leave (thread : s.thread = .looping) (stage : s.loop.stage = .outside) :
    Move s { s with
      thread := .clearing
      monitor := s.monitor.step loopThreadSpec (.call .created .clear) }
  | finish (thread : s.thread = .clearing) (position : s.monitor.position .created = .outside) :
    Move s { s with thread := .ended }
  | destroy (owner : s.owner = .started) :
    Move s { s with owner := if s.monitor.data then .quitting else .gone }
  | quit (owner : s.owner = .quitting) :
    Move s { s with owner := .waking, loop := s.loop.step (.quit 0) }
  | wakeup (owner : s.owner = .waking) :
    Move s { s with owner := .joining, loop := s.loop.step (.wakeup 0) }
  | join (owner : s.owner = .joining) (thread : s.thread = .ended) :
    Move s { s with owner := .joined }

private theorem move_step {s s' : EventLoopThread F} {e : LoopThreadEvent F} (ha : s.Allowed e)
    (hs : s.step e = some s') : s.Move s' := by
  cases e with
  | start =>
    simp only [step, Option.some.injEq] at hs
    subst hs
    split
    · next ho => exact .start ho
    · exact .stay
  | publish =>
    simp only [step, Option.some.injEq] at hs
    subst hs
    split
    · next ht => exact .publish ht
    · exact .stay
  | monitor e =>
    cases hs
    exact .monitor e ha.1 ha.2
  | «return» =>
    simp only [step] at hs
    split at hs
    · next ho hp =>
      cases hs
      exact .return ho hp
    · cases hs
      exact .stay
  | enter =>
    simp only [step] at hs
    split at hs
    · next ht hp =>
      cases hs
      exact .enter ht hp
    · cases hs
      exact .stay
  | queue e =>
    simp only [step, Option.some.injEq] at hs
    subst hs
    split
    · exact .stay
    · exact .loop (.queue e) (by simp) (s.loop.queue_quits e)
  | test =>
    simp only [step, Option.some.injEq] at hs
    subst hs
    split
    · exact .stay
    · exact .loop .test (by simp) s.loop.test_quits
  | leave =>
    simp only [step, Option.some.injEq] at hs
    subst hs
    split
    · next hl => exact .leave hl.1 hl.2
    · exact .stay
  | finish =>
    simp only [step] at hs
    split at hs
    · next ht hp =>
      cases hs
      exact .finish ht hp
    · cases hs
      exact .stay
  | destroy =>
    simp only [step, Option.some.injEq] at hs
    subst hs
    split
    · next ho => exact .destroy ho
    · exact .stay
  | quit =>
    simp only [step] at hs
    split at hs
    · next ho =>
      split at hs
      · cases hs
      · cases hs
        exact .quit ho
    · cases hs
      exact .stay
  | wakeup =>
    simp only [step] at hs
    split at hs
    · next ho =>
      split at hs
      · cases hs
      · cases hs
        exact .wakeup ho
    · cases hs
      exact .stay
  | join =>
    simp only [step, Option.some.injEq] at hs
    subst hs
    split
    · next hj => exact .join hj.1 hj.2
    · exact .stay

/-! ### The two threads and the mutex -/

end EventLoopThread

/-- What the owner has done in the critical sections. -/
def OwnerStage.Agrees (m : Monitor Who LoopThreadOp Bool) : OwnerStage → Prop
  | .idle => m.Idle .creator []
  | .starting => m.Called .creator [] .await
  | .started | .quitting | .waking | .joining | .joined | .gone => m.Idle .creator [.await]

/-- What the thread has done in the critical sections. -/
def LoopThreadStage.Agrees (m : Monitor Who LoopThreadOp Bool) : LoopThreadStage → Prop
  | .unborn | .preparing => m.Idle .created []
  | .publishing => m.Called .created [] .publish
  | .looping => m.Idle .created [.publish]
  | .clearing => m.Called .created [.publish] .clear
  | .ended => m.Idle .created [.publish, .clear]

section Agrees

variable {m : Monitor Who LoopThreadOp Bool} {e : MonitorEvent Who LoopThreadOp}

private theorem OwnerStage.Agrees.step {o : OwnerStage} (h : o.Agrees m)
    (he : e.isCall = false ∨ e.actor ≠ .creator) : o.Agrees (m.step loopThreadSpec e) := by
  cases o with
  | starting => exact Monitor.Called.step loopThreadSpec h he
  | _ => exact Monitor.Idle.step loopThreadSpec h he

private theorem LoopThreadStage.Agrees.step {t : LoopThreadStage} (h : t.Agrees m)
    (he : e.isCall = false ∨ e.actor ≠ .created) : t.Agrees (m.step loopThreadSpec e) := by
  cases t with
  | publishing | clearing => exact Monitor.Called.step loopThreadSpec h he
  | _ => exact Monitor.Idle.step loopThreadSpec h he

/-- The owner only waits. -/
theorem OwnerStage.Agrees.log_creator {o : OwnerStage} (h : o.Agrees m) :
    ofSource .creator m.log = [] ∨ ofSource .creator m.log = [.await] := by
  cases o with
  | idle => exact .inl (Monitor.Idle.log h)
  | starting =>
    cases h with
    | pending _ log => exact .inl log
    | done _ log => exact .inr log
  | _ => exact .inr (Monitor.Idle.log h)

/-- The thread sets `loop_` and then resets it. -/
theorem LoopThreadStage.Agrees.log_created {t : LoopThreadStage} (h : t.Agrees m) :
    ofSource .created m.log = [] ∨ ofSource .created m.log = [.publish] ∨
      ofSource .created m.log = [.publish, .clear] := by
  cases t with
  | unborn | preparing => exact .inl (Monitor.Idle.log h)
  | publishing =>
    cases h with
    | pending _ log => exact .inl log
    | done _ log => exact .inr (.inl log)
  | looping => exact .inr (.inl (Monitor.Idle.log h))
  | clearing =>
    cases h with
    | pending _ log => exact .inr (.inl log)
    | done _ log => exact .inr (.inr log)
  | ended => exact .inr (.inr (Monitor.Idle.log h))

/-- The owner is inside a critical section only to wait for `loop_`. -/
theorem OwnerStage.Agrees.eq_await {o : OwnerStage} (h : o.Agrees m) {op : LoopThreadOp}
    (hp : m.position .creator = .inside op) : op = .await := by
  cases o with
  | starting =>
    cases h with
    | pending position _ =>
      rw [hp] at position
      cases position
      rfl
    | done position _ =>
      rw [hp] at position
      cases position
  | _ => cases hp.symm.trans (Monitor.Idle.position h)

/-- The thread never waits for `loop_`. -/
theorem LoopThreadStage.Agrees.ne_await {t : LoopThreadStage} (h : t.Agrees m) {op : LoopThreadOp}
    (hp : m.position .created = .asleep op) : op ≠ .await := by
  cases t with
  | publishing | clearing =>
    cases h with
    | pending position _ =>
      rw [hp] at position
      cases position
      decide
    | done position _ =>
      rw [hp] at position
      cases position
  | _ => cases hp.symm.trans (Monitor.Idle.position h)

end Agrees

/-- Waiting leaves `loop_` as it is. -/
theorem replay_created (log : List (Who × LoopThreadOp))
    (h : ∀ op ∈ ofSource .creator log, op = .await) (d : Bool) :
    log.foldl (fun d x => loopThreadSpec.effect x.2 d) d =
      (ofSource .created log).foldl (fun d op => loopThreadSpec.effect op d) d := by
  induction log generalizing d with
  | nil => rfl
  | cons x log ih =>
    obtain ⟨who, op⟩ := x
    cases who with
    | creator =>
      rw [ofSource_cons_self] at h
      rw [List.foldl_cons, ofSource_cons_of_ne (by decide), h op List.mem_cons_self]
      exact ih (fun op' hop => h op' (List.mem_cons_of_mem op hop)) _
    | created =>
      rw [ofSource_cons_of_ne (by decide)] at h
      rw [List.foldl_cons, ofSource_cons_self, List.foldl_cons]
      exact ih h _

/-- The mutex, `loop_` and the two threads. -/
structure Synced (m : Monitor Who LoopThreadOp Bool) (o : OwnerStage) (t : LoopThreadStage) :
    Prop where
  locked : m.Locked
  noMissed : m.NoMissed loopThreadSpec
  replays : m.Replays loopThreadSpec false
  owner : o.Agrees m
  thread : t.Agrees m
  /-- The owner got through only after `loop_` was set. -/
  awaited : ofSource .creator m.log ≠ [] → ofSource .created m.log ≠ []

namespace Synced

variable {m : Monitor Who LoopThreadOp Bool} {o : OwnerStage} {t : LoopThreadStage}
  {e : MonitorEvent Who LoopThreadOp}

/-- `loop_` is set from the first critical section of the thread to the second. -/
theorem data_iff (h : Synced m o t) : m.data = true ↔ ofSource .created m.log = [.publish] := by
  have hawait : ∀ op ∈ ofSource .creator m.log, op = .await := by
    rcases h.owner.log_creator with hlog | hlog
    · rw [hlog]
      exact List.forall_mem_nil _
    · rw [hlog]
      exact fun op hop => List.mem_singleton.mp hop
  rw [show m.data = _ from h.replays, replay_created m.log hawait]
  rcases h.thread.log_created with hlog | hlog | hlog
  · rw [hlog]
    decide
  · rw [hlog]
    decide
  · rw [hlog]
    decide

/-- Only the owner sleeps. -/
theorem eq_creator (h : Synced m o t) {who : Who} (hs : (m.position who).isAsleep = true) :
    who = .creator := by
  cases who with
  | creator => rfl
  | created =>
    cases hp : m.position .created with
    | asleep op =>
      have hg := h.noMissed .created op (.inl hp)
      have hne := h.thread.ne_await hp
      cases op with
      | await => exact absurd rfl hne
      | publish | clear => cases hg
    | _ =>
      rw [hp] at hs
      cases hs

private theorem noMissed_step (h : Synced m o t) (he : m.Honest loopThreadSpec e) :
    (m.step loopThreadSpec e).NoMissed loopThreadSpec := by
  refine h.noMissed.step h.locked (fun b op d hf ht => .inr ?_) he
  have hsolo : ∀ j k, (m.position j).isAsleep = true → (m.position k).isAsleep = true → j = k :=
    fun j k hj hk => (h.eq_creator hj).trans (h.eq_creator hk).symm
  cases op with
  | publish | clear => cases hf
  | await =>
    cases b with
    | await => cases hf.symm.trans ht
    | publish => exact ⟨rfl, hsolo⟩
    | clear => cases ht

private theorem awaited_step (h : Synced m o t)
    (hlog : ofSource .creator (m.step loopThreadSpec e).log ≠ []) :
    ofSource .created (m.step loopThreadSpec e).log ≠ [] := by
  rcases m.log_step loopThreadSpec e with hsame | ⟨who, woken, op, rfl, hp, hg, heq⟩
  · rw [hsame] at hlog ⊢
    exact h.awaited hlog
  · rw [heq, ofSource_append]
    cases who with
    | creator =>
      obtain rfl := h.owner.eq_await hp
      rw [h.data_iff.mp hg]
      simp
    | created => simp [ofSource_cons_self]

/-- A step inside a critical section. -/
theorem step (h : Synced m o t) (hcall : e.isCall = false) (he : m.Honest loopThreadSpec e) :
    Synced (m.step loopThreadSpec e) o t :=
  ⟨h.locked.step e, h.noMissed_step he, h.replays.step e, h.owner.step (.inl hcall),
    h.thread.step (.inl hcall), h.awaited_step⟩

/-- The owner begins to wait. -/
theorem call_await (h : Synced m .idle .unborn) :
    Synced (m.step loopThreadSpec (.call .creator .await)) .starting .preparing :=
  ⟨h.locked.step _, h.noMissed_step trivial, h.replays.step _,
    Monitor.Idle.call loopThreadSpec h.owner .await, h.thread.step (.inr (by decide)),
    h.awaited_step⟩

private theorem call_publish (h : Synced m o .preparing) :
    Synced (m.step loopThreadSpec (.call .created .publish)) o .publishing :=
  ⟨h.locked.step _, h.noMissed_step trivial, h.replays.step _, h.owner.step (.inr (by decide)),
    Monitor.Idle.call loopThreadSpec h.thread .publish, h.awaited_step⟩

private theorem call_clear (h : Synced m o .looping) :
    Synced (m.step loopThreadSpec (.call .created .clear)) o .clearing :=
  ⟨h.locked.step _, h.noMissed_step trivial, h.replays.step _, h.owner.step (.inr (by decide)),
    Monitor.Idle.call loopThreadSpec h.thread .clear, h.awaited_step⟩

/-- The owner has got through. -/
theorem through (h : Synced m .starting t) (hp : m.position .creator = .outside) :
    Synced m .started t :=
  ⟨h.locked, h.noMissed, h.replays, Monitor.Called.idle h.owner hp, h.thread, h.awaited⟩

/-- The thread is out of its first critical section. -/
theorem published (h : Synced m o .publishing) (hp : m.position .created = .outside) :
    Synced m o .looping :=
  ⟨h.locked, h.noMissed, h.replays, h.owner, Monitor.Called.idle h.thread hp, h.awaited⟩

private theorem cleared (h : Synced m o .clearing) (hp : m.position .created = .outside) :
    Synced m o .ended :=
  ⟨h.locked, h.noMissed, h.replays, h.owner, Monitor.Called.idle h.thread hp, h.awaited⟩

end Synced

/-! ### The loop and the threads -/

/-- `loop.loop()` has been called. -/
def LoopThreadStage.entered : LoopThreadStage → Bool
  | .looping | .clearing | .ended => true
  | .unborn | .preparing | .publishing => false

private theorem LoopThreadStage.entered_of_left {t : LoopThreadStage} (h : t.left = true) :
    t.entered = true := by
  cases t with
  | clearing | ended => rfl
  | unborn | preparing | publishing | looping => cases h

namespace EventLoopThread

variable {F : Type} {s s' : EventLoopThread F}

/-- What every step keeps. -/
structure Inv (s : EventLoopThread F) : Prop where
  synced : Synced s.monitor s.owner s.thread
  loop : s.loop.Inv
  unborn : s.owner = .idle → s.thread = .unborn
  quits : s.loop.quits = s.owner.quits
  quitting : s.loop.quitting = if s.owner = .waking then {0} else ∅
  /-- Before `loop` is called, no call of `quit` counts. -/
  fresh : s.thread.entered = false → s.loop.stage = .outside ∧ s.loop.quitsBefore = 0
  /-- The loop ends only after a call of `quit` that came since `loop` was called. -/
  told : s.thread.entered = true → s.loop.stage = .outside → s.loop.quitsBefore < s.loop.quits
  left : s.thread.left = true → s.loop.stage = .outside
  joined : s.owner = .joined → s.thread = .ended
  present : s.owner ≠ .gone

private theorem inv_new : ({} : EventLoopThread F).Inv := by
  refine ⟨⟨⟨fun i => ?_, fun i => ?_⟩, fun i op h => ?_, rfl, ⟨rfl, rfl⟩, ⟨rfl, rfl⟩,
    fun h => absurd rfl h⟩, QuitLoop.inv_start, fun _ => rfl, rfl, rfl, fun _ => ⟨rfl, rfl⟩,
    fun h => (by cases h), fun h => (by cases h), fun h => (by cases h), fun h => (by cases h)⟩
  · simp [MonitorPosition.holds]
  · simp [MonitorPosition.recorded]
  · simp at h

namespace Inv

/-- A loop that has been left was told to quit. -/
theorem quits_pos (h : s.Inv) (hl : s.thread.left = true) : 0 < s.owner.quits := by
  have hlt := h.told (LoopThreadStage.entered_of_left hl) (h.left hl)
  rw [h.quits] at hlt
  exact Nat.zero_lt_of_lt hlt

/-- Until the owner has called `quit`, the loop that was published is there. -/
theorem data_of_started (h : s.Inv) (ho : s.owner = .started ∨ s.owner = .quitting) :
    s.monitor.data = true ∧ s.thread.left = false := by
  have hleft : s.thread.left = false := by
    by_contra hl
    have hpos := h.quits_pos ((Bool.not_eq_false _).mp hl)
    rcases ho with ho | ho <;> rw [ho] at hpos <;> cases hpos
  refine ⟨h.synced.data_iff.mpr ?_, hleft⟩
  have hcreator : ofSource .creator s.monitor.log ≠ [] := by
    have hagrees := h.synced.owner
    rcases ho with ho | ho <;> rw [ho] at hagrees <;> rw [Monitor.Idle.log hagrees] <;> simp
  have hcreated := h.synced.awaited hcreator
  have hagrees := h.synced.thread
  cases ht : s.thread with
  | unborn | preparing =>
    rw [ht] at hagrees
    exact absurd (Monitor.Idle.log hagrees) hcreated
  | publishing =>
    rw [ht] at hagrees
    cases hagrees with
    | pending _ log => exact absurd log hcreated
    | done _ log => exact log
  | looping =>
    rw [ht] at hagrees
    exact Monitor.Idle.log hagrees
  | clearing | ended => rw [ht] at hleft; cases hleft

/-- A step of the loop. -/
theorem loopStep (h : s.Inv) {e : QuitEvent F} (he : e ≠ .enter)
    (hquits : (s.loop.step e).quits = s.loop.quits ∧
      (s.loop.step e).quitsBefore = s.loop.quitsBefore ∧
      (s.loop.step e).quitting = s.loop.quitting) :
    ({ s with loop := s.loop.step e } : EventLoopThread F).Inv := by
  obtain ⟨hq, hb, hw⟩ := hquits
  refine ⟨h.synced, h.loop.step e, h.unborn, hq.trans h.quits, hw.trans h.quitting, fun hf => ?_,
    fun hentered ho => ?_, fun hl => ?_, h.joined, h.present⟩
  · obtain ⟨hout, hzero⟩ := h.fresh hf
    exact ⟨QuitLoop.outside_step hout he, hb.trans hzero⟩
  · exact QuitLoop.left_step h.loop (h.told hentered) he ho
  · exact QuitLoop.outside_step (h.left hl) he

/-- The owner moves on, and the calls of `quit` with it. -/
theorem setOwner (h : s.Inv) {o : OwnerStage} (hsync : Synced s.monitor o s.thread)
    (hidle : o ≠ .idle) (hquits : o.quits = s.owner.quits) (hw : s.owner ≠ .waking)
    (hw' : o ≠ .waking) (hj : o = .joined → s.thread = .ended) (hgone : o ≠ .gone) :
    ({ s with owner := o } : EventLoopThread F).Inv := by
  refine ⟨hsync, h.loop, fun ho => absurd ho hidle, h.quits.trans hquits.symm, ?_, h.fresh, h.told,
    h.left, hj, hgone⟩
  rw [h.quitting, if_neg hw, if_neg hw']

private theorem start (h : s.Inv) (hs : s.owner = .idle) :
    ({ s with
      owner := .starting, thread := .preparing
      monitor := s.monitor.step loopThreadSpec (.call .creator .await) } : EventLoopThread F).Inv
    := by
  have ht := h.unborn hs
  have hsync := h.synced
  have hquits := h.quits
  have hquitting := h.quitting
  rw [hs, ht] at hsync
  rw [hs] at hquits hquitting
  exact ⟨hsync.call_await, h.loop, fun ho => (by cases ho), hquits, hquitting,
    fun _ => h.fresh (by rw [ht]; rfl), fun hentered => (by cases hentered),
    fun hl => (by cases hl), fun hj => (by cases hj), fun hg => (by cases hg)⟩

private theorem publish (h : s.Inv) (ht : s.thread = .preparing) :
    ({ s with
      thread := .publishing
      monitor := s.monitor.step loopThreadSpec (.call .created .publish) } :
      EventLoopThread F).Inv := by
  have hsync := h.synced
  rw [ht] at hsync
  refine ⟨hsync.call_publish, h.loop, fun ho => ?_, h.quits, h.quitting,
    fun _ => h.fresh (by rw [ht]; rfl), fun hentered => (by cases hentered),
    fun hl => (by cases hl), fun hj => ?_, h.present⟩
  · cases ht.symm.trans (h.unborn ho)
  · cases ht.symm.trans (h.joined hj)

private theorem enter (h : s.Inv) (ht : s.thread = .publishing)
    (hp : s.monitor.position .created = .outside) :
    ({ s with thread := .looping, loop := s.loop.step .enter } : EventLoopThread F).Inv := by
  obtain ⟨hout, -⟩ := h.fresh (by rw [ht]; rfl)
  have hsync := h.synced
  rw [ht] at hsync
  have hinv := h.loop.step .enter
  have hstep : s.loop.step .enter =
      { s.loop with stage := .testing, quit := false, quitsBefore := s.loop.quits } := if_pos hout
  rw [hstep] at hinv ⊢
  refine ⟨hsync.published hp, hinv, fun ho => ?_, h.quits, h.quitting, fun hf => (by cases hf),
    fun _ ho => (by cases ho), fun hl => (by cases hl), fun hj => ?_, h.present⟩
  · cases ht.symm.trans (h.unborn ho)
  · cases ht.symm.trans (h.joined hj)

private theorem leave (h : s.Inv) (ht : s.thread = .looping) (ho : s.loop.stage = .outside) :
    ({ s with
      thread := .clearing
      monitor := s.monitor.step loopThreadSpec (.call .created .clear) } :
      EventLoopThread F).Inv := by
  have hsync := h.synced
  rw [ht] at hsync
  refine ⟨hsync.call_clear, h.loop, fun hi => ?_, h.quits, h.quitting, fun hf => (by cases hf),
    fun _ => h.told (by rw [ht]; rfl), fun _ => ho, fun hj => ?_, h.present⟩
  · cases ht.symm.trans (h.unborn hi)
  · cases ht.symm.trans (h.joined hj)

private theorem finish (h : s.Inv) (ht : s.thread = .clearing)
    (hp : s.monitor.position .created = .outside) :
    ({ s with thread := .ended } : EventLoopThread F).Inv := by
  have hsync := h.synced
  rw [ht] at hsync
  refine ⟨hsync.cleared hp, h.loop, fun hi => ?_, h.quits, h.quitting, fun hf => (by cases hf),
    fun _ => h.told (by rw [ht]; rfl), fun _ => h.left (by rw [ht]; rfl), fun _ => rfl, h.present⟩
  cases ht.symm.trans (h.unborn hi)

private theorem quit (h : s.Inv) (hs : s.owner = .quitting) :
    ({ s with owner := .waking, loop := s.loop.step (.quit 0) } : EventLoopThread F).Inv := by
  have hsync := h.synced
  have hquits := h.quits
  have hquitting := h.quitting
  rw [hs] at hsync hquits
  rw [hs, if_neg (by decide)] at hquitting
  have hinv := h.loop.step (.quit 0)
  have hstep : s.loop.step (.quit 0) = { s.loop with
      quit := true, quits := s.loop.quits + 1, quitting := insert 0 s.loop.quitting } :=
    if_neg (by simp [hquitting])
  rw [hstep] at hinv ⊢
  refine ⟨⟨hsync.locked, hsync.noMissed, hsync.replays, hsync.owner, hsync.thread, hsync.awaited⟩,
    hinv, fun ho => (by cases ho), congrArg (· + 1) hquits, ?_, h.fresh, fun _ _ => ?_, h.left,
    fun hj => (by cases hj), fun hg => (by cases hg)⟩
  · rw [if_pos rfl, hquitting]
    rfl
  · exact Nat.lt_succ_of_le h.loop.before_le

private theorem wakeup (h : s.Inv) (hs : s.owner = .waking) :
    ({ s with owner := .joining, loop := s.loop.step (.wakeup 0) } : EventLoopThread F).Inv := by
  have hsync := h.synced
  have hquits := h.quits
  have hquitting := h.quitting
  rw [hs] at hsync hquits
  rw [hs, if_pos rfl] at hquitting
  have hinv := h.loop.step (.wakeup 0)
  have hstep : s.loop.step (.wakeup 0) =
      { s.loop with queue := s.loop.queue.wakeup, quitting := s.loop.quitting.erase 0 } :=
    if_pos (by simp [hquitting])
  rw [hstep] at hinv ⊢
  refine ⟨⟨hsync.locked, hsync.noMissed, hsync.replays, hsync.owner, hsync.thread, hsync.awaited⟩,
    hinv, fun ho => (by cases ho), hquits, ?_, h.fresh, h.told, h.left, fun hj => (by cases hj),
    fun hg => (by cases hg)⟩
  have hne : OwnerStage.joining ≠ .waking := by decide
  rw [if_neg hne, hquitting]
  rfl

/-- Every step keeps the invariant. -/
theorem step (h : s.Inv) (hm : s.Move s') : s'.Inv := by
  cases hm with
  | stay => exact h
  | start owner => exact h.start owner
  | publish thread => exact h.publish thread
  | monitor e called honest =>
    exact ⟨h.synced.step called honest, h.loop, h.unborn, h.quits, h.quitting, h.fresh, h.told,
      h.left, h.joined, h.present⟩
  | «return» owner position =>
    have hsync := h.synced
    rw [owner] at hsync
    exact h.setOwner (hsync.through position) (by decide) (by rw [owner]; rfl)
      (by rw [owner]; decide) (by decide) (fun hj => by cases hj) (by decide)
  | enter thread position => exact h.enter thread position
  | loop e enters quits => exact h.loopStep enters quits
  | leave thread stage => exact h.leave thread stage
  | finish thread position => exact h.finish thread position
  | destroy owner =>
    rw [(h.data_of_started (.inl owner)).1, if_pos rfl]
    have hsync := h.synced
    rw [owner] at hsync
    exact h.setOwner ⟨hsync.locked, hsync.noMissed, hsync.replays, hsync.owner, hsync.thread,
      hsync.awaited⟩ (by decide) (by rw [owner]; rfl) (by rw [owner]; decide) (by decide)
      (fun hj => by cases hj) (by decide)
  | quit owner => exact h.quit owner
  | wakeup owner => exact h.wakeup owner
  | join owner thread =>
    have hsync := h.synced
    rw [owner] at hsync
    exact h.setOwner ⟨hsync.locked, hsync.noMissed, hsync.replays, hsync.owner, hsync.thread,
      hsync.awaited⟩ (by decide) (by rw [owner]; rfl) (by rw [owner]; decide) (by decide)
      (fun _ => thread) (by decide)

end Inv

/-! ### A call of `quit` before `loop`, and one after it -/

/-- What a step does to the calls of `quit` and to those that came before `loop`. -/
theorem Inv.quits_move (h : s.Inv) (hm : s.Move s') :
    s.loop.quits ≤ s'.loop.quits ∧
      (s'.thread.entered = s.thread.entered ∧ s'.loop.quitsBefore = s.loop.quitsBefore ∨
        s.thread.entered = false ∧ s'.loop.quitsBefore = s.loop.quits) := by
  have hquits := Nat.le_refl s.loop.quits
  cases hm with
  | stay | monitor | «return» | destroy | join => exact ⟨hquits, .inl ⟨rfl, rfl⟩⟩
  | start owner => exact ⟨hquits, .inl ⟨by rw [h.unborn owner]; rfl, rfl⟩⟩
  | publish thread | leave thread | finish thread => exact ⟨hquits, .inl ⟨by rw [thread]; rfl, rfl⟩⟩
  | enter thread =>
    have hentered : s.thread.entered = false := by
      rw [thread]
      rfl
    have hstep : s.loop.step .enter =
        { s.loop with stage := .testing, quit := false, quitsBefore := s.loop.quits } :=
      if_pos (h.fresh hentered).1
    rw [hstep]
    exact ⟨hquits, .inr ⟨hentered, rfl⟩⟩
  | loop e enters =>
    obtain ⟨hq, hb⟩ := s.loop.step_quits enters
    exact ⟨hq, .inl ⟨rfl, hb⟩⟩
  | quit =>
    obtain ⟨hq, hb⟩ := s.loop.step_quits (e := .quit 0) (by simp)
    exact ⟨hq, .inl ⟨rfl, hb⟩⟩
  | wakeup =>
    obtain ⟨hq, hb⟩ := s.loop.step_quits (e := .wakeup 0) (by simp)
    exact ⟨hq, .inl ⟨rfl, hb⟩⟩

/-- `quit` has been called before `loop`. -/
structure Missed (s : EventLoopThread F) : Prop where
  inv : s.Inv
  called : 0 < s.loop.quits
  before : s.thread.entered = true → s.loop.quitsBefore = s.loop.quits

/-- `loop` has been called, and no `quit` came before. -/
structure Heard (s : EventLoopThread F) : Prop where
  inv : s.Inv
  entered : s.thread.entered = true
  before : s.loop.quitsBefore = 0

private theorem Inv.quits_le (h : s.Inv) : s.loop.quits ≤ 1 := by
  rw [h.quits]
  cases s.owner <;> decide

private theorem Missed.step (h : s.Missed) (hm : s.Move s') : s'.Missed := by
  have hinv := h.inv.step hm
  obtain ⟨hle, hmove⟩ := h.inv.quits_move hm
  have hone := hinv.quits_le
  have hpos := h.called
  have heq : s'.loop.quits = s.loop.quits := by omega
  refine ⟨hinv, heq ▸ hpos, fun hentered => ?_⟩
  rcases hmove with ⟨ht, hb⟩ | ⟨-, hb⟩
  · rw [hb, heq]
    exact h.before (ht ▸ hentered)
  · rw [hb, heq]

private theorem Heard.step (h : s.Heard) (hm : s.Move s') : s'.Heard := by
  obtain ⟨-, ⟨ht, hb⟩ | ⟨ht, -⟩⟩ := h.inv.quits_move hm
  · exact ⟨h.inv.step hm, ht.trans h.entered, hb.trans h.before⟩
  · cases ht.symm.trans h.entered

/-- A thread that has missed the call stays in the loop. -/
theorem Missed.left_eq_false (h : s.Missed) : s.thread.left = false := by
  by_contra hl
  rw [Bool.not_eq_false] at hl
  have hentered := LoopThreadStage.entered_of_left hl
  have hlt := h.inv.told hentered (h.inv.left hl)
  rw [h.before hentered] at hlt
  exact Nat.lt_irrefl _ hlt

/-! ### Whole runs -/

/-- What every step keeps holds after a run. -/
theorem of_run {P : EventLoopThread F → Prop} (hstep : ∀ {s s'}, P s → s.Move s' → P s') (hs : P s)
    {events : List (LoopThreadEvent F)} (hl : Legal step Allowed s events)
    (hrun : Base.run step s events = some s') : P s' :=
  legal_some_invariant P (fun _ _ _ h ha he => hstep h (move_step ha he)) events hl hs hrun

/-- The only use of a loop that is gone. -/
theorem Inv.step_eq_none_iff (h : s.Inv) (e : LoopThreadEvent F) :
    s.step e = none ↔ e = .wakeup ∧ s.owner = .waking ∧ s.thread = .ended := by
  cases e with
  | quit =>
    simp only [EventLoopThread.step]
    refine ⟨fun hn => ?_, fun ⟨he, _⟩ => (by cases he)⟩
    split at hn
    · next ho =>
      split at hn
      · next ht =>
        have hleft := (h.data_of_started (.inr ho)).2
        rw [ht] at hleft
        cases hleft
      · cases hn
    · cases hn
  | wakeup =>
    simp only [EventLoopThread.step]
    split
    · next ho =>
      split
      · next ht => simp [ho, ht]
      · next ht => simp [ht]
    · next ho => simp [ho]
  | «return» | enter | finish =>
    simp only [EventLoopThread.step]
    split <;> simp
  | _ => simp [EventLoopThread.step]

/-- After any run: once `startLoop` has returned, the loop it returned is there until the destructor
has set `quit_`, and the destructor never finds `loop_` reset; `startLoop` does not sleep while
`loop_` is set. The only use of a loop that has been destroyed is the `wakeup` of the destructor,
when the thread has run to its end since `quit_` was set. If `quit` is called before the thread has
called `loop`, the thread never leaves the loop and the destructor never returns; if it is called
after that, the loop can always leave. -/
theorem loop_thread_handshake (events : List (LoopThreadEvent F)) (s : EventLoopThread F)
    (hl : Legal step Allowed {} events) (hrun : Base.run step {} events = some s) :
    (s.owner = .started ∨ s.owner = .quitting → s.monitor.data = true ∧ s.thread.left = false) ∧
      s.owner ≠ .gone ∧
      (s.monitor.data = true → s.monitor.position .creator ≠ .asleep .await) ∧
      (∀ e, s.step e = none ↔ e = .wakeup ∧ s.owner = .waking ∧ s.thread = .ended) ∧
      ∀ more s', Legal step Allowed s more → Base.run step s more = some s' →
        (s.thread.entered = false → s.owner.quits = 1 →
          s'.thread.left = false ∧ s'.owner ≠ .joined) ∧
        (s.thread.entered = true → s.owner.quits = 0 → s'.owner.quits = 1 →
          s'.loop.stage ≠ .outside →
          s'.loop.quit = true ∧ s'.loop.Exits
            (s'.loop.queue.pendingFunctors.length + s'.loop.queue.phase.running.length + 6)) := by
  have h : s.Inv := of_run Inv.step inv_new hl hrun
  refine ⟨h.data_of_started, h.present, fun hd hp => ?_, h.step_eq_none_iff,
    fun more s' hmore hrun' => ⟨fun ht hq => ?_, fun ht hq hq' hs => ?_⟩⟩
  · cases hd.symm.trans (h.synced.noMissed .creator .await (.inl hp))
  · have hmissed : s.Missed := ⟨h, by rw [h.quits, hq]; decide, fun he => by cases ht.symm.trans he⟩
    have hmissed' : s'.Missed := of_run Missed.step hmissed hmore hrun'
    have hleft := hmissed'.left_eq_false
    refine ⟨hleft, fun hj => ?_⟩
    rw [hmissed'.inv.joined hj] at hleft
    cases hleft
  · have hzero : s.loop.quitsBefore = 0 := by
      have hle := h.loop.before_le
      rw [h.quits, hq] at hle
      exact Nat.le_zero.mp hle
    have hheard : s'.Heard := of_run Heard.step ⟨h, ht, hzero⟩ hmore hrun'
    have hquit : s'.loop.quit = true := by
      rw [hheard.inv.loop.counted hs, hheard.before, hheard.inv.quits, hq']
      decide
    exact ⟨hquit, hheard.inv.loop.exits hs hquit⟩

/-- The owner falls asleep before `loop_` is set. -/
def startsLoop : List (LoopThreadEvent Nat) :=
  let all : Who → Bool := fun _ => true
  [.start, .monitor (.acquire .creator), .monitor (.assignHolder .creator),
    .monitor (.body .creator all), .monitor (.unassignHolder .creator),
    .monitor (.release .creator), .publish, .monitor (.acquire .created),
    .monitor (.assignHolder .created), .monitor (.body .created all),
    .monitor (.unassignHolder .created), .monitor (.release .created),
    .monitor (.acquire .creator), .monitor (.assignHolder .creator),
    .monitor (.body .creator all), .monitor (.unassignHolder .creator),
    .monitor (.release .creator), .return]

/-- The thread leaves the loop and ends between the two halves of `quit`. -/
def loopGone : List (LoopThreadEvent Nat) :=
  [.enter, .destroy, .quit, .test, .leave, .monitor (.acquire .created),
    .monitor (.assignHolder .created), .monitor (.body .created fun _ => false),
    .monitor (.unassignHolder .created), .monitor (.release .created), .finish]

/-- A `quit` before `loop` is lost, and one after it is followed by a `wakeup` too late. -/
theorem loop_thread_handshake_races :
    (∃ s, Base.run step {} (startsLoop ++ [.destroy, .quit]) = some s ∧
      ∀ more s', Legal step Allowed s more → Base.run step s more = some s' →
        s'.owner ≠ .joined) ∧
    ∃ s, Base.run step {} (startsLoop ++ loopGone) = some s ∧ s.step .wakeup = none := by
  have hlost : Legal step Allowed {} (startsLoop ++ [.destroy, .quit]) :=
    ⟨trivial, ⟨rfl, trivial⟩, ⟨rfl, trivial⟩, ⟨rfl, trivial⟩, ⟨rfl, trivial⟩, ⟨rfl, trivial⟩,
      trivial, ⟨rfl, trivial⟩, ⟨rfl, trivial⟩, ⟨rfl, fun j hj => ⟨j, hj, rfl⟩⟩, ⟨rfl, trivial⟩,
      ⟨rfl, trivial⟩, ⟨rfl, trivial⟩, ⟨rfl, trivial⟩, ⟨rfl, trivial⟩, ⟨rfl, trivial⟩,
      ⟨rfl, trivial⟩, trivial, trivial, trivial, trivial⟩
  have hgone : Legal step Allowed {} (startsLoop ++ loopGone) :=
    ⟨trivial, ⟨rfl, trivial⟩, ⟨rfl, trivial⟩, ⟨rfl, trivial⟩, ⟨rfl, trivial⟩, ⟨rfl, trivial⟩,
      trivial, ⟨rfl, trivial⟩, ⟨rfl, trivial⟩, ⟨rfl, fun j hj => ⟨j, hj, rfl⟩⟩, ⟨rfl, trivial⟩,
      ⟨rfl, trivial⟩, ⟨rfl, trivial⟩, ⟨rfl, trivial⟩, ⟨rfl, trivial⟩, ⟨rfl, trivial⟩,
      ⟨rfl, trivial⟩, trivial, trivial, trivial, trivial, trivial, trivial, ⟨rfl, trivial⟩,
      ⟨rfl, trivial⟩, ⟨rfl, trivial⟩, ⟨rfl, trivial⟩, ⟨rfl, trivial⟩, trivial, trivial⟩
  refine ⟨⟨_, rfl, fun more s' hmore hrun => ?_⟩, ⟨_, rfl, ?_⟩⟩
  · exact (((loop_thread_handshake _ _ hlost rfl).2.2.2.2 more s' hmore hrun).1 rfl rfl).2
  · exact ((loop_thread_handshake _ _ hgone rfl).2.2.2.1 .wakeup).mpr ⟨rfl, rfl, rfl⟩

end EventLoopThread

end IMServer.Reactor
