import Mathlib.Algebra.Group.Nat.Defs
import Mathlib.Data.Finset.Basic
import Mathlib.Data.List.Infix

/-!
# Functors queued in an event loop

`server/src/EventLoop.cc:95–163` and `226–261`: other threads push functors and then write to
the eventfd, the loop's thread pushes functors from event callbacks and from functors that it
runs, and the loop polls, handles events and runs what is pending. Every push, every write and
every read of the eventfd and the swap of the vectors is a step of its own.
-/

namespace IMServer.Reactor

/-- The largest value an eventfd counts to. -/
def eventfdMax : Nat := 2 ^ 64 - 2

/-- Where the loop's thread is. -/
inductive LoopPhase (F : Type) where
  /-- About to block in `poll`, or blocked there. -/
  | polling
  /-- Handling events; `wakeup` says whether the wakeup channel is still to be handled. -/
  | handling (wakeup : Bool)
  /-- In `doPendingFunctors`, with the functors that are still to be run. -/
  | calling (functors : List F)

/-- The functors that `doPendingFunctors` has taken and not run yet. -/
def LoopPhase.running {F : Type} : LoopPhase F → List F
  | .calling functors => functors
  | _ => []

/-- `EventLoop.h`: what `queueInLoop` and `loop` use. -/
structure EventLoop (F : Type) where
  pendingFunctors : List F := []
  callingPendingFunctors : Bool := false
  /-- The counter of `wakeupFd_`. -/
  wakeupFd : Nat := 0
  phase : LoopPhase F := .polling
  /-- The loop's thread has pushed a functor and is about to call `wakeup`. -/
  wakingInLoop : Bool := false
  /-- The other threads that have pushed a functor and are about to call `wakeup`. -/
  waking : Finset Nat := ∅
  /-- What has been pushed, in the order of the pushes. -/
  pushed : List F := []
  /-- What has been run, in the order of the runs. -/
  executed : List F := []
  /-- How often `doPendingFunctors` has returned. -/
  rounds : Nat := 0

/-- One step of a thread. -/
inductive LoopEvent (F : Type) where
  /-- Another thread pushes a functor; `EventLoop.cc:155–158`. -/
  | push (thread : Nat) (f : F)
  /-- Another thread calls `wakeup` after its push. -/
  | wakeup (thread : Nat)
  /-- The loop's thread pushes a functor, from a callback or from a functor it runs. -/
  | pushInLoop (f : F)
  /-- The loop's thread calls `wakeup` after its push. -/
  | wakeupInLoop
  /-- `poll` returns, with the wakeup channel among the active ones or not. -/
  | poll (wakeup : Bool)
  /-- The callback of the wakeup channel reads the eventfd. -/
  | handleRead
  /-- All events are handled, and `doPendingFunctors` swaps the vectors. -/
  | swap
  /-- `doPendingFunctors` runs its next functor. -/
  | run
  /-- `doPendingFunctors` returns. -/
  | finish

/-- The steps that the loop's thread takes of its own accord: it ends a call of `wakeup`, polls,
handles the wakeup channel and runs what is pending. -/
def LoopEvent.OfLoop {F : Type} : LoopEvent F → Prop
  | .wakeupInLoop | .poll _ | .handleRead | .swap | .run | .finish => True
  | .push _ _ | .wakeup _ | .pushInLoop _ => False

namespace EventLoop

variable {F : Type}

/-- `push_back` on `pendingFunctors_`, under the mutex. -/
def pushBack (l : EventLoop F) (f : F) : EventLoop F :=
  { l with pendingFunctors := l.pendingFunctors ++ [f], pushed := l.pushed ++ [f] }

/-- `EventLoop.cc:226–234`; a write that would overflow the counter fails and is only logged. -/
def wakeup (l : EventLoop F) : EventLoop F :=
  { l with wakeupFd := if l.wakeupFd < eventfdMax then l.wakeupFd + 1 else l.wakeupFd }

/-- A step that cannot happen leaves everything as it is. -/
def step (l : EventLoop F) : LoopEvent F → EventLoop F
  | .push thread f =>
    if thread ∈ l.waking then l else { l.pushBack f with waking := insert thread l.waking }
  | .wakeup thread =>
    if thread ∈ l.waking then { l.wakeup with waking := l.waking.erase thread } else l
  | .pushInLoop f =>
    match l.wakingInLoop, l.phase with
    | true, _ | _, .polling => l
    | false, _ => { l.pushBack f with wakingInLoop := l.callingPendingFunctors }
  | .wakeupInLoop => if l.wakingInLoop then { l.wakeup with wakingInLoop := false } else l
  | .poll wakeup =>
    match l.phase with
    | .polling => if wakeup && l.wakeupFd = 0 then l else { l with phase := .handling wakeup }
    | _ => l
  | .handleRead =>
    match l.wakingInLoop, l.phase with
    | false, .handling true => { l with wakeupFd := 0, phase := .handling false }
    | _, _ => l
  | .swap =>
    match l.wakingInLoop, l.phase with
    | false, .handling false =>
      { l with
        callingPendingFunctors := true
        pendingFunctors := []
        phase := .calling l.pendingFunctors }
    | _, _ => l
  | .run =>
    match l.wakingInLoop, l.phase with
    | false, .calling (f :: functors) =>
      { l with executed := l.executed ++ [f], phase := .calling functors }
    | _, _ => l
  | .finish =>
    match l.wakingInLoop, l.phase with
    | false, .calling [] =>
      { l with callingPendingFunctors := false, phase := .polling, rounds := l.rounds + 1 }
    | _, _ => l

/-! ### What every step keeps -/

/-- The three lists of functors make up what was pushed. -/
def InOrder (l : EventLoop F) : Prop :=
  l.executed ++ l.phase.running ++ l.pendingFunctors = l.pushed

/-- Outside the handling of events, whatever is pending has been announced or is about to be. -/
def Announced (l : EventLoop F) : Prop :=
  match l.phase with
  | .handling _ => True
  | _ => l.pendingFunctors = [] ∨ l.wakeupFd ≠ 0 ∨ l.waking ≠ ∅ ∨ l.wakingInLoop = true

/-- `callingPendingFunctors_` is set exactly in `doPendingFunctors`, and only there the loop's
thread has to call `wakeup`. -/
def Flagged (l : EventLoop F) : Prop :=
  match l.phase with
  | .calling _ => l.callingPendingFunctors = true
  | _ => l.callingPendingFunctors = false ∧ l.wakingInLoop = false

structure Inv (l : EventLoop F) : Prop where
  inOrder : l.InOrder
  announced : l.Announced
  flagged : l.Flagged

section Steps

variable {l : EventLoop F}

private theorem InOrder.pushBack (h : l.InOrder) (f : F) : (l.pushBack f).InOrder := by
  unfold InOrder at h ⊢
  simp only [EventLoop.pushBack, ← List.append_assoc, h]

/-- A wake-up can be read. -/
theorem wakeup_ne_zero (l : EventLoop F) : l.wakeup.wakeupFd ≠ 0 := by
  unfold wakeup
  dsimp only
  split
  · exact Nat.succ_ne_zero _
  · next h =>
    have : 0 < eventfdMax := by decide
    omega

/-- A wake-up that is not yet read announces the functors. -/
theorem Announced.of_wakeupFd (h : l.wakeupFd ≠ 0) : l.Announced := by
  unfold Announced
  split
  · trivial
  · exact .inr (.inl h)

/-- Another thread has pushed and is about to call `wakeup`. -/
theorem Inv.push (h : l.Inv) (thread : Nat) (f : F) :
    { l.pushBack f with waking := insert thread l.waking }.Inv := by
  refine ⟨h.inOrder.pushBack f, ?_, h.flagged⟩
  unfold Announced
  split
  · trivial
  · exact .inr (.inr (.inl (Finset.insert_ne_empty _ _)))

/-- The loop's thread has pushed; in `doPendingFunctors` the flag makes it call `wakeup`. -/
theorem Inv.pushInLoop (h : l.Inv) (hw : l.wakingInLoop = false) (hp : l.phase ≠ .polling) (f : F) :
    { l.pushBack f with wakingInLoop := l.callingPendingFunctors }.Inv := by
  obtain ⟨ho, ha, hf⟩ := h
  refine ⟨ho.pushBack f, ?_, ?_⟩
  · cases hphase : l.phase with
    | polling => exact absurd hphase hp
    | handling => simp [Announced, pushBack, hphase]
    | calling => simp_all [Announced, Flagged, pushBack]
  · cases hphase : l.phase <;> simp_all [Flagged, pushBack]

private theorem Inv.wakeupInLoop (h : l.Inv) : { l.wakeup with wakingInLoop := false }.Inv := by
  refine ⟨h.inOrder, .of_wakeupFd l.wakeup_ne_zero, ?_⟩
  have hf := h.flagged
  unfold Flagged at hf ⊢
  dsimp only [EventLoop.wakeup]
  split at hf
  · exact hf
  · exact ⟨hf.1, rfl⟩

/-- The pending functors are taken. -/
theorem Inv.swap (h : l.Inv) (hp : l.phase = .handling false) :
    { l with
      callingPendingFunctors := true
      pendingFunctors := []
      phase := .calling l.pendingFunctors }.Inv := by
  have ho := h.inOrder
  simp only [InOrder, hp, LoopPhase.running, List.append_nil] at ho
  refine ⟨?_, .inl rfl, rfl⟩
  simp only [InOrder, LoopPhase.running, List.append_nil]
  exact ho

private theorem Inv.run
    (h : l.Inv) {f : F} {functors : List F} (hp : l.phase = .calling (f :: functors)) :
    { l with executed := l.executed ++ [f], phase := .calling functors }.Inv := by
  obtain ⟨ho, ha, hf⟩ := h
  simp only [InOrder, Announced, Flagged, hp, LoopPhase.running] at ho ha hf
  refine ⟨?_, ha, hf⟩
  simp only [InOrder, LoopPhase.running, ← ho, List.append_assoc, List.cons_append,
    List.nil_append]

/-- Every step keeps the order, the announcements and the flags. -/
theorem Inv.step (h : l.Inv) (e : LoopEvent F) : (l.step e).Inv := by
  cases e with
  | push thread f =>
    simp only [EventLoop.step]
    split
    · exact h
    · exact h.push thread f
  | wakeup thread =>
    simp only [EventLoop.step]
    split
    · exact ⟨h.inOrder, .of_wakeupFd l.wakeup_ne_zero, h.flagged⟩
    · exact h
  | pushInLoop f =>
    simp only [EventLoop.step]
    split
    · exact h
    · exact h
    · next hw hp => exact h.pushInLoop hw hp f
  | wakeupInLoop =>
    simp only [EventLoop.step]
    split
    · exact h.wakeupInLoop
    · exact h
  | poll wakeup =>
    simp only [EventLoop.step]
    split
    · next hp =>
      split
      · exact h
      · obtain ⟨ho, -, hf⟩ := h
        simp only [InOrder, Flagged, hp] at ho hf
        exact ⟨ho, trivial, hf⟩
    · exact h
  | handleRead =>
    simp only [EventLoop.step]
    split
    · next hp =>
      obtain ⟨ho, -, hf⟩ := h
      simp only [InOrder, Flagged, hp] at ho hf
      exact ⟨ho, trivial, hf⟩
    · exact h
  | swap =>
    simp only [EventLoop.step]
    split
    · next hp => exact h.swap hp
    · exact h
  | run =>
    simp only [EventLoop.step]
    split
    · next hp => exact h.run hp
    · exact h
  | finish =>
    simp only [EventLoop.step]
    split
    · next hw hp =>
      obtain ⟨ho, ha, -⟩ := h
      simp only [InOrder, Announced, hp, LoopPhase.running] at ho ha
      exact ⟨ho, ha, rfl, hw⟩
    · exact h

/-- Nothing that was pushed is taken back. -/
theorem pushed_prefix_step (l : EventLoop F) (e : LoopEvent F) :
    l.pushed <+: (l.step e).pushed := by
  cases e <;> simp only [EventLoop.step]
  case push | pushInLoop =>
    split
    all_goals first | exact List.prefix_rfl | exact List.prefix_append _ _
  all_goals
    repeat' split
    all_goals exact List.prefix_rfl

/-- Of the functors pushed before the loop had returned from `doPendingFunctors` `r` times, the
first `n` have been taken when it is in the second call after that, and run when it returns. -/
structure Progress (n r : Nat) (l : EventLoop F) : Prop where
  pushed : n ≤ l.pushed.length
  rounds : r ≤ l.rounds
  taken : l.rounds = r + 1 → ∀ functors, l.phase = .calling functors →
    n ≤ l.executed.length + functors.length
  run : r + 2 ≤ l.rounds → n ≤ l.executed.length

/-- A step that runs nothing, takes nothing and does not return. -/
theorem Progress.congr {n r : Nat} {l' : EventLoop F} (h : Progress n r l)
    (hpushed : n ≤ l'.pushed.length) (hexecuted : l'.executed = l.executed)
    (hrounds : l'.rounds = l.rounds)
    (hphase : ∀ functors, l'.phase = .calling functors → l.phase = .calling functors) :
    Progress n r l' := by
  refine ⟨hpushed, hrounds ▸ h.rounds, fun hr functors hp => ?_, fun hr => ?_⟩
  · rw [hexecuted]
    exact h.taken (hrounds ▸ hr) functors (hphase functors hp)
  · rw [hexecuted]
    exact h.run (hrounds ▸ hr)

/-- Everything that is pending is taken. -/
theorem Progress.swap {n r : Nat} (h : Progress n r l) (hi : l.Inv)
    (hp : l.phase = .handling false) :
    Progress n r { l with
      callingPendingFunctors := true
      pendingFunctors := []
      phase := .calling l.pendingFunctors } := by
  have hlen := congrArg List.length hi.inOrder
  simp only [hp, LoopPhase.running, List.append_nil, List.length_append] at hlen
  refine ⟨h.pushed, h.rounds, ?_, h.run⟩
  rintro - functors ⟨⟩
  exact hlen ▸ h.pushed

/-- A functor that was taken has been run. -/
theorem Progress.ran {n r : Nat} (h : Progress n r l) {f : F} {functors : List F}
    (hp : l.phase = .calling (f :: functors)) :
    Progress n r { l with executed := l.executed ++ [f], phase := .calling functors } := by
  refine ⟨h.pushed, h.rounds, ?_, fun hr => ?_⟩
  · rintro hr _ ⟨⟩
    have htaken := h.taken hr _ hp
    simp only [List.length_append, List.length_cons, List.length_nil] at htaken ⊢
    omega
  · exact (h.run hr).trans (by simp)

/-- All functors that were taken have been run. -/
theorem Progress.finish {n r : Nat} (h : Progress n r l) (hp : l.phase = .calling []) :
    Progress n r { l with
      callingPendingFunctors := false, phase := .polling, rounds := l.rounds + 1 } := by
  refine ⟨h.pushed, Nat.le_succ_of_le h.rounds, fun _ _ => nofun, fun hr => ?_⟩
  dsimp only at hr
  by_cases hlast : l.rounds = r + 1
  · exact h.taken hlast [] hp
  · exact h.run (by omega)

private theorem Progress.step {n r : Nat} (h : Progress n r l) (hi : l.Inv) (e : LoopEvent F) :
    Progress n r (l.step e) := by
  have hpushed := h.pushed.trans (l.pushed_prefix_step e).length_le
  cases e with
  | push _ _ | wakeup _ | pushInLoop _ | wakeupInLoop =>
    refine h.congr hpushed ?_ ?_ ?_ <;> simp only [EventLoop.step] <;> split
    all_goals first | rfl | exact fun _ hp => hp
  | poll wakeup =>
    simp only [EventLoop.step]
    split
    · split
      · exact h
      · exact h.congr h.pushed rfl rfl nofun
    · exact h
  | handleRead =>
    simp only [EventLoop.step]
    split
    · exact h.congr h.pushed rfl rfl nofun
    · exact h
  | swap =>
    simp only [EventLoop.step]
    split
    · next hp => exact h.swap hi hp
    · exact h
  | run =>
    simp only [EventLoop.step]
    split
    · next hp => exact h.ran hp
    · exact h
  | finish =>
    simp only [EventLoop.step]
    split
    · next hp => exact h.finish hp
    · exact h

end Steps

/-- A loop that is about to poll for the first time. -/
def start : EventLoop F := {}

/-- Nothing is pending. -/
theorem inv_start : (start : EventLoop F).Inv := ⟨rfl, .inl rfl, rfl, rfl⟩

private theorem inv_run {l : EventLoop F} (h : l.Inv) (events : List (LoopEvent F)) :
    (events.foldl step l).Inv :=
  List.foldlRecOn events step h fun _ h e _ => h.step e

private theorem pushed_prefix_run (l : EventLoop F) (events : List (LoopEvent F)) :
    l.pushed <+: (events.foldl step l).pushed :=
  List.foldlRecOn (motive := fun l' => l.pushed <+: l'.pushed) events step List.prefix_rfl
    fun l' h e _ => h.trans (l'.pushed_prefix_step e)

private theorem progress_run {n r : Nat} {l : EventLoop F} (h : Progress n r l) (hi : l.Inv)
    (events : List (LoopEvent F)) : Progress n r (events.foldl step l) := by
  have hboth : (events.foldl step l).Inv ∧ Progress n r (events.foldl step l) :=
    List.foldlRecOn (motive := fun l' => l'.Inv ∧ Progress n r l') events step ⟨hi, h⟩
      fun _ h e _ => ⟨h.1.step e, h.2.step h.1 e⟩
  exact hboth.2

private theorem progress_refl (l : EventLoop F) : Progress l.pushed.length l.rounds l :=
  ⟨le_rfl, le_rfl, fun h => absurd h (by omega), fun h => absurd h (by omega)⟩

/-! ### The loop goes on -/

/-- The loop's own steps lead from `l` to `l'`. -/
def Reaches (l l' : EventLoop F) : Prop :=
  ∃ later : List (LoopEvent F), (∀ e ∈ later, e.OfLoop) ∧ later.foldl step l = l'

private theorem Reaches.trans {l₁ l₂ l₃ : EventLoop F} (h₁ : l₁.Reaches l₂) (h₂ : l₂.Reaches l₃) :
    l₁.Reaches l₃ := by
  obtain ⟨first, hfirst, rfl⟩ := h₁
  obtain ⟨second, hsecond, rfl⟩ := h₂
  refine ⟨first ++ second, fun e he => ?_, List.foldl_append⟩
  rcases List.mem_append.mp he with he | he
  · exact hfirst e he
  · exact hsecond e he

/-- One step of the loop's own. -/
theorem Reaches.head {l l' : EventLoop F} (e : LoopEvent F) (he : e.OfLoop)
    (h : (l.step e).Reaches l') : l.Reaches l' := by
  obtain ⟨later, hlater, rfl⟩ := h
  refine ⟨e :: later, fun e' he' => ?_, rfl⟩
  rcases List.mem_cons.mp he' with rfl | he'
  · exact he
  · exact hlater e' he'

private theorem Reaches.refl (l : EventLoop F) : l.Reaches l := ⟨[], by simp, rfl⟩

/-- In `doPendingFunctors` the functors that were taken are run one by one, and it returns. -/
theorem reaches_of_calling {functors : List F} {l : EventLoop F} (hw : l.wakingInLoop = false)
    (hp : l.phase = .calling functors) :
    ∃ l', l.Reaches l' ∧ l'.rounds = l.rounds + 1 := by
  induction functors generalizing l with
  | nil =>
    refine ⟨_, .head .finish trivial (.refl _), ?_⟩
    simp only [step, hw, hp]
  | cons f functors ih =>
    have hstep : l.step .run =
        { l with executed := l.executed ++ [f], phase := .calling functors } := by
      simp only [step, hw, hp]
    obtain ⟨l', hreach, hrounds⟩ := ih (l := l.step .run) (by rw [hstep]; exact hw) (by rw [hstep])
    refine ⟨l', .head .run trivial hreach, ?_⟩
    rw [hrounds, hstep]

/-- Once its events are handled, the loop takes what is pending and runs it. -/
theorem reaches_of_handled {l : EventLoop F} (hw : l.wakingInLoop = false)
    (hp : l.phase = .handling false) : ∃ l', l.Reaches l' ∧ l'.rounds = l.rounds + 1 := by
  have hstep : l.step .swap = { l with
      callingPendingFunctors := true
      pendingFunctors := []
      phase := .calling l.pendingFunctors } := by
    simp only [step, hw, hp]
  have hphase : (l.step .swap).phase = .calling l.pendingFunctors := by rw [hstep]
  obtain ⟨l', hreach, hrounds⟩ := reaches_of_calling (by rw [hstep]; exact hw) hphase
  refine ⟨l', .head .swap trivial hreach, ?_⟩
  rw [hrounds, hstep]

/-- Wherever it is, the loop returns from `doPendingFunctors` by its own steps. -/
theorem reaches_next_round (l : EventLoop F) : ∃ l', l.Reaches l' ∧ l'.rounds = l.rounds + 1 := by
  -- a call of `wakeup` that has begun ends first, and changes neither phase nor rounds
  have hwake : (l.step .wakeupInLoop).wakingInLoop = false ∧
      (l.step .wakeupInLoop).phase = l.phase ∧ (l.step .wakeupInLoop).rounds = l.rounds := by
    cases hw : l.wakingInLoop <;> simp [step, hw, wakeup]
  obtain ⟨hw, hphase, hrounds⟩ := hwake
  suffices h : ∃ l', (l.step .wakeupInLoop).Reaches l' ∧
      l'.rounds = (l.step .wakeupInLoop).rounds + 1 by
    obtain ⟨l', hreach, hr⟩ := h
    exact ⟨l', .head .wakeupInLoop trivial hreach, by rw [hr, hrounds]⟩
  generalize l.step .wakeupInLoop = m at hw
  cases hp : m.phase with
  | polling =>
    have hstep : m.step (.poll false) = { m with phase := .handling false } := by
      simp [step, hp]
    obtain ⟨l', hreach, hr⟩ := reaches_of_handled (l := m.step (.poll false))
      (by rw [hstep]; exact hw) (by rw [hstep])
    exact ⟨l', .head (.poll false) trivial hreach, by rw [hr, hstep]⟩
  | handling wakeup =>
    have hstep : (m.step .handleRead).wakingInLoop = false ∧
        (m.step .handleRead).phase = .handling false ∧
        (m.step .handleRead).rounds = m.rounds := by
      cases wakeup <;> simp [step, hw, hp]
    obtain ⟨hw', hp', hr'⟩ := hstep
    obtain ⟨l', hreach, hr⟩ := reaches_of_handled hw' hp'
    exact ⟨l', .head .handleRead trivial hreach, by rw [hr, hr']⟩
  | calling functors => exact reaches_of_calling hw hp

end EventLoop

end IMServer.Reactor
