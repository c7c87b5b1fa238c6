import IMServer.Reactor.PendingFunctors

/-!
# Quitting an event loop

`EventLoop::loop` and `EventLoop::quit` (`server/src/EventLoop.cc:95–138`) around the queue of
functors. `loop` sets `quit_` to false before it tests it for the first time, so a call of `quit`
that comes earlier is lost. A later one ends the loop with the iteration it finds, and leaves the
functors behind that were queued since that iteration took its functors.
-/

namespace IMServer.Reactor

/-! ### What a step does to the queue -/

namespace EventLoop

variable {F : Type}

/-- The ways a step of the queue can go. -/
inductive Move (l : EventLoop F) : LoopEvent F → EventLoop F → Prop where
  /-- Functors are pushed or the eventfd is written, or nothing happens. -/
  | aside {e : LoopEvent F} {l' : EventLoop F} (phase : l'.phase = l.phase)
      (rounds : l'.rounds = l.rounds)
      (calling : l'.callingPendingFunctors = l.callingPendingFunctors)
      (executed : l'.executed = l.executed) (pushed : l.pushed <+: l'.pushed)
      (fd : l.wakeupFd ≠ 0 → l'.wakeupFd ≠ 0) : Move l e l'
  | poll (wakeup : Bool) (phase : l.phase = .polling) :
    Move l (.poll wakeup) { l with phase := .handling wakeup }
  | handleRead (phase : l.phase = .handling true) :
    Move l .handleRead { l with wakeupFd := 0, phase := .handling false }
  | swap (phase : l.phase = .handling false) :
    Move l .swap { l with
      callingPendingFunctors := true
      pendingFunctors := []
      phase := .calling l.pendingFunctors }
  | run (f : F) (functors : List F) (phase : l.phase = .calling (f :: functors)) :
    Move l .run { l with executed := l.executed ++ [f], phase := .calling functors }
  | finish (phase : l.phase = .calling []) :
    Move l .finish { l with
      callingPendingFunctors := false, phase := .polling, rounds := l.rounds + 1 }

private theorem Move.stay {l : EventLoop F} {e : LoopEvent F} : Move l e l :=
  .aside rfl rfl rfl rfl List.prefix_rfl id

/-- Every event is a move. -/
theorem move_step (l : EventLoop F) (e : LoopEvent F) : Move l e (l.step e) := by
  have hw : l.wakeupFd ≠ 0 → l.wakeup.wakeupFd ≠ 0 := fun _ => l.wakeup_ne_zero
  cases e with
  | push thread f =>
    simp only [step]
    split
    · exact .stay
    · exact .aside rfl rfl rfl rfl (List.prefix_append _ _) id
  | wakeup thread =>
    simp only [step]
    split
    · exact .aside rfl rfl rfl rfl List.prefix_rfl hw
    · exact .stay
  | pushInLoop f =>
    simp only [step]
    split
    · exact .stay
    · exact .stay
    · exact .aside rfl rfl rfl rfl (List.prefix_append _ _) id
  | wakeupInLoop =>
    simp only [step]
    split
    · exact .aside rfl rfl rfl rfl List.prefix_rfl hw
    · exact .stay
  | poll wakeup =>
    simp only [step]
    split
    · next hp =>
      split
      · exact .stay
      · exact .poll wakeup hp
    · exact .stay
  | handleRead =>
    simp only [step]
    split
    · next hp => exact .handleRead hp
    · exact .stay
  | swap =>
    simp only [step]
    split
    · next hp => exact .swap hp
    · exact .stay
  | run =>
    simp only [step]
    split
    · next f functors _ hp => exact .run f functors hp
    · exact .stay
  | finish =>
    simp only [step]
    split
    · next hp => exact .finish hp
    · exact .stay

end EventLoop

/-! ### The loop -/

/-- Where the loop's thread is in `loop`. -/
inductive Stage where
  /-- `loop` has not been called, or has returned. -/
  | outside
  /-- At the test of `while (!quit_)`. -/
  | testing
  /-- In the body of the loop. -/
  | inside
  deriving DecidableEq, Repr

/-- `EventLoop.h`: what `loop` and `quit` use, around the queue. -/
structure QuitLoop (F : Type) where
  queue : EventLoop F := {}
  stage : Stage := .outside
  quit : Bool := false
  iteration : Nat := 0
  /-- The other threads that have set `quit_` and are about to call `wakeup`. -/
  quitting : Finset Nat := ∅
  /-- How many functors had been pushed when `doPendingFunctors` last took them. -/
  taken : Nat := 0
  /-- How often `quit` has been called, and how often before `loop` last began. -/
  quits : Nat := 0
  quitsBefore : Nat := 0

/-- The step is one of the loop's own thread. -/
def LoopEvent.inLoopThread {F : Type} : LoopEvent F → Bool
  | .push _ _ | .wakeup _ => false
  | _ => true

def LoopPhase.isPolling {F : Type} : LoopPhase F → Bool
  | .polling => true
  | _ => false

/-- One step of a thread. -/
inductive QuitEvent (F : Type) where
  /-- A step of the queue of functors. -/
  | queue (e : LoopEvent F)
  /-- `loop` is called; `EventLoop.cc:97–100`. -/
  | enter
  /-- `quit_` is tested; line 103. -/
  | test
  /-- Another thread sets `quit_`; line 130. -/
  | quit (thread : Nat)
  /-- Another thread calls `wakeup` after that; line 136. -/
  | wakeup (thread : Nat)
  /-- A callback or a functor in the loop's thread calls `quit`. -/
  | quitInLoop

/-- What the loop's thread does on its own, and the `wakeup` of a thread that has set `quit_`. -/
def QuitEvent.helps {F : Type} : QuitEvent F → Bool
  | .test | .wakeup _ => true
  | .queue (.poll woken) => woken
  | .queue .wakeupInLoop | .queue .handleRead | .queue .swap | .queue .run | .queue .finish => true
  | _ => false

namespace QuitLoop

variable {F : Type}

/-- A step of the queue: `poll` counts the iteration, and when `doPendingFunctors` has returned,
`quit_` is tested. -/
def advance (s : QuitLoop F) (e : LoopEvent F) : QuitLoop F :=
  let queue := s.queue.step e
  { s with
    queue
    iteration := if s.queue.phase.isPolling && !queue.phase.isPolling then s.iteration + 1
      else s.iteration
    stage := if queue.rounds = s.queue.rounds then s.stage else .testing
    taken := if queue.callingPendingFunctors && !s.queue.callingPendingFunctors then
      s.queue.pushed.length else s.taken }

/-- A step that cannot happen leaves everything as it is. -/
def step (s : QuitLoop F) : QuitEvent F → QuitLoop F
  | .queue e => if e.inLoopThread && s.stage ≠ .inside then s else s.advance e
  | .enter =>
    if s.stage = .outside then { s with stage := .testing, quit := false, quitsBefore := s.quits }
    else s
  | .test =>
    if s.stage = .testing then { s with stage := if s.quit then .outside else .inside } else s
  | .quit thread =>
    if thread ∈ s.quitting then s
    else { s with quit := true, quits := s.quits + 1, quitting := insert thread s.quitting }
  | .wakeup thread =>
    if thread ∈ s.quitting then
      { s with queue := s.queue.wakeup, quitting := s.quitting.erase thread }
    else s
  | .quitInLoop =>
    if s.stage = .inside ∧ s.queue.phase.isPolling = false then
      { s with quit := true, quits := s.quits + 1 }
    else s

/-- What every step keeps. -/
structure Inv (s : QuitLoop F) : Prop where
  queue : s.queue.Inv
  /-- Outside the body of the loop no functor is being run. -/
  idle : s.stage ≠ .inside → s.queue.phase = .polling
  /-- A loop that polls after it was told to quit has been woken up or is about to be. -/
  told : s.stage = .inside → s.queue.phase = .polling → s.quit = true →
    s.queue.wakeupFd ≠ 0 ∨ s.quitting ≠ ∅
  before_le : s.quitsBefore ≤ s.quits
  counted : s.stage ≠ .outside → (s.quit = true ↔ s.quitsBefore < s.quits)
  taken : s.queue.executed.length + s.queue.phase.running.length = s.taken

section Steps

variable {s : QuitLoop F}

/-- Before the loop. -/
theorem inv_start : ({} : QuitLoop F).Inv :=
  ⟨EventLoop.inv_start, fun _ => rfl, nofun, Nat.le_refl 0, fun h => absurd rfl h, rfl⟩

/-- A step of the queue that the stage allows. -/
theorem Inv.advance (h : s.Inv) {e : LoopEvent F}
    (hin : e.inLoopThread = true → s.stage = .inside) : (s.advance e).Inv := by
  have hm := s.queue.move_step e
  have hq := h.queue.step e
  have hflag := h.queue.flagged
  have hlen := congrArg List.length h.queue.inOrder
  have htaken := h.taken
  unfold QuitLoop.advance
  generalize s.queue.step e = l' at hm hq ⊢
  cases hm with
  | aside phase rounds calling executed pushed fd =>
    simp only [phase, rounds, calling, Bool.and_not_self, Bool.false_eq_true, if_false, if_true]
    refine ⟨hq, fun hs => phase ▸ h.idle hs, fun hs hp ht => ?_, h.before_le, h.counted, ?_⟩
    · exact (h.told hs (phase ▸ hp) ht).imp_left fd
    · rw [executed, phase]
      exact htaken
  | poll wakeup phase =>
    have hs := hin rfl
    rw [phase] at htaken
    simp only [Bool.and_not_self, Bool.false_eq_true, if_false, if_true, hs]
    exact ⟨hq, fun hn => absurd rfl hn, (fun _ hp => by cases hp), h.before_le,
      fun _ => h.counted (by simp [hs]), htaken⟩
  | handleRead phase =>
    have hs := hin rfl
    rw [phase] at htaken
    simp only [Bool.and_not_self, Bool.false_eq_true, if_false, if_true, hs]
    exact ⟨hq, fun hn => absurd rfl hn, (fun _ hp => by cases hp), h.before_le,
      fun _ => h.counted (by simp [hs]), htaken⟩
  | swap phase =>
    have hs := hin rfl
    simp only [EventLoop.Flagged, phase] at hflag
    simp only [phase, LoopPhase.running, List.append_nil, List.length_append] at hlen
    simp only [hflag.1, Bool.not_false, Bool.and_true, if_true, hs]
    exact ⟨hq, fun hn => absurd rfl hn, (fun _ hp => by cases hp), h.before_le,
      fun _ => h.counted (by simp [hs]), hlen⟩
  | run f functors phase =>
    have hs := hin rfl
    simp only [phase, LoopPhase.running, List.length_cons] at htaken
    simp only [Bool.and_not_self, Bool.false_eq_true, if_false, if_true, hs]
    refine ⟨hq, fun hn => absurd rfl hn, (fun _ hp => by cases hp), h.before_le,
      fun _ => h.counted (by simp [hs]), ?_⟩
    simp only [List.length_append, List.length_singleton, LoopPhase.running]
    omega
  | finish phase =>
    have hs := hin rfl
    rw [phase] at htaken
    simp only [Bool.false_and, Bool.false_eq_true, if_false, Nat.add_eq_left, Nat.one_ne_zero]
    exact ⟨hq, fun _ => rfl, fun hn => (by cases hn), h.before_le,
      fun _ => h.counted (by simp [hs]), htaken⟩

/-- Every step keeps the invariant. -/
theorem Inv.step (h : s.Inv) (e : QuitEvent F) : (s.step e).Inv := by
  cases e with
  | queue e =>
    simp only [QuitLoop.step]
    split
    · exact h
    · next hn =>
      refine h.advance fun he => ?_
      simpa [he] using hn
  | enter =>
    simp only [QuitLoop.step]
    split
    · next hs =>
      exact ⟨h.queue, fun _ => h.idle (by simp [hs]), nofun, Nat.le_refl _,
        fun _ => by simp, h.taken⟩
    · exact h
  | test =>
    simp only [QuitLoop.step]
    split
    · next hs =>
      have hidle := h.idle (by simp [hs])
      have hcount := h.counted (by simp [hs])
      refine ⟨h.queue, fun _ => hidle, fun hin _ ht => ?_, h.before_le, fun _ => hcount, h.taken⟩
      simp only at hin ht
      simp [ht] at hin
    · exact h
  | quit thread =>
    simp only [QuitLoop.step]
    split
    · exact h
    · have hlt : s.quitsBefore < s.quits + 1 := Nat.lt_succ_of_le h.before_le
      exact ⟨h.queue, h.idle, fun _ _ _ => .inr (Finset.insert_ne_empty _ _),
        Nat.le_of_lt hlt, fun _ => iff_of_true rfl hlt, h.taken⟩
  | wakeup thread =>
    simp only [QuitLoop.step]
    split
    · refine ⟨⟨h.queue.inOrder, .of_wakeupFd s.queue.wakeup_ne_zero, h.queue.flagged⟩, h.idle,
        fun _ _ _ => .inl s.queue.wakeup_ne_zero, h.before_le, h.counted, h.taken⟩
    · exact h
  | quitInLoop =>
    simp only [QuitLoop.step]
    split
    · next hs =>
      have hlt : s.quitsBefore < s.quits + 1 := Nat.lt_succ_of_le h.before_le
      refine ⟨h.queue, h.idle, fun _ hp => ?_, Nat.le_of_lt hlt, fun _ => iff_of_true rfl hlt,
        h.taken⟩
      rw [hp] at hs
      cases hs.2
    · exact h

private theorem inv_run (h : s.Inv) (events : List (QuitEvent F)) : (events.foldl step s).Inv :=
  List.foldlRecOn events step h fun _ h e _ => h.step e

/-! ### After a call of `quit` -/

/-- How many more times `poll` can return before `quit_` is tested. -/
def pollsLeft (s : QuitLoop F) : Nat :=
  if s.stage = .inside ∧ s.queue.phase.isPolling = true then 1 else 0

/-- The loop has been told to quit, and `poll` will return at most until the given iteration. -/
structure Ending (k : Nat) (s : QuitLoop F) : Prop where
  told : s.stage ≠ .outside → s.quit = true
  iteration_le : s.iteration + s.pollsLeft ≤ k

private theorem Ending.advance {k : Nat} (h : Ending k s) {e : LoopEvent F}
    (hin : e.inLoopThread = true → s.stage = .inside) : Ending k (s.advance e) := by
  obtain ⟨htold, hle⟩ := h
  have hm := s.queue.move_step e
  unfold QuitLoop.advance
  unfold pollsLeft at hle
  generalize s.queue.step e = l' at hm ⊢
  cases hm with
  | aside phase rounds calling executed pushed fd =>
    simp only [phase, rounds, Bool.and_not_self, Bool.false_eq_true, if_false, if_true]
    refine ⟨htold, ?_⟩
    simp only [pollsLeft, phase]
    exact hle
  | poll wakeup phase =>
    have hs := hin rfl
    simp only [hs, phase, LoopPhase.isPolling, and_self, if_true] at hle
    refine ⟨fun _ => htold (by simp [hs]), ?_⟩
    simpa [pollsLeft, phase, LoopPhase.isPolling] using hle
  | handleRead phase | swap phase | run f functors phase =>
    have hs := hin rfl
    refine ⟨fun _ => htold (by simp [hs]), ?_⟩
    simp only [phase, pollsLeft, LoopPhase.isPolling, Bool.false_and, Bool.false_eq_true,
      if_false, and_false]
    omega
  | finish phase =>
    have hs := hin rfl
    refine ⟨fun _ => htold (by simp [hs]), ?_⟩
    simp only [phase, pollsLeft, LoopPhase.isPolling, Bool.false_and, Bool.false_eq_true,
      if_false, Nat.add_eq_left, Nat.one_ne_zero, reduceCtorEq, false_and]
    omega

/-- Until `loop` is called again, no step lets the loop go on for longer. -/
theorem Ending.step {k : Nat} (h : Ending k s) {e : QuitEvent F} (he : e ≠ .enter) :
    Ending k (s.step e) := by
  cases e with
  | queue e =>
    simp only [QuitLoop.step]
    split
    · exact h
    · next hn =>
      refine h.advance fun he => ?_
      simpa [he] using hn
  | enter => exact absurd rfl he
  | test =>
    simp only [QuitLoop.step]
    split
    · next hs =>
      have ht := h.told (by simp [hs])
      have hle := h.iteration_le
      simp only [ht, if_true]
      refine ⟨fun hn => absurd rfl hn, ?_⟩
      simp only [pollsLeft, reduceCtorEq, false_and, if_false]
      omega
    · exact h
  | quit thread =>
    simp only [QuitLoop.step]
    split
    · exact h
    · exact ⟨fun _ => rfl, h.iteration_le⟩
  | wakeup thread =>
    simp only [QuitLoop.step]
    split
    · exact ⟨h.told, h.iteration_le⟩
    · exact h
  | quitInLoop =>
    simp only [QuitLoop.step]
    split
    · exact ⟨fun _ => rfl, h.iteration_le⟩
    · exact h

private theorem ending_run {k : Nat} (h : Ending k s) (events : List (QuitEvent F))
    (he : .enter ∉ events) : Ending k (events.foldl QuitLoop.step s) :=
  List.foldlRecOn (motive := Ending k) events QuitLoop.step h
    fun _ h _ hm => h.step fun heq => he (heq ▸ hm)

/-- A loop that has been left was told to quit. -/
theorem left_step (h : s.Inv) (hl : s.stage = .outside → s.quitsBefore < s.quits)
    {e : QuitEvent F} (he : e ≠ .enter) (ho : (s.step e).stage = .outside) :
    (s.step e).quitsBefore < (s.step e).quits := by
  cases e with
  | queue e =>
    simp only [QuitLoop.step] at ho ⊢
    split at ho
    · next hn =>
      rw [if_pos hn]
      exact hl ho
    · next hn =>
      rw [if_neg hn]
      refine hl ?_
      simp only [QuitLoop.advance] at ho
      split at ho
      · exact ho
      · cases ho
  | enter => exact absurd rfl he
  | test =>
    simp only [QuitLoop.step] at ho ⊢
    by_cases hs : s.stage = .testing
    · rw [if_pos hs] at ho ⊢
      refine (h.counted (by simp [hs])).mp ?_
      by_contra hq
      simp [hq] at ho
    · rw [if_neg hs] at ho ⊢
      exact hl ho
  | quit thread =>
    simp only [QuitLoop.step] at ho ⊢
    split
    · next hn =>
      rw [if_pos hn] at ho
      exact hl ho
    · exact Nat.lt_succ_of_le h.before_le
  | wakeup thread =>
    simp only [QuitLoop.step] at ho ⊢
    split at ho
    · next hn =>
      rw [if_pos hn]
      exact hl ho
    · next hn =>
      rw [if_neg hn]
      exact hl ho
  | quitInLoop =>
    simp only [QuitLoop.step] at ho ⊢
    split
    · exact Nat.lt_succ_of_le h.before_le
    · next hn =>
      rw [if_neg hn] at ho
      exact hl ho

private theorem left_run (h : s.Inv) (hs : s.stage ≠ .outside) (events : List (QuitEvent F))
    (he : .enter ∉ events) (ho : (events.foldl step s).stage = .outside) :
    (events.foldl step s).quitsBefore < (events.foldl step s).quits := by
  have hboth : (events.foldl step s).Inv ∧ ((events.foldl step s).stage = .outside →
      (events.foldl step s).quitsBefore < (events.foldl step s).quits) :=
    List.foldlRecOn
      (motive := fun s' => s'.Inv ∧ (s'.stage = .outside → s'.quitsBefore < s'.quits))
      events step ⟨h, fun h => absurd h hs⟩
      fun _ h e hm => ⟨h.1.step e, left_step h.1 h.2 fun heq => he (heq ▸ hm)⟩
  exact hboth.2 ho

/-- Outside the body of the loop, what was taken has been run and the rest is pending. -/
theorem Inv.functors_eq (h : s.Inv) (hs : s.stage ≠ .inside) :
    s.queue.executed = s.queue.pushed.take s.taken ∧
      s.queue.pendingFunctors = s.queue.pushed.drop s.taken := by
  have horder := h.queue.inOrder
  have htaken := h.taken
  simp only [EventLoop.InOrder, h.idle hs, LoopPhase.running, List.append_nil, List.length_nil,
    Nat.add_zero] at horder htaken
  rw [← horder, ← htaken, List.take_left, List.drop_left]
  exact ⟨rfl, rfl⟩

/-! ### The way out -/

/-- At most so many steps, of the loop's thread and of threads on their way to `wakeup`, make `loop`
return. -/
def Exits (n : Nat) (s : QuitLoop F) : Prop :=
  ∃ own : List (QuitEvent F), own.length ≤ n ∧ own.all QuitEvent.helps = true ∧
    (own.foldl step s).stage = .outside

private theorem Exits.of_step {n : Nat} {e : QuitEvent F} (he : e.helps = true)
    (h : Exits n (s.step e)) : Exits (n + 1) s := by
  obtain ⟨own, hlen, hown, hout⟩ := h
  refine ⟨e :: own, ?_, ?_, hout⟩
  · simp only [List.length_cons]
    omega
  · simp only [List.all_cons, he, hown, Bool.and_self]

private theorem Exits.mono {m n : Nat} (h : Exits m s) (hmn : m ≤ n) : Exits n s := by
  obtain ⟨own, hlen, hrest⟩ := h
  exact ⟨own, hlen.trans hmn, hrest⟩

private theorem exits_testing (hs : s.stage = .testing) (hq : s.quit = true) : Exits 1 s := by
  refine ⟨[.test], Nat.le_refl 1, rfl, ?_⟩
  simp [QuitLoop.step, hs, hq]

/-- The functors that were taken are run first. -/
theorem exits_calling (functors : List F) (hs : s.stage = .inside) (hq : s.quit = true)
    (hw : s.queue.wakingInLoop = false) (hp : s.queue.phase = .calling functors) :
    Exits (functors.length + 2) s := by
  induction functors generalizing s with
  | nil =>
    refine Exits.of_step (e := .queue .finish) rfl (exits_testing ?_ ?_)
    · simp [QuitLoop.step, QuitLoop.advance, EventLoop.step, LoopEvent.inLoopThread, hs, hw, hp]
    · simp [QuitLoop.step, QuitLoop.advance, hs, hq]
  | cons f functors ih =>
    refine Exits.of_step (e := .queue .run) rfl (ih ?_ ?_ ?_ ?_)
    · simp [QuitLoop.step, QuitLoop.advance, EventLoop.step, LoopEvent.inLoopThread, hs, hw, hp]
    · simp [QuitLoop.step, QuitLoop.advance, hs, hq]
    · simp [QuitLoop.step, QuitLoop.advance, EventLoop.step, LoopEvent.inLoopThread, hs, hw, hp]
    · simp [QuitLoop.step, QuitLoop.advance, EventLoop.step, LoopEvent.inLoopThread, hs, hw, hp]

private theorem exits_swapping (hs : s.stage = .inside) (hq : s.quit = true)
    (hw : s.queue.wakingInLoop = false) (hp : s.queue.phase = .handling false) :
    Exits (s.queue.pendingFunctors.length + 3) s := by
  refine Exits.of_step (e := .queue .swap) rfl (exits_calling _ ?_ ?_ ?_ ?_)
  · simp [QuitLoop.step, QuitLoop.advance, EventLoop.step, LoopEvent.inLoopThread, hs, hw, hp]
  · simp [QuitLoop.step, QuitLoop.advance, hs, hq]
  · simp [QuitLoop.step, QuitLoop.advance, EventLoop.step, LoopEvent.inLoopThread, hs, hw, hp]
  · simp [QuitLoop.step, QuitLoop.advance, EventLoop.step, LoopEvent.inLoopThread, hs, hw, hp]

private theorem exits_handling (hs : s.stage = .inside) (hq : s.quit = true)
    (hw : s.queue.wakingInLoop = false) (hp : s.queue.phase = .handling true) :
    Exits (s.queue.pendingFunctors.length + 4) s := by
  let s' : QuitLoop F :=
    { s with queue := { s.queue with wakeupFd := 0, phase := .handling false } }
  have hstep : s.step (.queue .handleRead) = s' := by
    simp [s', QuitLoop.step, QuitLoop.advance, EventLoop.step, LoopEvent.inLoopThread, hs, hw, hp,
      LoopPhase.isPolling]
  refine Exits.of_step (e := .queue .handleRead) rfl ?_
  rw [hstep]
  exact exits_swapping (s := s') hs hq hw rfl

private theorem exits_polling (hs : s.stage = .inside) (hq : s.quit = true)
    (hw : s.queue.wakingInLoop = false) (hp : s.queue.phase = .polling)
    (hfd : s.queue.wakeupFd ≠ 0) : Exits (s.queue.pendingFunctors.length + 5) s := by
  let s' : QuitLoop F :=
    { s with queue := { s.queue with phase := .handling true }, iteration := s.iteration + 1 }
  have hstep : s.step (.queue (.poll true)) = s' := by
    simp [s', QuitLoop.step, QuitLoop.advance, EventLoop.step, LoopEvent.inLoopThread, hs, hp, hfd,
      LoopPhase.isPolling]
  refine Exits.of_step (e := .queue (.poll true)) rfl ?_
  rw [hstep]
  exact exits_handling (s := s') hs hq hw rfl

/-- A loop that has been told to quit can always leave. -/
theorem Inv.exits (h : s.Inv) (hs : s.stage ≠ .outside) (hq : s.quit = true) :
    Exits (s.queue.pendingFunctors.length + s.queue.phase.running.length + 6) s := by
  cases hst : s.stage with
  | outside => exact absurd hst hs
  | testing => exact (exits_testing hst hq).mono (by omega)
  | inside =>
    have hflag := h.queue.flagged
    cases hp : s.queue.phase with
    | polling =>
      simp only [EventLoop.Flagged, hp] at hflag
      rcases h.told hst hp hq with hfd | hne
      · exact (exits_polling hst hq hflag.2 hp hfd).mono (by omega)
      · obtain ⟨thread, ht⟩ := Finset.nonempty_iff_ne_empty.mpr hne
        have hstep : s.step (.wakeup thread) =
            { s with queue := s.queue.wakeup, quitting := s.quitting.erase thread } := by
          simp only [QuitLoop.step, if_pos ht]
        have hexit : Exits (s.queue.pendingFunctors.length + 5) (s.step (.wakeup thread)) := by
          rw [hstep]
          exact exits_polling
            (s := { s with queue := s.queue.wakeup, quitting := s.quitting.erase thread })
            hst hq hflag.2 hp s.queue.wakeup_ne_zero
        exact (Exits.of_step rfl hexit).mono (by omega)
    | handling wakeup =>
      simp only [EventLoop.Flagged, hp] at hflag
      cases wakeup
      · exact (exits_swapping hst hq hflag.2 hp).mono (by omega)
      · exact (exits_handling hst hq hflag.2 hp).mono (by omega)
    | calling functors =>
      cases hw : s.queue.wakingInLoop with
      | false =>
        exact (exits_calling functors hst hq hw hp).mono (by simp [LoopPhase.running]; omega)
      | true =>
        have hstep : s.step (.queue .wakeupInLoop) =
            { s with queue := { s.queue.wakeup with wakingInLoop := false } } := by
          simp [QuitLoop.step, QuitLoop.advance, EventLoop.step, LoopEvent.inLoopThread, hst, hw,
            EventLoop.wakeup]
        have hexit : Exits (functors.length + 2) (s.step (.queue .wakeupInLoop)) := by
          rw [hstep]
          exact exits_calling functors hst hq rfl hp
        exact (Exits.of_step rfl hexit).mono (by simp [LoopPhase.running]; omega)

end Steps

/-- Whatever the threads do before and after: while `loop` runs, `quit_` is set exactly when `quit`
has been called since `loop` began. Once it is set, `poll` returns at most once more, and only if
it is blocking now; the loop can leave by its own steps and the `wakeup` of the threads that have
set it. It never leaves without such a call. When it has left, exactly the functors pushed since
`doPendingFunctors` last took them have not been run. -/
theorem quit_ends_the_loop (before after : List (QuitEvent F)) (h : .enter ∉ after) :
    let s := before.foldl step {}
    let s' := after.foldl step s
    s.stage ≠ .outside →
      (s.quit = true ↔ s.quitsBefore < s.quits) ∧
      (s.quit = true → s'.iteration ≤ s.iteration + s.pollsLeft ∧
        (s'.stage ≠ .outside →
          Exits (s'.queue.pendingFunctors.length + s'.queue.phase.running.length + 6) s')) ∧
      (s'.stage = .outside → s'.quitsBefore < s'.quits ∧
        s'.queue.executed = s'.queue.pushed.take s'.taken ∧
        s'.queue.pendingFunctors = s'.queue.pushed.drop s'.taken) := by
  intro s s' hs
  have hinv : s.Inv := inv_run inv_start before
  have hinv' : s'.Inv := inv_run hinv after
  refine ⟨hinv.counted hs, fun hq => ?_, fun ho => ⟨left_run hinv hs after h ho, ?_⟩⟩
  · have hend : Ending (s.iteration + s.pollsLeft) s' :=
      ending_run ⟨fun _ => hq, Nat.le_refl _⟩ after h
    refine ⟨Nat.le_of_add_right_le hend.iteration_le, fun hs' => ?_⟩
    exact hinv'.exits hs' (hend.told hs')
  · exact hinv'.functors_eq (by simp [ho])

/-- A call of `quit` before `loop` is lost; a second one wakes the loop, which leaves after one
iteration with a functor that was pushed before the call. -/
def quitTwice : List (QuitEvent Nat) :=
  [.quit 1, .wakeup 1, .enter, .test, .queue (.poll true), .queue .handleRead, .queue .swap,
    .queue (.push 2 7), .quit 1]

/-- One call before the loop and one within. -/
theorem quit_ends_the_loop_twice :
    let s := quitTwice.foldl step {}
    let s' := [QuitEvent.queue .finish, .test].foldl step s
    s.quitsBefore = 1 ∧ s.quits = 2 ∧ s.quit = true ∧ s'.stage = .outside ∧
      s'.iteration ≤ s.iteration + s.pollsLeft ∧
      s'.queue.pendingFunctors = s'.queue.pushed.drop s'.taken ∧
      s'.queue.pendingFunctors = [7] := by
  intro s s'
  obtain ⟨-, htold, hleft⟩ := quit_ends_the_loop quitTwice [.queue .finish, .test] (by simp) nofun
  exact ⟨rfl, rfl, rfl, rfl, (htold rfl).1, (hleft rfl).2.2, rfl⟩

end QuitLoop

end IMServer.Reactor
