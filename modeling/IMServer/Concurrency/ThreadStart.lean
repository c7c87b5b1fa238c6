import IMServer.Concurrency.Latch

/-!
# The start of a thread

`Thread::start` waits on a latch of its own until the new thread has stored its identifier
(`server/src/Thread.cc:56–88`, `198–216`). The new thread writes to members of the `Thread` through
pointers; once `start` returns it does not use them any more, so the `Thread` may be destroyed.
-/

namespace IMServer.Concurrency

open IMServer.Base

/-- The thread that calls `start` and the one it creates. -/
inductive Who where
  | creator
  | created
  deriving DecidableEq, Repr

/-- Where the creator is in `start`. -/
inductive CreatorStage where
  | idle
  /-- In `latch_.wait()`. -/
  | waiting
  | returned
  deriving DecidableEq, Repr

/-- Where the created thread is in `runInThread`. -/
inductive CreatedStage where
  | unborn
  | born
  /-- `*tid_` has been written. -/
  | identified
  /-- In `latch_->countDown()`. -/
  | counting
  /-- The latch has been left, and `func_` is run. -/
  | running
  deriving DecidableEq, Repr

/-- `*tid_` has been written. -/
def CreatedStage.hasTid : CreatedStage → Bool
  | .identified | .counting | .running => true
  | _ => false

/-- `countDown` has been called. -/
def CreatedStage.called : CreatedStage → Bool
  | .counting | .running => true
  | _ => false

private theorem CreatedStage.hasTid_of_called {c : CreatedStage} (h : c.called = true) :
    c.hasTid = true := by
  cases c with
  | counting | running => rfl
  | unborn | born | identified => cases h

/-- `tid_` and `latch_` of a `Thread`, and the two threads. -/
structure ThreadStart where
  latch : CountDownLatch Who := { data := 1 }
  tid : Int := 0
  creator : CreatorStage := .idle
  created : CreatedStage := .unborn

inductive StartEvent where
  /-- `pthread_create` has succeeded, and `latch_.wait()` is called; lines 200–213. -/
  | create
  /-- Line 78. -/
  | writeTid (tid : Int)
  /-- Line 80. -/
  | countDown
  /-- A step inside the latch. -/
  | latch (e : MonitorEvent Who LatchOp)
  /-- Line 88. -/
  | runFunc
  /-- `latch_.wait()` has returned, and `tid_` is checked; line 214. -/
  | finish

namespace ThreadStart

/-- A step that cannot happen leaves everything as it is; `none` when the assertion fails. -/
def step (s : ThreadStart) : StartEvent → Option ThreadStart
  | .create =>
    if s.creator = .idle then
      some { s with
        creator := .waiting, created := .born,
        latch := s.latch.step latchSpec (.call .creator .wait) }
    else some s
  | .writeTid tid =>
    if s.created = .born then some { s with tid, created := .identified } else some s
  | .countDown =>
    if s.created = .identified then
      some { s with
        created := .counting, latch := s.latch.step latchSpec (.call .created .countDown) }
    else some s
  | .latch e => some { s with latch := s.latch.step latchSpec e }
  | .runFunc =>
    match s.created, s.latch.position .created with
    | .counting, .outside => some { s with created := .running }
    | _, _ => some s
  | .finish =>
    match s.creator, s.latch.position .creator with
    | .waiting, .outside => if 0 < s.tid then some { s with creator := .returned } else none
    | _, _ => some s

/-- Identifiers are positive, the latch is called by `start` and `runInThread` only, and its
notification wakes whom it must. -/
def Allowed (s : ThreadStart) : StartEvent → Prop
  | .writeTid tid => 0 < tid
  | .latch e => e.isCall = false ∧ s.latch.Honest latchSpec e
  | _ => True

/-- What every step keeps. -/
structure Inv (s : ThreadStart) : Prop where
  latch : CountDownLatch.Inv 1 s.latch
  idle : s.creator = .idle → s.latch.Idle .creator [] ∧ s.created = .unborn
  waiting : s.creator ≠ .idle → s.latch.Called .creator [] .wait
  uncalled : s.created.called = false → s.latch.Idle .created []
  called : s.created.called = true → s.latch.Called .created [] .countDown
  running : s.created = .running → s.latch.position .created = .outside
  tid : s.created.hasTid = true → 0 < s.tid
  /-- When the creator has got through, the created thread has left the latch. -/
  through : ofSource .creator s.latch.log ≠ [] →
    s.created.called = true ∧ s.latch.position .created = .outside
  returned : s.creator = .returned → ofSource .creator s.latch.log ≠ []

section Steps

variable {s : ThreadStart}

private theorem inv_new : ({} : ThreadStart).Inv := by
  refine ⟨CountDownLatch.inv_new 1, fun _ => ⟨⟨rfl, rfl⟩, rfl⟩, fun h => absurd rfl h,
    fun _ => ⟨rfl, rfl⟩, nofun, nofun, nofun, fun h => absurd rfl h, nofun⟩

/-- The count is zero only when the created thread has done its `countDown`. -/
theorem Inv.counted (h : s.Inv) (hlog : ofSource .creator s.latch.log = [])
    (hd : ¬ 0 < s.latch.data) :
    s.created.called = true ∧ (s.latch.position .created).After .countDown := by
  have hne : ofSource .created s.latch.log ≠ [] := by
    intro hnil
    have hempty : s.latch.log = [] := eq_nil_of_ofSource fun i => by
      cases i with
      | creator => exact hlog
      | created => exact hnil
    have hdata := h.latch.data_eq
    rw [hempty] at hdata
    exact hd (by rw [hdata]; decide)
  cases hc : s.created.called with
  | false => exact absurd (h.uncalled hc).log hne
  | true =>
    cases h.called hc with
    | pending position log => exact absurd log hne
    | done position log => exact ⟨rfl, position⟩

/-- Inside the latch the creator gets through only when the created thread has left it. -/
theorem Inv.through_latch (h : s.Inv) {e : MonitorEvent Who LatchOp} (hcall : e.isCall = false)
    (hlog : ofSource .creator (s.latch.step latchSpec e).log ≠ []) :
    s.created.called = true ∧ (s.latch.step latchSpec e).position .created = .outside := by
  have hstays : s.latch.position .created = .outside →
      (s.latch.step latchSpec e).position .created = .outside :=
    fun hout => (Monitor.outside_step latchSpec hout (.inl hcall)).1
  by_cases hbefore : ofSource .creator s.latch.log = []
  · obtain hsame | ⟨i, woken, op, rfl, hp, hg, hnew⟩ := s.latch.log_step latchSpec e
    · rw [hsame] at hlog
      exact absurd hbefore hlog
    · -- the creator does its operation: its guard holds, so the other thread has counted down
      have hi : i = .creator := by
        cases i with
        | creator => rfl
        | created =>
          rw [hnew, ofSource_append, hbefore,
            ofSource_cons_of_ne (show Who.created ≠ .creator by decide)] at hlog
          exact absurd rfl hlog
      subst hi
      have hop : op = .wait := by
        by_cases hidle : s.creator = .idle
        · rw [(h.idle hidle).1.position] at hp
          cases hp
        · cases h.waiting hidle with
          | pending position log =>
            rw [hp] at position
            cases position
            rfl
          | done position log =>
            rw [hp] at position
            cases position
      subst hop
      obtain ⟨hc, hafter⟩ := h.counted hbefore (by simpa [latchSpec] using hg)
      refine ⟨hc, hstays ?_⟩
      have hholds : (s.latch.position .creator).holds = true := by rw [hp]; rfl
      have hfree : (s.latch.position .created).holds ≠ true :=
        fun hx => absurd (h.latch.locked.eq hx hholds) (by decide)
      generalize s.latch.position .created = p at hafter hfree
      cases hafter with
      | outside => rfl
      | finishing => exact absurd rfl hfree
      | leaving => exact absurd rfl hfree
  · obtain ⟨hc, hout⟩ := h.through hbefore
    exact ⟨hc, hstays hout⟩

private theorem Inv.create (h : s.Inv) (hs : s.creator = .idle) :
    { s with
      creator := .waiting, created := .born,
      latch := s.latch.step latchSpec (.call .creator .wait) }.Inv := by
  obtain ⟨hidle, hunborn⟩ := h.idle hs
  have hcreated := h.uncalled (by rw [hunborn]; rfl)
  have honce := hidle.call latchSpec .wait
  have hlog : (s.latch.step latchSpec (.call .creator .wait)).log = s.latch.log := by
    rcases s.latch.log_step latchSpec (.call .creator .wait) with h | ⟨_, _, _, h, -⟩
    · exact h
    · cases h
  have hother : (MonitorEvent.call Who.creator LatchOp.wait).actor ≠ .created := by decide
  refine ⟨h.latch.step (e := .call .creator .wait) trivial, nofun, fun _ => honce,
    fun _ => hcreated.step latchSpec (.inr hother), nofun, nofun, nofun, fun hne => absurd ?_ hne,
    nofun⟩
  rw [hlog]
  exact hidle.log

private theorem Inv.countDown (h : s.Inv) (hs : s.created = .identified) :
    { s with
      created := .counting,
      latch := s.latch.step latchSpec (.call .created .countDown) }.Inv := by
  have hidle := h.uncalled (by rw [hs]; rfl)
  have hcreator : s.creator ≠ .idle := fun hc => by
    rw [(h.idle hc).2] at hs
    cases hs
  have honce := h.waiting hcreator
  have hnone : ofSource .creator s.latch.log = [] := by
    by_contra hne
    have hc := (h.through hne).1
    rw [hs] at hc
    cases hc
  have hlog : (s.latch.step latchSpec (.call .created .countDown)).log = s.latch.log := by
    rcases s.latch.log_step latchSpec (.call .created .countDown) with h | ⟨_, _, _, h, -⟩
    · exact h
    · cases h
  have hother : (MonitorEvent.call Who.created LatchOp.countDown).actor ≠ .creator := by decide
  refine ⟨h.latch.step (e := .call .created .countDown) trivial, fun hc => absurd hc hcreator,
    fun _ => honce.step latchSpec (.inr hother), nofun, fun _ => hidle.call latchSpec .countDown,
    nofun, fun _ => h.tid (by rw [hs]; rfl), fun hne => absurd (hlog ▸ hnone) hne, fun hr => ?_⟩
  exact absurd hnone (h.returned hr)

private theorem Inv.stepLatch (h : s.Inv) {e : MonitorEvent Who LatchOp} (hcall : e.isCall = false)
    (he : s.latch.Honest latchSpec e) :
    { s with latch := s.latch.step latchSpec e }.Inv := by
  refine ⟨h.latch.step he, fun hc => ⟨(h.idle hc).1.step latchSpec (.inl hcall), (h.idle hc).2⟩,
    fun hc => (h.waiting hc).step latchSpec (.inl hcall),
    fun hc => (h.uncalled hc).step latchSpec (.inl hcall),
    fun hc => (h.called hc).step latchSpec (.inl hcall),
    fun hr => (Monitor.outside_step latchSpec (h.running hr) (.inl hcall)).1, h.tid,
    h.through_latch hcall, fun hr => ?_⟩
  obtain hsame | ⟨i, woken, op, -, -, -, hnew⟩ := s.latch.log_step latchSpec e
  · simp only [hsame]
    exact h.returned hr
  · simp only [hnew, ofSource_append]
    exact List.append_ne_nil_of_left_ne_nil (h.returned hr) _

/-- When the latch lets the creator out, its `wait` has been done. -/
theorem Inv.done_of_outside (h : s.Inv) (hs : s.creator = .waiting)
    (hp : s.latch.position .creator = .outside) : ofSource .creator s.latch.log ≠ [] := by
  cases h.waiting (by simp [hs]) with
  | pending position log =>
    rw [hp] at position
    cases position
  | done position log => simp [log]

private theorem Inv.step (h : s.Inv) {e : StartEvent} (he : s.Allowed e) :
    ∃ s', s.step e = some s' ∧ s'.Inv := by
  cases e with
  | create =>
    simp only [ThreadStart.step]
    split
    · next hs => exact ⟨_, rfl, h.create hs⟩
    · exact ⟨s, rfl, h⟩
  | writeTid tid =>
    simp only [ThreadStart.step]
    split
    · next hs =>
      have hidle := h.uncalled (by rw [hs]; rfl)
      refine ⟨_, rfl, h.latch, fun hc => ?_, h.waiting, fun _ => hidle, nofun, nofun, fun _ => he,
        fun hne => ?_, h.returned⟩
      · have hu := (h.idle hc).2
        rw [hs] at hu
        cases hu
      · have hc := (h.through hne).1
        rw [hs] at hc
        cases hc
    · exact ⟨s, rfl, h⟩
  | countDown =>
    simp only [ThreadStart.step]
    split
    · next hs => exact ⟨_, rfl, h.countDown hs⟩
    · exact ⟨s, rfl, h⟩
  | latch e => exact ⟨_, rfl, h.stepLatch he.1 he.2⟩
  | runFunc =>
    simp only [ThreadStart.step]
    split
    · next hs hp =>
      refine ⟨_, rfl, h.latch, fun hc => ?_, h.waiting, nofun, fun _ => h.called (by rw [hs]; rfl),
        fun _ => hp, fun _ => h.tid (by rw [hs]; rfl), fun _ => ⟨rfl, hp⟩, h.returned⟩
      have hu := (h.idle hc).2
      rw [hs] at hu
      cases hu
    · exact ⟨s, rfl, h⟩
  | finish =>
    simp only [ThreadStart.step]
    split
    · next hs hp =>
      have hdone := h.done_of_outside hs hp
      have hcalled := (h.through hdone).1
      rw [if_pos (h.tid (CreatedStage.hasTid_of_called hcalled))]
      exact ⟨_, rfl, h.latch, nofun, fun _ => h.waiting (by simp [hs]), h.uncalled, h.called,
        h.running, h.tid, h.through, fun _ => hdone⟩
    · exact ⟨s, rfl, h⟩

end Steps

/-- In every interleaving of the two threads: the assertion on `tid_` holds, and when `start` has
returned the created thread has stored its identifier, has left the latch and uses neither again.
While the creator waits for a thread that has counted down, it does not sleep. -/
theorem start_returns_identified (events : List StartEvent)
    (he : Legal step Allowed {} events) :
    ∃ s, run step {} events = some s ∧
      (s.creator = .returned → 0 < s.tid ∧ s.created.called = true ∧
        s.latch.position .created = .outside) ∧
      (s.latch.data ≤ 0 → ∀ op, s.latch.position .creator ≠ .asleep op) := by
  obtain ⟨s, hs, hinv⟩ := run_invariant Inv (fun _ _ h he => h.step he) events inv_new he
  refine ⟨s, hs, fun hr => ?_, fun hd op hp => ?_⟩
  · obtain ⟨hcalled, hout⟩ := hinv.through (hinv.returned hr)
    exact ⟨hinv.tid (CreatedStage.hasTid_of_called hcalled), hcalled, hout⟩
  · have hclosed := hinv.latch.noMissed .creator op (.inl hp)
    cases op with
    | wait =>
      simp only [latchSpec, Bool.not_eq_eq_eq_not, Bool.not_false, decide_eq_true_eq] at hclosed
      omega
    | countDown => cases hclosed

/-- The creator falls asleep before the created thread has counted down. -/
def startsAsleep : List StartEvent :=
  let all : Who → Bool := fun _ => true
  [.create, .latch (.acquire .creator), .latch (.assignHolder .creator),
    .latch (.body .creator all), .latch (.unassignHolder .creator), .latch (.release .creator),
    .writeTid 7, .countDown, .latch (.acquire .created), .latch (.assignHolder .created),
    .latch (.body .created all), .latch (.unassignHolder .created), .latch (.release .created),
    .runFunc, .latch (.acquire .creator), .latch (.assignHolder .creator),
    .latch (.body .creator all), .latch (.unassignHolder .creator), .latch (.release .creator),
    .finish]

/-- The creator waits on the latch. -/
theorem start_returns_identified_asleep :
    ∃ s, run step {} startsAsleep = some s ∧ s.creator = .returned ∧ 0 < s.tid := by
  have he : Legal step Allowed {} startsAsleep :=
    ⟨trivial, ⟨rfl, trivial⟩, ⟨rfl, trivial⟩, ⟨rfl, trivial⟩, ⟨rfl, trivial⟩, ⟨rfl, trivial⟩,
      (by decide : (0 : Int) < 7), trivial, ⟨rfl, trivial⟩, ⟨rfl, trivial⟩,
      ⟨rfl, fun _ _ => rfl⟩, ⟨rfl, trivial⟩, ⟨rfl, trivial⟩, trivial, ⟨rfl, trivial⟩,
      ⟨rfl, trivial⟩, ⟨rfl, trivial⟩, ⟨rfl, trivial⟩, ⟨rfl, trivial⟩, trivial, trivial⟩
  obtain ⟨s, hs, hreturned, -⟩ := start_returns_identified startsAsleep he
  have hend : (run step {} startsAsleep).map ThreadStart.creator = some .returned := rfl
  rw [hs] at hend
  have hr : s.creator = .returned := Option.some.inj hend
  exact ⟨s, hs, hr, (hreturned hr).1⟩

end ThreadStart

end IMServer.Concurrency
