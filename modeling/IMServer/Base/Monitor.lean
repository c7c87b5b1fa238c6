import IMServer.Base.Sources
import Mathlib.Logic.Function.Basic

/-!
# Monitors

Library: a mutex that records its holder, with one condition variable. An operation takes the
mutex, waits until its guard holds, changes the data and may notify. A thread that waits may be
woken without a notification, and a notification may wake more threads than it has to. The mutex
is held by one thread at a time, the record names it while it runs its operation, and nobody sleeps
through a change that makes its guard true.
-/

namespace IMServer.Base

universe u v w

/-- Whom an operation wakes. -/
inductive Notify where
  | nobody
  | one
  | all
  deriving DecidableEq, Repr

/-- What the operations of a monitor wait for, do, and announce afterwards. -/
structure MonitorSpec (Op : Type v) (σ : Type w) where
  guard : Op → σ → Bool
  effect : Op → σ → σ
  notify : Op → σ → Notify

/-- Where a thread is in its operation. -/
inductive MonitorPosition (Op : Type v) where
  | outside
  /-- It wants the mutex. -/
  | blocked (op : Op)
  /-- It has the mutex and has not recorded it. -/
  | entering (op : Op)
  | inside (op : Op)
  /-- It has done its operation, or is about to wait. -/
  | finishing (op : Op) (waits : Bool)
  /-- The record is cleared, and the mutex is about to be released. -/
  | leaving (op : Op) (waits : Bool)
  | asleep (op : Op)

namespace MonitorPosition

variable {Op : Type v}

/-- The thread holds the mutex. -/
def holds : MonitorPosition Op → Bool
  | .entering _ | .inside _ | .finishing _ _ | .leaving _ _ => true
  | _ => false

/-- The thread is recorded as the holder. -/
def recorded : MonitorPosition Op → Bool
  | .inside _ | .finishing _ _ => true
  | _ => false

def isAsleep : MonitorPosition Op → Bool
  | .asleep _ => true
  | _ => false

/-- The thread has called the operation and not done it. -/
inductive Before (op : Op) : MonitorPosition Op → Prop where
  | blocked : Before op (.blocked op)
  | entering : Before op (.entering op)
  | inside : Before op (.inside op)
  | finishing : Before op (.finishing op true)
  | leaving : Before op (.leaving op true)
  | asleep : Before op (.asleep op)

/-- The thread has done the operation. -/
inductive After (op : Op) : MonitorPosition Op → Prop where
  | finishing : After op (.finishing op false)
  | leaving : After op (.leaving op false)
  | outside : After op .outside

/-- A sleeping thread that is woken wants the mutex. -/
def wake (p : MonitorPosition Op) : MonitorPosition Op :=
  match p with
  | .asleep op => .blocked op
  | p => p

private theorem holds_of_recorded {p : MonitorPosition Op} (h : p.recorded = true) :
    p.holds = true := by
  cases p <;> first | rfl | cases h

/-- A wake-up gives nobody the mutex. -/
@[simp]
theorem holds_wake (p : MonitorPosition Op) : p.wake.holds = p.holds := by cases p <;> rfl

/-- A wake-up records nothing. -/
@[simp]
theorem recorded_wake (p : MonitorPosition Op) : p.wake.recorded = p.recorded := by cases p <;> rfl

end MonitorPosition

/-- The data, the mutex with its record, and the threads. -/
structure Monitor (ι : Type u) (Op : Type v) (σ : Type w) where
  data : σ
  mutex : Option ι := none
  holder : Option ι := none
  position : ι → MonitorPosition Op := fun _ => .outside
  /-- The operations done, in order. -/
  log : List (ι × Op) := []

/-- One step of a thread. -/
inductive MonitorEvent (ι : Type u) (Op : Type v) where
  | call (i : ι) (op : Op)
  | acquire (i : ι)
  | assignHolder (i : ι)
  /-- Test the guard; if it holds, do the operation and wake the chosen threads. -/
  | body (i : ι) (woken : ι → Bool)
  | unassignHolder (i : ι)
  | release (i : ι)
  /-- A thread wakes up by itself. -/
  | spurious (i : ι)

/-- The thread that takes the step. -/
def MonitorEvent.actor {ι : Type u} {Op : Type v} : MonitorEvent ι Op → ι
  | .call i _ | .acquire i | .assignHolder i | .body i _ | .unassignHolder i | .release i
  | .spurious i => i

def MonitorEvent.isCall {ι : Type u} {Op : Type v} : MonitorEvent ι Op → Bool
  | .call _ _ => true
  | _ => false

namespace Monitor

variable {ι : Type u} [DecidableEq ι] {Op : Type v} {σ : Type w} (spec : MonitorSpec Op σ)

/-- Put a thread at a position. -/
def move (m : Monitor ι Op σ) (i : ι) (p : MonitorPosition Op) : Monitor ι Op σ :=
  { m with position := Function.update m.position i p }

private theorem position_move_self (m : Monitor ι Op σ) (i : ι) (p : MonitorPosition Op) :
    (m.move i p).position i = p := Function.update_self ..

private theorem position_move_of_ne
    (m : Monitor ι Op σ) {i j : ι} (h : j ≠ i) (p : MonitorPosition Op) :
    (m.move i p).position j = m.position j := Function.update_of_ne h ..

/-- Wake the chosen threads. -/
def wakeAll (m : Monitor ι Op σ) (woken : ι → Bool) : Monitor ι Op σ :=
  { m with position := fun j => if woken j then (m.position j).wake else m.position j }

/-- The operation of a thread whose guard holds. -/
def perform (m : Monitor ι Op σ) (i : ι) (op : Op) (woken : ι → Bool) : Monitor ι Op σ :=
  let m := { m with data := spec.effect op m.data, log := m.log ++ [(i, op)] }
  (m.wakeAll woken).move i (.finishing op false)

private theorem position_perform_self (m : Monitor ι Op σ) (i : ι) (op : Op) (woken : ι → Bool) :
    (m.perform spec i op woken).position i = .finishing op false := position_move_self ..

private theorem position_perform_of_ne (m : Monitor ι Op σ) {i j : ι} (h : j ≠ i) (op : Op)
    (woken : ι → Bool) : (m.perform spec i op woken).position j =
      if woken j then (m.position j).wake else m.position j := position_move_of_ne _ h _

private theorem log_perform (m : Monitor ι Op σ) (i : ι) (op : Op) (woken : ι → Bool) :
    (m.perform spec i op woken).log = m.log ++ [(i, op)] := rfl

/-- A step that cannot happen leaves everything as it is. -/
def step (m : Monitor ι Op σ) : MonitorEvent ι Op → Monitor ι Op σ
  | .call i op =>
    match m.position i with
    | .outside => m.move i (.blocked op)
    | _ => m
  | .acquire i =>
    match m.position i, m.mutex with
    | .blocked op, none => { m.move i (.entering op) with mutex := some i }
    | _, _ => m
  | .assignHolder i =>
    match m.position i with
    | .entering op => { m.move i (.inside op) with holder := some i }
    | _ => m
  | .body i woken =>
    match m.position i with
    | .inside op =>
      if spec.guard op m.data then m.perform spec i op woken else m.move i (.finishing op true)
    | _ => m
  | .unassignHolder i =>
    match m.position i with
    | .finishing op waits => { m.move i (.leaving op waits) with holder := none }
    | _ => m
  | .release i =>
    match m.position i with
    | .leaving op true => { m.move i (.asleep op) with mutex := none }
    | .leaving _ false => { m.move i .outside with mutex := none }
    | _ => m
  | .spurious i =>
    match m.position i with
    | .asleep op => m.move i (.blocked op)
    | _ => m

/-- A notification wakes whom it must; who wakes up without one is left open. -/
def Honest (m : Monitor ι Op σ) : MonitorEvent ι Op → Prop
  | .body i woken =>
    match m.position i with
    | .inside op =>
      match spec.notify op (spec.effect op m.data) with
      | .all => ∀ j, (m.position j).isAsleep = true → woken j = true
      | .one => ∀ j, (m.position j).isAsleep = true →
        ∃ k, (m.position k).isAsleep = true ∧ woken k = true
      | .nobody => True
    | _ => True
  | _ => True

/-! ### Mutual exclusion and the record -/

/-- The mutex is held by the thread in its operation, and the record says so from `assignHolder` to
`unassignHolder`. -/
structure Locked (m : Monitor ι Op σ) : Prop where
  mutex : ∀ i, (m.position i).holds = true ↔ m.mutex = some i
  holder : ∀ i, (m.position i).recorded = true ↔ m.holder = some i

section Locked

variable {spec} {m : Monitor ι Op σ}

omit [DecidableEq ι] in
/-- A thread that holds the mutex is the only one. -/
theorem Locked.eq (h : m.Locked) {i j : ι} (hi : (m.position i).holds = true)
    (hj : (m.position j).holds = true) : i = j :=
  Option.some.inj (((h.mutex i).mp hi).symm.trans ((h.mutex j).mp hj))

/-- One thread moves, and the mutex and the record change for it alone. -/
theorem Locked.update (h : m.Locked) {i : ι} {p : MonitorPosition Op} {mutex holder : Option ι}
    (hm : ∀ j, j ≠ i → (m.mutex = some j ↔ mutex = some j))
    (hmi : p.holds = true ↔ mutex = some i)
    (hh : ∀ j, j ≠ i → (m.holder = some j ↔ holder = some j))
    (hhi : p.recorded = true ↔ holder = some i) :
    { m.move i p with mutex, holder }.Locked := by
  refine ⟨fun j => ?_, fun j => ?_⟩
  · by_cases hj : j = i
    · subst hj
      simpa [Monitor.move] using hmi
    · simpa [Monitor.move, Function.update_of_ne hj] using (h.mutex j).trans (hm j hj)
  · by_cases hj : j = i
    · subst hj
      simpa [Monitor.move] using hhi
    · simpa [Monitor.move, Function.update_of_ne hj] using (h.holder j).trans (hh j hj)

/-- A move that neither takes nor gives up the mutex or the record. -/
theorem Locked.move (h : m.Locked) {i : ι} {p : MonitorPosition Op}
    (hp : p.holds = (m.position i).holds) (hr : p.recorded = (m.position i).recorded) :
    (m.move i p).Locked :=
  h.update (fun _ _ => Iff.rfl) (hp ▸ h.mutex i) (fun _ _ => Iff.rfl) (hr ▸ h.holder i)

omit [DecidableEq ι] in
/-- Wake-ups keep the mutex exclusive. -/
theorem Locked.wakeAll (h : m.Locked) (woken : ι → Bool) : (m.wakeAll woken).Locked := by
  refine ⟨fun j => ?_, fun j => ?_⟩
  · refine Iff.trans ?_ (h.mutex j)
    simp only [Monitor.wakeAll]
    split <;> simp
  · refine Iff.trans ?_ (h.holder j)
    simp only [Monitor.wakeAll]
    split <;> simp

omit [DecidableEq ι] in
/-- Nobody else holds the mutex, or is recorded. -/
theorem Locked.others (h : m.Locked) {i j : ι} (hi : (m.position i).holds = true) (hj : j ≠ i) :
    m.mutex ≠ some j ∧ m.holder ≠ some j := by
  refine ⟨fun hm => hj ?_, fun hh => hj ?_⟩
  · exact h.eq ((h.mutex j).mpr hm) hi
  · exact h.eq (MonitorPosition.holds_of_recorded ((h.holder j).mpr hh)) hi

/-- Every event keeps the mutex exclusive. -/
theorem Locked.step (h : m.Locked) (e : MonitorEvent ι Op) : (m.step spec e).Locked := by
  cases e with
  | call i op =>
    simp only [Monitor.step]
    split
    · next hp => exact h.move (by rw [hp]; rfl) (by rw [hp]; rfl)
    · exact h
  | acquire i =>
    simp only [Monitor.step]
    split
    · next op hp hm =>
      have hr := h.holder i
      rw [hp] at hr
      refine h.update (fun j hj => ?_) (iff_of_true rfl rfl) (fun _ _ => Iff.rfl) hr
      simp [hm, Ne.symm hj]
    · exact h
  | assignHolder i =>
    simp only [Monitor.step]
    split
    · next op hp =>
      have hi : (m.position i).holds = true := by rw [hp]; rfl
      refine h.update (fun _ _ => Iff.rfl) (iff_of_true rfl ((h.mutex i).mp hi)) (fun j hj => ?_)
        (iff_of_true rfl rfl)
      simp [(h.others hi hj).2, Ne.symm hj]
    · exact h
  | body i woken =>
    simp only [Monitor.step]
    split
    · next op hp =>
      split
      · have hdone : { m with
            data := spec.effect op m.data, log := m.log ++ [(i, op)] }.Locked := ⟨h.mutex, h.holder⟩
        refine (hdone.wakeAll woken).move ?_ ?_
        · simp only [Monitor.wakeAll, hp]
          split <;> rfl
        · simp only [Monitor.wakeAll, hp]
          split <;> rfl
      · exact h.move (by rw [hp]; rfl) (by rw [hp]; rfl)
    · exact h
  | unassignHolder i =>
    simp only [Monitor.step]
    split
    · next op waits hp =>
      have hi : (m.position i).holds = true := by rw [hp]; rfl
      refine h.update (fun _ _ => Iff.rfl) (iff_of_true rfl ((h.mutex i).mp hi)) (fun j hj => ?_)
        (by simp [MonitorPosition.recorded])
      simp [(h.others hi hj).2]
    · exact h
  | release i =>
    simp only [Monitor.step]
    have hfree : ∀ {op : Op} {waits : Bool} {p : MonitorPosition Op},
        m.position i = .leaving op waits → p.holds = false → p.recorded = false →
        { m.move i p with mutex := none }.Locked := by
      intro op waits p hp hph hpr
      have hi : (m.position i).holds = true := by rw [hp]; rfl
      have hr := h.holder i
      rw [hp] at hr
      refine h.update (fun j hj => ?_) (by simp [hph]) (fun _ _ => Iff.rfl) (hpr ▸ hr)
      simp [(h.others hi hj).1]
    split
    · next hp => exact hfree hp rfl rfl
    · next hp => exact hfree hp rfl rfl
    · exact h
  | spurious i =>
    simp only [Monitor.step]
    split
    · next hp => exact h.move (by rw [hp]; rfl) (by rw [hp]; rfl)
    · exact h

end Locked

/-! ### Nobody sleeps through a change -/

/-- A thread that sleeps, or is about to, has a guard that does not hold. -/
def NoMissed (m : Monitor ι Op σ) : Prop :=
  ∀ i op, m.position i = .asleep op ∨ m.position i = .finishing op true ∨
    m.position i = .leaving op true → spec.guard op m.data = false

section NoMissed

variable {spec} {m : Monitor ι Op σ}

/-- One thread moves to a position in which it does not sleep, or has tested its guard. -/
theorem NoMissed.move (h : m.NoMissed spec) {i : ι} {p : MonitorPosition Op}
    (hp : ∀ op, p = .asleep op ∨ p = .finishing op true ∨ p = .leaving op true →
      spec.guard op m.data = false) : (m.move i p).NoMissed spec := by
  intro j op hj
  by_cases hi : j = i
  · subst hi
    rw [m.position_move_self] at hj
    exact hp op hj
  · rw [m.position_move_of_ne hi] at hj
    exact h j op hj

/-- An operation wakes everybody whose guard it makes true. -/
theorem noMissed_perform (hl : m.Locked) {i : ι} {op : Op}
    {woken : ι → Bool} (hp : m.position i = .inside op)
    (hw : ∀ j op', m.position j = .asleep op' →
      spec.guard op' (spec.effect op m.data) = true → woken j = true) :
    (m.perform spec i op woken).NoMissed spec := by
  have hi : (m.position i).holds = true := by rw [hp]; rfl
  refine NoMissed.move ?_ (by simp)
  intro j op' hj
  simp only [Monitor.wakeAll] at hj
  by_cases hjw : woken j = true
  · rw [if_pos hjw] at hj
    cases hpj : m.position j with
    | finishing op'' waits | leaving op'' waits =>
      have hji := hl.eq (i := j) (j := i) (by rw [hpj]; rfl) hi
      rw [hji, hp] at hpj
      cases hpj
    | _ => simp [hpj, MonitorPosition.wake] at hj
  · rw [if_neg hjw] at hj
    rcases hj with hj | hj | hj
    · by_contra hg
      exact hjw (hw j op' hj ((Bool.not_eq_false _).mp hg))
    · have hji := hl.eq (i := j) (j := i) (by rw [hj]; rfl) hi
      rw [hji, hp] at hj
      cases hj
    · have hji := hl.eq (i := j) (j := i) (by rw [hj]; rfl) hi
      rw [hji, hp] at hj
      cases hj

/-- If an operation that makes a guard true notifies, and either all threads or the only one that
can sleep, nobody sleeps through the change. -/
theorem NoMissed.step (h : m.NoMissed spec) (hl : m.Locked)
    (halert : ∀ b op d, spec.guard op d = false → spec.guard op (spec.effect b d) = true →
      spec.notify b (spec.effect b d) = .all ∨ spec.notify b (spec.effect b d) = .one ∧
        ∀ j k, (m.position j).isAsleep = true → (m.position k).isAsleep = true → j = k)
    {e : MonitorEvent ι Op} (he : m.Honest spec e) : (m.step spec e).NoMissed spec := by
  cases e with
  | call i op =>
    simp only [Monitor.step]
    split
    · exact h.move (by simp)
    · exact h
  | acquire i =>
    simp only [Monitor.step]
    split
    · exact (h.move (i := i) (p := .entering _) (by simp))
    · exact h
  | assignHolder i =>
    simp only [Monitor.step]
    split
    · exact (h.move (i := i) (p := .inside _) (by simp))
    · exact h
  | body i woken =>
    simp only [Monitor.step]
    split
    · next op hp =>
      split
      · refine noMissed_perform hl hp fun j op' hj hg => ?_
        have hbefore := h j op' (.inl hj)
        have hsleeps : (m.position j).isAsleep = true := by rw [hj]; rfl
        simp only [Honest, hp] at he
        rcases halert op op' m.data hbefore hg with hall | ⟨hone, hsolo⟩
        · rw [hall] at he
          exact he j hsleeps
        · rw [hone] at he
          obtain ⟨k, hk, hwk⟩ := he j hsleeps
          rwa [hsolo j k hsleeps hk]
      · next hg =>
        refine h.move fun op' hop => ?_
        simp only [reduceCtorEq, MonitorPosition.finishing.injEq, and_true, or_false,
          false_or] at hop
        rw [← hop]
        simpa using hg
    · exact h
  | unassignHolder i =>
    simp only [Monitor.step]
    split
    · next op waits hp =>
      have hm := h.move (i := i) (p := .leaving op waits) fun op' hop => by
        simp only [reduceCtorEq, MonitorPosition.leaving.injEq, false_or] at hop
        obtain ⟨rfl, rfl⟩ := hop
        exact h i op (.inr (.inl hp))
      exact hm
    · exact h
  | release i =>
    simp only [Monitor.step]
    split
    · next op hp =>
      have hm := h.move (i := i) (p := .asleep op) fun op' hop => by
        simp only [MonitorPosition.asleep.injEq, reduceCtorEq, or_false] at hop
        rw [← hop]
        exact h i op (.inr (.inr hp))
      exact hm
    · exact (h.move (i := i) (p := .outside) (by simp))
    · exact h
  | spurious i =>
    simp only [Monitor.step]
    split
    · exact h.move (by simp)
    · exact h

end NoMissed

/-! ### The data -/

/-- The data is what the operations done have made of it. -/
def Replays (d : σ) (m : Monitor ι Op σ) : Prop :=
  m.data = m.log.foldl (fun d x => spec.effect x.2 d) d

/-- The log replays to the data after every event. -/
theorem Replays.step {spec : MonitorSpec Op σ} {d : σ} {m : Monitor ι Op σ}
    (h : m.Replays spec d) (e : MonitorEvent ι Op) : (m.step spec e).Replays spec d := by
  unfold Replays at h ⊢
  cases e <;> simp only [Monitor.step]
  case body i woken =>
    split
    · split
      · simp only [perform, move, wakeAll, List.foldl_append, List.foldl_cons, List.foldl_nil, ← h]
      · exact h
    · exact h
  all_goals
    split
    all_goals exact h

/-- Only an operation whose guard holds is entered in the log. -/
theorem log_step (m : Monitor ι Op σ) (e : MonitorEvent ι Op) :
    (m.step spec e).log = m.log ∨ ∃ i woken op, e = .body i woken ∧ m.position i = .inside op ∧
      spec.guard op m.data = true ∧ (m.step spec e).log = m.log ++ [(i, op)] := by
  cases e <;> simp only [Monitor.step]
  case body i woken =>
    split
    · next op hp =>
      split
      · next hg => exact .inr ⟨i, woken, op, rfl, hp, hg, rfl⟩
      · exact .inl rfl
    · exact .inl rfl
  all_goals
    split
    all_goals exact .inl rfl

/-! ### A thread and its call -/

section Called

variable {m : Monitor ι Op σ}

/-- A step of another thread wakes a thread at most. -/
theorem step_of_ne {i : ι} {e : MonitorEvent ι Op} (h : e.actor ≠ i) :
    ((m.step spec e).position i = m.position i ∨
        (m.step spec e).position i = (m.position i).wake) ∧
      ofSource i (m.step spec e).log = ofSource i m.log := by
  cases e <;> simp only [MonitorEvent.actor] at h <;> simp only [Monitor.step]
  case body j woken =>
    split
    · split
      · rw [position_perform_of_ne spec m (Ne.symm h), log_perform, ofSource_append,
          ofSource_cons_of_ne h, ofSource_nil, List.append_nil]
        refine ⟨?_, rfl⟩
        split
        · exact .inr rfl
        · exact .inl rfl
      · exact ⟨.inl (position_move_of_ne _ (Ne.symm h) _), rfl⟩
    · exact ⟨.inl rfl, rfl⟩
  all_goals
    split
    all_goals first
      | exact ⟨.inl rfl, rfl⟩
      | exact ⟨.inl (position_move_of_ne _ (Ne.symm h) _), rfl⟩

/-- The thread has done some operations and called one more, which it has done or not. -/
inductive Called (m : Monitor ι Op σ) (i : ι) (past : List Op) (op : Op) : Prop where
  | pending (position : (m.position i).Before op) (log : ofSource i m.log = past)
  | done (position : (m.position i).After op) (log : ofSource i m.log = past ++ [op])

/-- The thread is outside after some operations. -/
structure Idle (m : Monitor ι Op σ) (i : ι) (past : List Op) : Prop where
  position : m.position i = .outside
  log : ofSource i m.log = past

/-- A thread calls an operation. -/
theorem Idle.call {i : ι} {past : List Op} (h : m.Idle i past) (op : Op) :
    (m.step spec (.call i op)).Called i past op := by
  simp only [Monitor.step, h.position]
  refine .pending ?_ h.log
  rw [position_move_self]
  exact .blocked

/-- A thread that is outside has done what it has called. -/
theorem Called.idle {i : ι} {past : List Op} {op : Op} (h : m.Called i past op)
    (hp : m.position i = .outside) : m.Idle i (past ++ [op]) := by
  cases h with
  | pending position _ =>
    rw [hp] at position
    cases position
  | done _ log => exact ⟨hp, log⟩

/-- A thread outside the monitor stays there until it calls. -/
theorem outside_step {i : ι} (h : m.position i = .outside) {e : MonitorEvent ι Op}
    (he : e.isCall = false ∨ e.actor ≠ i) :
    (m.step spec e).position i = .outside ∧ ofSource i (m.step spec e).log = ofSource i m.log := by
  by_cases ha : e.actor = i
  · have hcall := he.resolve_right (not_not_intro ha)
    have hstay : m.step spec e = m := by
      cases e <;> simp only [MonitorEvent.actor] at ha <;> subst ha <;> simp only [Monitor.step, h]
      cases hcall
    rw [hstay]
    exact ⟨h, rfl⟩
  · obtain ⟨hp, hlog⟩ := step_of_ne spec (m := m) ha
    refine ⟨?_, hlog⟩
    rw [h] at hp
    exact hp.elim id id

/-- Other threads leave an idle one idle. -/
theorem Idle.step {i : ι} {past : List Op} (h : m.Idle i past) {e : MonitorEvent ι Op}
    (he : e.isCall = false ∨ e.actor ≠ i) : (m.step spec e).Idle i past := by
  obtain ⟨hp, hlog⟩ := outside_step spec h.position he
  exact ⟨hp, hlog.trans h.log⟩

/-- A step of another thread changes nothing for one that has called, but may wake it. -/
theorem Called.of_ne {i : ι} {past : List Op} {op : Op} (h : m.Called i past op)
    {e : MonitorEvent ι Op} (ha : e.actor ≠ i) : (m.step spec e).Called i past op := by
  obtain ⟨hp, hlog⟩ := step_of_ne spec (m := m) ha
  cases h with
  | pending position log =>
    refine .pending ?_ (hlog.trans log)
    rcases hp with hp | hp
    · rwa [hp]
    · rw [hp]
      generalize m.position i = p at position
      cases position <;> constructor
  | done position log =>
    refine .done ?_ (hlog.trans log)
    rcases hp with hp | hp
    · rwa [hp]
    · rw [hp]
      generalize m.position i = p at position
      cases position <;> constructor

/-- A thread goes on with the operation it has called, up to the point where it does it. -/
theorem called_of_before {past : List Op} {op : Op} {e : MonitorEvent ι Op}
    (hcall : e.isCall = false) (position : (m.position e.actor).Before op)
    (log : ofSource e.actor m.log = past) : (m.step spec e).Called e.actor past op := by
  cases e with
  | call j op' => cases hcall
  | acquire j =>
    simp only [Monitor.step]
    split
    · next op' hp hm =>
      rw [MonitorEvent.actor, hp] at position
      cases position
      exact .pending (m.position_move_self j _ ▸ .entering) log
    · exact .pending position log
  | assignHolder j =>
    simp only [Monitor.step]
    split
    · next op' hp =>
      rw [MonitorEvent.actor, hp] at position
      cases position
      exact .pending (m.position_move_self j _ ▸ .inside) log
    · exact .pending position log
  | body j woken =>
    simp only [Monitor.step]
    split
    · next op' hp =>
      rw [MonitorEvent.actor, hp] at position
      cases position
      split
      · refine .done ?_ ?_
        · rw [MonitorEvent.actor, position_perform_self]
          exact .finishing
        · rw [MonitorEvent.actor, log_perform, ofSource_append, ofSource_cons_self]
          exact congrArg (· ++ [op]) log
      · exact .pending (m.position_move_self j _ ▸ .finishing) log
    · exact .pending position log
  | unassignHolder j =>
    simp only [Monitor.step]
    split
    · next op' waits hp =>
      rw [MonitorEvent.actor, hp] at position
      cases position
      exact .pending (m.position_move_self j _ ▸ .leaving) log
    · exact .pending position log
  | release j =>
    simp only [Monitor.step]
    split
    · next op' hp =>
      rw [MonitorEvent.actor, hp] at position
      cases position
      exact .pending (m.position_move_self j _ ▸ .asleep) log
    · next op' hp =>
      rw [MonitorEvent.actor, hp] at position
      cases position
    · exact .pending position log
  | spurious j =>
    simp only [Monitor.step]
    split
    · next op' hp =>
      rw [MonitorEvent.actor, hp] at position
      cases position
      exact .pending (m.position_move_self j _ ▸ .blocked) log
    · exact .pending position log

/-- A thread leaves the monitor when it has done its operation. -/
theorem called_of_after {past : List Op} {op : Op} {e : MonitorEvent ι Op}
    (hcall : e.isCall = false) (position : (m.position e.actor).After op)
    (log : ofSource e.actor m.log = past ++ [op]) : (m.step spec e).Called e.actor past op := by
  cases e with
  | call j op' => cases hcall
  | unassignHolder j =>
    simp only [Monitor.step]
    split
    · next op' waits hp =>
      rw [MonitorEvent.actor, hp] at position
      cases position
      exact .done (m.position_move_self j _ ▸ .leaving) log
    · exact .done position log
  | release j =>
    simp only [Monitor.step]
    split
    · next op' hp =>
      rw [MonitorEvent.actor, hp] at position
      cases position
    · next op' hp =>
      rw [MonitorEvent.actor, hp] at position
      cases position
      exact .done (m.position_move_self j _ ▸ .outside) log
    · exact .done position log
  | acquire j =>
    simp only [Monitor.step]
    split
    · next hp _ =>
      rw [MonitorEvent.actor, hp] at position
      cases position
    · exact .done position log
  | assignHolder j | body j _ | spurious j =>
    simp only [Monitor.step]
    split
    · next hp =>
      rw [MonitorEvent.actor, hp] at position
      cases position
    · exact .done position log

/-- A call lasts until its thread calls again. -/
theorem Called.step {i : ι} {past : List Op} {op : Op} (h : m.Called i past op)
    {e : MonitorEvent ι Op} (he : e.isCall = false ∨ e.actor ≠ i) :
    (m.step spec e).Called i past op := by
  by_cases ha : e.actor = i
  · have hcall := he.resolve_right (not_not_intro ha)
    subst ha
    cases h with
    | pending position log => exact called_of_before spec hcall position log
    | done position log => exact called_of_after spec hcall position log
  · exact h.of_ne spec ha

end Called

end Monitor

end IMServer.Base
