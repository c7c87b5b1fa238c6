import IMServer.Reactor.TimerOwnership

/-!
# The alarm of the timers

The timerfd is armed in three places of `server/src/TimerQueue.cc`: by `addTimerInLoop` for a
timer that comes before all others (lines 122–131), never by `cancelInLoop`, and at the end of
`reset` for the first timer if its time is valid (lines 215–223). Between two calls of the loop it
is nevertheless always armed for the first timer, as long as the differences and sums of times
stay within `int64_t`.
-/

namespace IMServer.Reactor

open IMServer.Base

/-- What the source can be called with: a repeating timer is one with a positive interval
(`Timer.h:22`), and the clock reads a time after the Epoch. -/
def TimerEvent.Sane : TimerEvent → Prop
  | .addTimer _ _ _ interval repeating _ => repeating = true → 0 ≤ interval
  | .handleRead now => 0 < now
  | _ => True

instance : (e : TimerEvent) → Decidable e.Sane
  | .addTimer .. => inferInstanceAs (Decidable (_ → _))
  | .handleRead _ => inferInstanceAs (Decidable (_ < _))
  | .cancel .. | .createdElsewhere | .functor _ | .run | .reset _ => .isTrue trivial

/-- The clock reads at most `T`, no expiration is so low that `T` cannot be subtracted from it, and
no interval so long that it cannot be added to `T`. -/
def TimerEvent.NoOverflow (T : Int) : TimerEvent → Prop
  | .addTimer _ _ when interval repeating clock =>
    (0 ≤ clock ∧ clock ≤ T) ∧ (-2 ^ 63 + T ≤ when ∧ when < 2 ^ 63) ∧
      (repeating = true → interval < 2 ^ 63 - T)
  | .functor clock | .reset clock => 0 ≤ clock ∧ clock ≤ T
  | .handleRead now => now ≤ T
  | _ => True

instance (T : Int) : (e : TimerEvent) → Decidable (e.NoOverflow T)
  | .addTimer .. => inferInstanceAs (Decidable (_ ∧ _))
  | .functor _ | .reset _ => inferInstanceAs (Decidable (_ ∧ _))
  | .handleRead _ => inferInstanceAs (Decidable (_ ≤ _))
  | .cancel .. | .createdElsewhere | .run => .isTrue trivial

/-- What the clock reads where a step may arm the timerfd. -/
def TimerEvent.clock : TimerEvent → Int
  | .addTimer _ _ _ _ _ clock | .functor clock | .reset clock => clock
  | _ => 0

/-- The time with which `handleRead` was called, while it runs. -/
def Position.now : Position → Option Int
  | .idle => none
  | .calling _ _ now | .resetting _ now => some now

namespace TimerLoop

/-- The loop as if its timerfd were not armed. -/
def disarmed (s : TimerLoop) : TimerLoop := { s with queue := { s.queue with timerfd := none } }

/-- The step executes `resetTimerfd`: the timerfd is armed after it even if it was not before. -/
def arms (s : TimerLoop) (e : TimerEvent) : Bool :=
  (s.disarmed.step e).any fun s' => s'.queue.timerfd.isSome

/-- A step, with the time at which the timerfd was armed last. -/
def alarmStep (s : TimerLoop × Int) (e : TimerEvent) : Option (TimerLoop × Int) :=
  (s.1.step e).map fun s' => (s', if s.1.arms e then e.clock else s.2)

/-- The timerfd is armed, or has fired and not been read, for a time no later than the first
timer or a hundred microseconds after it was armed last. -/
def Armed (s : TimerLoop) (armedAt : Int) : Prop :=
  ∀ e, s.queue.timers.begin = some e →
    ∃ t, s.queue.timerfd = some t ∧ t ≤ max (ofLex e).1 (armedAt + 100)

/-! ### When a step arms the timerfd -/

section Arms

variable {s s' : TimerLoop} {e : TimerEvent}

private theorem arms_eq_false (h : ∀ d, s.disarmed.step e = some d → d.queue.timerfd = none) :
    s.arms e = false := by
  unfold arms
  cases hd : s.disarmed.step e with
  | none => rfl
  | some d => simp [h d hd]

private theorem cancelInLoop_timerfd {q q' : TimerQueue} {id : TimerId}
    (h : q.cancelInLoop id = some q') : q'.timerfd = q.timerfd := by
  obtain ⟨-, t, -, rfl⟩ | ⟨-, rfl⟩ := TimerQueue.cancelInLoop_eq_some h <;> rfl

private theorem disarmed_new (q : TimerQueue) (a : Addr) (when interval : Int) (repeating : Bool) :
    { q with timerfd := none }.new a when interval repeating =
      (q.new a when interval repeating).map fun q => { q with timerfd := none } := by
  unfold TimerQueue.new
  split <;> rfl

private theorem disarmed_insert (q : TimerQueue) (a : Addr) :
    { q with timerfd := none }.insert a =
      (q.insert a).map fun r => ({ r.1 with timerfd := none }, r.2) := by
  simp only [TimerQueue.insert, Option.bind_eq_bind, Option.map_bind, Function.comp_def,
    Option.map_some]
  rfl

/-- `addTimerInLoop` arms the timerfd exactly when the timer comes before all others. -/
theorem disarmed_addTimerInLoop {q q' : TimerQueue} {a : Addr} {clock : Int} {t : Timer}
    (ht : q.heap a = some t) (h : q.addTimerInLoop a clock = some q') :
    (TimerQueue.addTimerInLoop { q with timerfd := none } a clock).any
      (fun q => q.timerfd.isSome) = q.earliestChanged t.expiration := by
  simp only [TimerQueue.addTimerInLoop, Option.bind_eq_bind, Option.bind_eq_some_iff] at h
  obtain ⟨⟨q₁, changed⟩, hi, -⟩ := h
  obtain ⟨t', ht', rfl, rfl⟩ := TimerQueue.insert_eq_some hi
  obtain rfl := Option.some.inj (ht.symm.trans ht')
  simp only [TimerQueue.addTimerInLoop, disarmed_insert, hi, Option.map_some,
    Option.bind_eq_bind, Option.bind_some]
  cases hc : q.earliestChanged t.expiration <;> simp [ht, TimerQueue.resetTimerfd]

private theorem skips_disarmed (h : s.Skips e) : s.disarmed.Skips e := by
  cases e with
  | addTimer inLoop a when interval repeating clock =>
    exact h.imp_left fun hn => (disarmed_new ..).trans (by rw [hn]; rfl)
  | _ => exact h

private theorem arms_cancel {id : TimerId} (hu : s.position.user = true) :
    s.arms (.cancel true id) = false := by
  refine arms_eq_false fun d hd => ?_
  simp only [TimerLoop.step, disarmed, hu, if_true, Option.bind_eq_bind,
    Option.bind_eq_some_iff, Option.some.injEq] at hd
  obtain ⟨q, hq, rfl⟩ := hd
  exact cancelInLoop_timerfd hq

private theorem arms_functorCancel {id : TimerId} {rest : List TimerFunctor} {clock : Int}
    (hi : s.position = .idle) (hp : s.pending = .cancelInLoop id :: rest) :
    s.arms (.functor clock) = false := by
  refine arms_eq_false fun d hd => ?_
  simp only [TimerLoop.step, disarmed, hi, hp, runFunctor, Option.bind_eq_bind,
    Option.bind_eq_some_iff, Option.some.injEq] at hd
  obtain ⟨q, hq, rfl⟩ := hd
  exact cancelInLoop_timerfd hq

/-- A timer added by another thread is only queued. -/
theorem arms_queueAdd {a : Addr} {when interval : Int} {repeating : Bool} {clock : Int}
    {q : TimerQueue} (hn : s.queue.new a when interval repeating = some q) :
    s.arms (.addTimer false a when interval repeating clock) = false := by
  refine arms_eq_false fun d hd => ?_
  have hd' := disarmed_new s.queue a when interval repeating
  rw [hn] at hd'
  simp only [TimerLoop.step, disarmed, hd', Option.map_some] at hd
  exact Option.some.inj hd ▸ rfl

private theorem arms_resetOne {f : Entry} {rest : List Entry} {now clock : Int}
    (hp : s.position = .resetting (f :: rest) now) : s.arms (.reset clock) = false := by
  refine arms_eq_false fun d hd => ?_
  simp only [TimerLoop.step, disarmed, hp, Option.bind_eq_bind, Option.bind_eq_some_iff,
    Option.some.injEq] at hd
  obtain ⟨q, hq, rfl⟩ := hd
  obtain ⟨t, -, ⟨-, -, rfl⟩ | ⟨-, rfl⟩⟩ := TimerQueue.resetOne_eq_some hq <;> rfl

/-- The first timer is late enough for the timerfd, or its time is valid and the end of `reset`
is still to come. -/
def Safe (busy : Bool) (timerfd : Option Int) (armedAt when : Int) : Prop :=
  busy = true ∧ 0 < when ∨ ∃ t, timerfd = some t ∧ t ≤ max when (armedAt + 100)

private theorem Safe.mono {busy : Bool} {timerfd : Option Int} {armedAt x y : Int}
    (h : Safe busy timerfd armedAt x) (hxy : x ≤ y) : Safe busy timerfd armedAt y := by
  rcases h with ⟨hb, hx⟩ | ⟨t, ht, hle⟩
  · exact .inl ⟨hb, by omega⟩
  · exact .inr ⟨t, ht, by omega⟩

private theorem safe_reset {busy : Bool} {T clock x y : Int} (hclock : 0 ≤ clock ∧ clock ≤ T)
    (hx : -2 ^ 63 + T ≤ x ∧ x < 2 ^ 63) (hxy : x ≤ y) :
    Safe busy (some (clock + howMuchTimeFromNow x clock)) clock y := by
  refine .inr ⟨_, rfl, ?_⟩
  rw [howMuchTimeFromNow_eq (by omega) (by omega)]
  omega

end Arms

/-! ### Runs -/

/-- The times of a timer stay in range while the clock reads at most `T`. -/
structure InRange (T : Int) (t : Timer) : Prop where
  expiration : -2 ^ 63 + T ≤ t.expiration ∧ t.expiration < 2 ^ 63
  interval : t.repeating = true → 0 ≤ t.interval ∧ t.interval < 2 ^ 63 - T

/-- What every step keeps. -/
structure AlarmInv (T : Int) (s : TimerLoop × Int) : Prop where
  inv : s.1.Inv
  inRange : ∀ a t, s.1.queue.heap a = some t → InRange T t
  now : ∀ now, s.1.position.now = some now → 0 < now ∧ now ≤ T
  safe : ∀ e ∈ s.1.queue.timers,
    Safe s.1.position.now.isSome s.1.queue.timerfd s.2 (ofLex e).1

section Steps

variable {s s' : TimerLoop} {armedAt T : Int}

private theorem fst_le_of_begin {q : TimerQueue} {x y : Entry} (hb : q.timers.begin = some x)
    (hy : y ∈ q.timers) : (ofLex x).1 ≤ (ofLex y).1 :=
  Prod.Lex.monotone_fst _ _ (OrderedSet.begin_le hb hy)

/-- A timer that is added is covered by the timerfd. -/
theorem safe_addTimerInLoop {busy : Bool} {q q' : TimerQueue} {a : Addr} {clock : Int}
    (hclock : 0 ≤ clock ∧ clock ≤ T) (hrange : ∀ t, q.heap a = some t → InRange T t)
    (h : ∀ e ∈ q.timers, Safe busy q.timerfd armedAt (ofLex e).1)
    (ha : q.addTimerInLoop a clock = some q') {arms : Bool}
    (harms : arms = (TimerQueue.addTimerInLoop { q with timerfd := none } a clock).any
      fun q => q.timerfd.isSome) :
    ∀ e ∈ q'.timers, Safe busy q'.timerfd (if arms then clock else armedAt) (ofLex e).1 := by
  obtain ⟨t, ht, rfl⟩ := TimerQueue.addTimerInLoop_eq_some ha
  have hexp := (hrange t ht).expiration
  rw [disarmed_addTimerInLoop ht ha] at harms
  subst harms
  intro e he
  dsimp only at he ⊢
  rw [OrderedSet.mem_insert] at he
  unfold TimerQueue.earliestChanged
  cases hb : q.timers.begin with
  | none =>
    rcases he with rfl | he
    · exact safe_reset hclock hexp le_rfl
    · exact absurd he (OrderedSet.notMem_of_begin_eq_none hb)
  | some b =>
    dsimp only
    by_cases hlt : t.expiration < (ofLex b).1
    · simp only [hlt, decide_true, if_true]
      refine safe_reset hclock hexp ?_
      rcases he with rfl | he
      · exact le_rfl
      · exact hlt.le.trans (fst_le_of_begin hb he)
    · simp only [hlt, decide_false, Bool.false_eq_true, if_false]
      rcases he with rfl | he
      · exact (h b (OrderedSet.mem_of_begin hb)).mono (not_lt.mp hlt)
      · exact h e he

private theorem cancelInLoop_timers {q q' : TimerQueue} {id : TimerId}
    (h : q.cancelInLoop id = some q') : ∀ e ∈ q'.timers, e ∈ q.timers := by
  obtain ⟨-, t, -, rfl⟩ | ⟨-, rfl⟩ := TimerQueue.cancelInLoop_eq_some h
  · exact fun e he => OrderedSet.mem_of_mem_erase he
  · exact fun e he => he

private theorem cancelInLoop_heap
    {q q' : TimerQueue} {id : TimerId} (h : q.cancelInLoop id = some q')
    {a : Addr} {t : Timer} (ha : q'.heap a = some t) : q.heap a = some t := by
  obtain ⟨-, t, -, rfl⟩ | ⟨-, rfl⟩ := TimerQueue.cancelInLoop_eq_some h
  · by_cases hid : a = id.timer
    · simp [hid] at ha
    · simpa [hid] using ha
  · exact ha

/-- At the end of `reset` the timerfd is armed for the first timer, or was armed for it by a
callback. -/
theorem AlarmInv.safe_rearm (h : AlarmInv T (s, armedAt)) {q : TimerQueue} {clock : Int}
    (hclock : 0 ≤ clock ∧ clock ≤ T) (hr : s.queue.rearm clock = some q) {arms : Bool}
    (harms : arms = (TimerQueue.rearm { s.queue with timerfd := none } clock).any
      fun q => q.timerfd.isSome) :
    ∀ e ∈ q.timers, Safe false q.timerfd (if arms then clock else armedAt) (ofLex e).1 := by
  intro e he
  rcases TimerQueue.rearm_eq_some hr with ⟨rfl, hneg⟩ | ⟨b, t, hb, ht, hpos, rfl⟩
  · cases hb : s.queue.timers.begin with
    | none => exact absurd he (OrderedSet.notMem_of_begin_eq_none hb)
    | some b =>
      obtain ⟨t, ht, hle⟩ := hneg b hb
      have hmem := OrderedSet.mem_of_begin hb
      have hexp := h.inv.expiration_eq hmem ht
      obtain rfl : arms = false := by
        simpa [TimerQueue.rearm, hb, ht, not_lt.mpr hle] using harms
      rcases h.safe b hmem with ⟨-, hb'⟩ | hcov
      · omega
      · exact Safe.mono (.inr hcov) (fst_le_of_begin hb he)
  · have hexp := h.inv.expiration_eq (OrderedSet.mem_of_begin hb) ht
    obtain rfl : arms = true := by
      simpa [TimerQueue.rearm, hb, ht, hpos, TimerQueue.resetTimerfd] using harms
    exact safe_reset hclock (h.inRange _ t ht).expiration (hexp ▸ fst_le_of_begin hb he)

/-- A step that leaves the timerfd alone and adds no timer to the set. -/
theorem AlarmInv.of_quiet (h : AlarmInv T (s, armedAt)) {e : TimerEvent} (hinv : s'.Inv)
    (harms : s.arms e = false) (hpos : s'.position.now = s.position.now)
    (hheap : ∀ a t, s'.queue.heap a = some t → s.queue.heap a = some t)
    (htimers : ∀ e ∈ s'.queue.timers, e ∈ s.queue.timers)
    (hfd : s'.queue.timerfd = s.queue.timerfd) :
    AlarmInv T (s', if s.arms e then e.clock else armedAt) := by
  refine ⟨hinv, fun a t ht => h.inRange a t (hheap a t ht), fun now hn => ?_, fun e he => ?_⟩
  · exact h.now now (hpos ▸ hn)
  · rw [harms, hpos, hfd]
    exact h.safe e (htimers e he)

private theorem inRange_store {heap : Heap Addr Timer} {a : Addr} {t : Timer}
    (h : ∀ b t', heap b = some t' → InRange T t') (ht : InRange T t) (b : Addr) (t' : Timer)
    (hb : heap.store a t b = some t') : InRange T t' := by
  by_cases hba : b = a
  · subst hba
    obtain rfl : t = t' := by simpa [Heap.store] using hb
    exact ht
  · exact h b t' (by simpa [Heap.store, hba] using hb)

/-- A timer that is added is in range. -/
theorem inRange_new {inLoop repeating : Bool} {a : Addr} {when interval clock : Int} {n : Nat}
    (he : repeating = true → 0 ≤ interval)
    (ho : (TimerEvent.addTimer inLoop a when interval repeating clock).NoOverflow T) :
    InRange T { expiration := when, interval, repeating, sequence := n } :=
  ⟨ho.2.1, fun hrep => ⟨he hrep, ho.2.2 hrep⟩⟩

private theorem AlarmInv.addTimer
    (h : AlarmInv T (s, armedAt)) {a : Addr} {when interval clock : Int}
    {repeating : Bool} {q q' : TimerQueue} (he : repeating = true → 0 ≤ interval)
    (ho : (TimerEvent.addTimer true a when interval repeating clock).NoOverflow T)
    (hu : s.position.user = true) (hn : s.queue.new a when interval repeating = some q)
    (ha : q.addTimerInLoop a clock = some q') (hinv : ({ s with queue := q' } : TimerLoop).Inv) :
    AlarmInv T ({ s with queue := q' },
      if s.arms (.addTimer true a when interval repeating clock) then clock else armedAt) := by
  obtain ⟨hnone, rfl⟩ := TimerQueue.new_eq_some hn
  obtain ⟨t, ht, hq'⟩ := TimerQueue.addTimerInLoop_eq_some ha
  have hnew := inRange_store h.inRange (a := a) (inRange_new (n := s.queue.numCreated + 1) he ho)
  refine ⟨hinv, ?_, h.now, safe_addTimerInLoop ho.1 (hnew a) ?_ ha ?_⟩
  · rw [hq']
    exact hnew
  · exact h.safe
  · have hd := disarmed_new s.queue a when interval repeating
    rw [hn] at hd
    simp only [arms, TimerLoop.step, disarmed, hd, hu, Option.map_some, if_true,
      Option.bind_eq_bind]
    cases TimerQueue.addTimerInLoop _ a clock <;> rfl

/-- A repeating timer starts again at a valid time, any other timer is deleted. -/
theorem AlarmInv.resetOne (h : AlarmInv T (s, armedAt)) {f : Entry} {rest : List Entry}
    {now clock : Int} {q : TimerQueue} (hp : s.position = .resetting (f :: rest) now)
    (hr : s.queue.resetOne f now = some q)
    (hinv : ({ s with queue := q, position := .resetting rest now } : TimerLoop).Inv) :
    AlarmInv T ({ s with queue := q, position := .resetting rest now },
      if s.arms (.reset clock) then clock else armedAt) := by
  obtain ⟨hnow, hT⟩ := h.now now (by rw [hp]; rfl)
  obtain ⟨t, ht, ⟨hrep, -, rfl⟩ | ⟨-, rfl⟩⟩ := TimerQueue.resetOne_eq_some hr
  · obtain ⟨hint, hlt⟩ := (h.inRange f.timer t ht).interval hrep
    have hadd : addTime now t.interval = now + t.interval :=
      addTime_eq hint hnow.le (by omega)
    have hnew : InRange T (t.restart now) := by
      refine ⟨?_, fun _ => ⟨hint, hlt⟩⟩
      simp only [Timer.restart, hrep, if_true, hadd]
      omega
    refine ⟨hinv, inRange_store h.inRange hnew, ?_, fun e he' => ?_⟩
    · rintro _ ⟨⟩
      exact ⟨hnow, hT⟩
    · rw [arms_resetOne hp]
      rcases OrderedSet.mem_insert.mp he' with rfl | he'
      · refine .inl ⟨rfl, ?_⟩
        show 0 < addTime now t.interval
        omega
      · have hsafe := h.safe e he'
        rw [hp] at hsafe
        exact hsafe
  · refine h.of_quiet hinv (arms_resetOne hp) (by rw [hp]; rfl) (fun b t' hb => ?_) (fun _ => id)
      rfl
    by_cases hbf : b = f.timer
    · simp [hbf] at hb
    · simpa [hbf] using hb

private theorem AlarmInv.step (h : AlarmInv T (s, armedAt)) {e : TimerEvent} (he : e.Sane)
    (ho : e.NoOverflow T) : ∃ s', alarmStep (s, armedAt) e = some s' ∧ AlarmInv T s' := by
  obtain ⟨s', hs, hinv⟩ := h.inv.step e
  refine ⟨(s', if s.arms e then e.clock else armedAt), by simp [alarmStep, hs], ?_⟩
  dsimp only at hs hinv
  cases move_of_step hs with
  | skip hskip =>
    have harms : s.arms e = false := arms_eq_false fun d hd => by
      rw [step_of_skips (skips_disarmed hskip)] at hd
      exact Option.some.inj hd ▸ rfl
    exact h.of_quiet hinv harms rfl (fun _ _ => id) (fun _ => id) rfl
  | addTimer hu hn ha => exact h.addTimer he ho hu hn ha hinv
  | queueAdd hn =>
    obtain ⟨hnone, rfl⟩ := TimerQueue.new_eq_some hn
    refine ⟨hinv, inRange_store h.inRange (inRange_new he ho), h.now, ?_⟩
    rw [arms_queueAdd hn]
    exact h.safe
  | cancel hu hc =>
    exact h.of_quiet hinv (arms_cancel hu) rfl (fun _ _ => cancelInLoop_heap hc)
      (cancelInLoop_timers hc) (cancelInLoop_timerfd hc)
  | queueCancel => exact h.of_quiet hinv rfl rfl (fun _ _ => id) (fun _ => id) rfl
  | createdElsewhere => exact h.of_quiet hinv rfl rfl (fun _ _ => id) (fun _ => id) rfl
  | @functorAdd a rest clock q hi hp ha =>
    obtain ⟨t, ht, hq⟩ := TimerQueue.addTimerInLoop_eq_some ha
    refine ⟨hinv, ?_, h.now, safe_addTimerInLoop ho (h.inRange a) h.safe ha ?_⟩
    · rw [hq]
      exact h.inRange
    · simp only [arms, TimerLoop.step, disarmed, hi, hp, runFunctor, Option.bind_eq_bind]
      cases TimerQueue.addTimerInLoop _ a clock <;> rfl
  | functorCancel hi hp hc =>
    exact h.of_quiet hinv (arms_functorCancel hi hp) rfl (fun _ _ => cancelInLoop_heap hc)
      (cancelInLoop_timers hc) (cancelInLoop_timerfd hc)
  | handleRead hi hg =>
    obtain ⟨-, activeTimers, rfl⟩ := TimerQueue.getExpired_eq_some hg
    refine ⟨hinv, h.inRange, ?_, fun e he' => .inl ⟨rfl, ?_⟩⟩
    · rintro _ ⟨⟩
      exact ⟨he, ho⟩
    · -- what is left expires after the clock
      have hlt := (OrderedSet.mem_above.mp he').2
      rw [Prod.Lex.lt_iff, not_or] at hlt
      exact lt_of_lt_of_le he (not_lt.mp hlt.1)
  | run hp ht =>
    refine h.of_quiet hinv ?_ (by rw [hp]; rfl) (fun _ _ => id) (fun _ => id) rfl
    simp only [arms, TimerLoop.step, disarmed, hp, ht]
    rfl
  | resetBegin hp =>
    refine h.of_quiet hinv ?_ (by rw [hp]; rfl) (fun _ _ => id) (fun _ => id) rfl
    simp only [arms, TimerLoop.step, disarmed, hp]
    rfl
  | resetOne hp hr => exact h.resetOne hp hr hinv
  | @resetEnd now clock q hp hr =>
    refine ⟨hinv, ?_, fun _ hn => (by cases hn), h.safe_rearm ho hr ?_⟩
    · obtain ⟨rfl, -⟩ | ⟨b, t, -, -, -, rfl⟩ := TimerQueue.rearm_eq_some hr <;> exact h.inRange
    · simp only [arms, TimerLoop.step, disarmed, hp, Option.bind_eq_bind]
      cases TimerQueue.rearm _ clock <;> rfl

end Steps

private theorem alarmInv_start (T : Int) (numCreated : Nat) : AlarmInv T (start numCreated, 0) :=
  ⟨inv_start numCreated, nofun, nofun, nofun⟩

/-- Whatever timers are added and cancelled, from callbacks or between them, and whatever their
times: no step fails, and whenever the loop is outside `handleRead` and there is a timer, the
timerfd is armed for a time no later than the first timer or a hundred microseconds after it was
armed last, provided that no difference or sum of times leaves `int64_t`. -/
theorem timerfd_armed (T : Int) (numCreated : Nat) (events : List TimerEvent)
    (he : ∀ e ∈ events, e.Sane) (ho : ∀ e ∈ events, e.NoOverflow T) :
    ∃ s armedAt, Base.run alarmStep (start numCreated, 0) events = some (s, armedAt) ∧
      (s.position = .idle → s.Armed armedAt) := by
  have hlegal : Legal alarmStep (fun _ e => e.Sane ∧ e.NoOverflow T) (start numCreated, 0) events :=
    Legal.of_forall (fun e hmem => ⟨he e hmem, ho e hmem⟩) _
  obtain ⟨⟨s, armedAt⟩, hs, h⟩ := run_invariant (AlarmInv T)
    (fun s e hs he => hs.step he.1 he.2) events (alarmInv_start T numCreated) hlegal
  refine ⟨s, armedAt, hs, fun hi e hb => ?_⟩
  have hsafe := h.safe e (OrderedSet.mem_of_begin hb)
  rw [hi] at hsafe
  exact hsafe.resolve_left nofun

/-- A callback adds a timer at an invalid time before a later one and cancels it; the timerfd stays
armed for the later one. -/
def invalidTimes : List TimerEvent :=
  [.addTimer true 16 10 0 false 5, .handleRead 20, .run, .addTimer true 32 (-5) 0 false 21,
    .addTimer true 48 (-3) 0 false 22, .cancel true ⟨32, 2⟩, .reset 23, .reset 24, .reset 25]

/-- Times before the epoch. -/
theorem timerfd_armed_invalid :
    ∃ s armedAt, Base.run alarmStep (start 0, 0) invalidTimes = some (s, armedAt) ∧
      s.position = .idle ∧ s.queue.timers.begin = some (toLex (-3, 48)) ∧
      s.queue.timerfd = some 121 ∧ armedAt = 21 ∧ s.Armed armedAt := by
  obtain ⟨s, armedAt, hs, h⟩ := timerfd_armed 25 0 invalidTimes (by decide) (by decide)
  have hrun : ∃ s, Base.run alarmStep (start 0, 0) invalidTimes = some (s, 21) ∧
      s.position = .idle ∧ s.queue.timers.begin = some (toLex (-3, 48)) ∧
      s.queue.timerfd = some 121 := ⟨_, rfl, rfl, rfl, rfl⟩
  obtain ⟨s', hs', hi, hb, hfd⟩ := hrun
  obtain ⟨rfl, rfl⟩ := Prod.mk.inj (Option.some.inj (hs.symm.trans hs'))
  exact ⟨s, 21, hs, hi, hb, hfd, rfl, h hi⟩

/-- A timer whose time is too far in the past is armed for some 292000 years ahead. A timer whose
interval in microseconds exceeds `int64_t` restarts at a negative time, for which `reset` does not
arm the timerfd. -/
theorem timerfd_overflows :
    (∃ s, Base.run alarmStep (start 0, 0) [.addTimer true 16 (-2 ^ 63 + 5) 0 false 10] =
        some (s, 10) ∧ s.position = .idle ∧ s.queue.timers.begin = some (toLex (-2 ^ 63 + 5, 16)) ∧
      s.queue.timerfd = some (2 ^ 63 + 5) ∧ ¬ s.Armed 10) ∧
    ∃ s, Base.run alarmStep (start 0, 0) [.addTimer true 16 10 (10 ^ 19) true 5, .handleRead 20,
        .run, .reset 21, .reset 22, .reset 23] = some (s, 5) ∧ s.position = .idle ∧
      s.queue.timers.begin = some (toLex (-2 ^ 63 + 20, 16)) ∧ s.queue.timerfd = none ∧
      ¬ s.Armed 5 := by
  refine ⟨⟨_, rfl, rfl, rfl, rfl, fun h => ?_⟩, _, rfl, rfl, rfl, rfl, fun h => ?_⟩
  · obtain ⟨t, ht, hle⟩ := h _ rfl
    cases ht
    revert hle
    decide
  · obtain ⟨t, ht, -⟩ := h _ rfl
    cases ht

end TimerLoop

end IMServer.Reactor
