import IMServer.Reactor.TimerOwnership

/-!
# Which timers fire, and when

The callbacks that each call of `handleRead` runs (`server/src/TimerQueue.cc:133–223`, with
`Timer.cc:8–18`), beside the calls of `cancelInLoop` executed so far. A round is one call of
`handleRead`; what it owes is stated from the loop as it found it.

A call of `cancel` in the loop's thread is executed at once. When the timer was added by another
thread its `addTimerInLoop` may still be queued, and the cancellation finds nothing to cancel.
-/

namespace IMServer.Reactor

open IMServer.Base

/-- A callback that was run, with the timer as it was then. -/
structure Fired where
  timer : TimerId
  expiration : Int
  repeating : Bool
  deriving DecidableEq, Repr

/-- The entry under which the timer was taken out of `timers_`. -/
def Fired.entry (x : Fired) : Entry := toLex (x.expiration, x.timer.timer)

/-- A cancellation that was executed, and whether the timer's `addTimerInLoop` was still queued
then. -/
structure Canceled where
  timer : TimerId
  queued : Bool
  deriving DecidableEq, Repr

/-- One call of `handleRead`. -/
structure Round where
  now : Int
  /-- The loop when it was called. -/
  start : TimerLoop
  /-- The cancellations executed before it. -/
  canceled : List Canceled
  /-- The callbacks it has run, in order. -/
  ran : List Fired

namespace TimerLoop

/-- The callback of an entry, which runs if the timer is alive. -/
def fired (s : TimerLoop) (f : Entry) : Option Fired :=
  (s.queue.heap f.timer).map fun t => ⟨⟨f.timer, t.sequence⟩, t.expiration, t.repeating⟩

/-- The id that a step gives to `cancelInLoop`. -/
def cancels (s : TimerLoop) : TimerEvent → Option TimerId
  | .cancel inLoop id => if inLoop && s.position.user then some id else none
  | .functor _ =>
    match s.position, s.pending with
    | .idle, .cancelInLoop id :: _ => some id
    | _, _ => none
  | _ => none

/-- The timer waits for its `addTimerInLoop`. -/
def queued (s : TimerLoop) (id : TimerId) : Bool :=
  TimerFunctor.addTimerInLoop id.timer ∈ s.pending &&
    (s.queue.heap id.timer).any fun t => t.sequence = id.sequence

/-- What is recorded of a cancellation: nothing if no timer has been created under the id. -/
def cancellation (s : TimerLoop) (id : TimerId) : Option Canceled :=
  if id.sequence ≤ s.queue.numCreated then some ⟨id, s.queued id⟩ else none

/-- The cancellation that a step executes. -/
def canceledBy (s : TimerLoop) (e : TimerEvent) : Option Canceled :=
  (s.cancels e).bind s.cancellation

end TimerLoop

/-- A loop and what it has done. -/
structure Firing where
  loop : TimerLoop
  canceled : List Canceled := []
  /-- The rounds whose callbacks have all been run. -/
  finished : List Round := []
  /-- The round whose callbacks are being run. -/
  current : Option Round := none

namespace Firing

def rounds (s : Firing) : List Round := s.finished ++ s.current.toList

/-- What is recorded of a step. -/
def note (s : Firing) (e : TimerEvent) (loop : TimerLoop) : Firing :=
  match e, s.loop.position with
  | .handleRead now, .idle =>
    { s with loop, current := some ⟨now, s.loop, s.canceled, []⟩ }
  | .run, .calling (f :: _) _ _ =>
    { s with loop, current := s.current.map fun r =>
        { r with ran := r.ran ++ (s.loop.fired f).toList } }
  | .reset _, .calling [] _ _ =>
    { s with loop, finished := s.finished ++ s.current.toList, current := none }
  | e, _ => { s with loop, canceled := s.canceled ++ (s.loop.canceledBy e).toList }

def step (s : Firing) (e : TimerEvent) : Option Firing := (s.loop.step e).map (s.note e)

/-- The runs of timers that do not repeat. -/
def oneShots (s : Firing) : List TimerId :=
  ((s.rounds.flatMap Round.ran).filter (!·.repeating)).map Fired.timer

/-- The discipline of firing: a callback is run at or after the expiration of its timer, in the
order of expiration, once if the timer does not repeat, and in every round for every timer that is
due when it starts. -/
structure Disciplined (s : Firing) : Prop where
  due : ∀ r ∈ s.rounds, ∀ x ∈ r.ran, x.expiration ≤ r.now
  once : s.oneShots.Nodup
  sorted : ∀ r ∈ s.rounds, r.ran.Pairwise (·.expiration ≤ ·.expiration)
  complete : ∀ r ∈ s.finished, ∀ a t, r.start.queue.heap a = some t → t.expiration ≤ r.now →
    .addTimerInLoop a ∉ r.start.pending → ⟨a, t.sequence⟩ ∈ r.ran.map Fired.timer

/-- No round runs a timer of which a cancellation was executed before it. -/
def CancelsHold (s : Firing) : Prop :=
  ∀ r ∈ s.rounds, ∀ x ∈ r.ran, ∀ c ∈ r.canceled, c.timer ≠ x.timer

/-- If the step executes `cancelInLoop`, then not for a timer that waits for its
`addTimerInLoop`. -/
def NoneOvertaken (s : Firing) (e : TimerEvent) : Prop :=
  ∀ id, s.loop.cancels e = some id → s.loop.queued id = false

private theorem NoneOvertaken.of_none {s : Firing} {e : TimerEvent} (h : s.loop.cancels e = none) :
    s.NoneOvertaken e := by
  intro id hid
  rw [h] at hid
  cases hid

/-- No cancellation so far was executed for a timer that waited for its `addTimerInLoop`. -/
def InTime (s : Firing) : Prop :=
  (∀ c ∈ s.canceled, c.queued = false) ∧ ∀ r ∈ s.rounds, ∀ c ∈ r.canceled, c.queued = false

end Firing

/-! ### One round -/

namespace Round

/-- The entries that are due at the start of the round, in order. -/
def due (r : Round) : List Entry := r.start.queue.timers.below (toLex (r.now, UINTPTR_MAX))

/-- What holds of a round from its start to its end. -/
structure Sound (r : Round) : Prop where
  inv : r.start.Inv
  idle : r.start.position = .idle
  ran : ∃ rest, r.ran.map Fired.entry ++ rest = r.due
  timers : ∀ x ∈ r.ran, ∃ t, r.start.queue.heap x.timer.timer = some t ∧
    x.timer.sequence = t.sequence
  canceled : ∀ c ∈ r.canceled, c.queued = false → ∀ t, r.start.queue.heap c.timer.timer = some t →
    t.sequence ≠ c.timer.sequence

variable {r : Round}

private theorem mem_due {f : Entry} :
    f ∈ r.due ↔ f ∈ r.start.queue.timers ∧ f < toLex (r.now, UINTPTR_MAX) := OrderedSet.mem_below

private theorem fst_le_of_mem_due {f : Entry} (h : f ∈ r.due) : (ofLex f).1 ≤ r.now := by
  have hlt := (mem_due.mp h).2
  rw [Prod.Lex.lt_iff] at hlt
  rcases hlt with hlt | ⟨heq, -⟩
  · exact hlt.le
  · exact heq.le

private theorem sorted_due (r : Round) : r.due.Pairwise (· < ·) :=
  r.start.queue.timers.sorted.filter _

private theorem Sound.entry_mem (h : r.Sound) {x : Fired} (hx : x ∈ r.ran) : x.entry ∈ r.due := by
  obtain ⟨rest, hr⟩ := h.ran
  rw [← hr]
  exact List.mem_append_left _ (List.mem_map_of_mem hx)

private theorem Sound.expiration_le (h : r.Sound) {x : Fired} (hx : x ∈ r.ran) :
    x.expiration ≤ r.now :=
  fst_le_of_mem_due (h.entry_mem hx)

private theorem Sound.sorted (h : r.Sound) : r.ran.Pairwise (·.expiration ≤ ·.expiration) := by
  obtain ⟨rest, hr⟩ := h.ran
  have hs := r.sorted_due
  rw [← hr] at hs
  have hmap := (List.pairwise_append.mp hs).1
  rw [List.pairwise_map] at hmap
  exact hmap.imp fun hlt => Prod.Lex.monotone_fst _ _ hlt.le

/-- A timer that is due is one of the entries. -/
theorem Sound.mem_due (h : r.Sound) {a : Addr} {t : Timer} (ha : r.start.queue.heap a = some t)
    (ht : t.expiration ≤ r.now) (hp : .addTimerInLoop a ∉ r.start.pending) :
    toLex (t.expiration, a) ∈ r.due := by
  refine Round.mem_due.mpr ⟨(h.inv.consistent.timers _ a).mpr ⟨t, ha, rfl, fun hout => ?_⟩, ?_⟩
  · rcases TimerLoop.mem_outside.mp hout with hout | hout
    · exact hp hout
    · rw [h.idle] at hout
      cases hout
  · rw [Prod.Lex.toLex_lt_toLex]
    rcases ht.lt_or_eq with hlt | heq
    · exact .inl hlt
    · exact .inr ⟨heq, h.inv.lt_max ha⟩

/-- An entry is the one of its timer. -/
theorem Sound.eq_of_timer_eq (h : r.Sound) {f g : Entry} (hf : f ∈ r.due) (hg : g ∈ r.due)
    (heq : f.timer = g.timer) : f = g := by
  have hc := h.inv.consistent
  obtain ⟨t, ht, htf, -⟩ := (hc.timers (ofLex f).1 (ofLex f).2).mp (Round.mem_due.mp hf).1
  obtain ⟨u, hu, hug, -⟩ := (hc.timers (ofLex g).1 (ofLex g).2).mp (Round.mem_due.mp hg).1
  have heq : (ofLex f).2 = (ofLex g).2 := heq
  rw [heq] at ht
  obtain rfl := Option.some.inj (ht.symm.trans hu)
  exact ofLex.injective (Prod.ext (htf.symm.trans hug) heq)

/-- Every timer that was due has been run when all entries have. -/
theorem Sound.complete (h : r.Sound) (hall : r.ran.map Fired.entry = r.due) {a : Addr} {t : Timer}
    (ha : r.start.queue.heap a = some t) (ht : t.expiration ≤ r.now)
    (hp : .addTimerInLoop a ∉ r.start.pending) : ⟨a, t.sequence⟩ ∈ r.ran.map Fired.timer := by
  have hmem := h.mem_due ha ht hp
  rw [← hall] at hmem
  obtain ⟨x, hx, hxe⟩ := List.mem_map.mp hmem
  obtain ⟨u, hu, hseq⟩ := h.timers x hx
  have hxa : x.timer.timer = a := congrArg Entry.timer hxe
  rw [hxa] at hu
  obtain rfl := Option.some.inj (hu.symm.trans ha)
  refine List.mem_map.mpr ⟨x, hx, ?_⟩
  rw [← hxa, ← hseq]

/-- The callback of the next entry is run. -/
theorem Sound.push (h : r.Sound) {f : Entry} {next : List Entry}
    (hr : r.ran.map Fired.entry ++ f :: next = r.due) {t : Timer}
    (ht : r.start.queue.heap f.timer = some t) {x : Fired}
    (hx : x = ⟨⟨f.timer, t.sequence⟩, t.expiration, t.repeating⟩) :
    x.entry = f ∧ f.timer ∉ r.ran.map (·.timer.timer) ∧ { r with ran := r.ran ++ [x] }.Sound := by
  have hf : f ∈ r.due := by
    rw [← hr]
    simp
  have hentry : x.entry = f := by
    rw [hx, Fired.entry, h.inv.expiration_eq (Round.mem_due.mp hf).1 ht]
    rfl
  refine ⟨hentry, fun hin => ?_, h.inv, h.idle, ⟨next, ?_⟩, fun y hy => ?_, h.canceled⟩
  · obtain ⟨y, hy, hyf⟩ := List.mem_map.mp hin
    have hsorted := r.sorted_due
    rw [← hr] at hsorted
    have hlt := (List.pairwise_append.mp hsorted).2.2 y.entry (List.mem_map_of_mem hy) f
      List.mem_cons_self
    exact hlt.ne (h.eq_of_timer_eq (h.entry_mem hy) hf hyf)
  · rw [List.map_append, List.map_singleton, hentry, List.append_assoc]
    exact hr
  · rcases List.mem_append.mp hy with hy | hy
    · exact h.timers y hy
    · obtain rfl := List.mem_singleton.mp hy
      exact ⟨t, by rw [hx]; exact ht, by rw [hx]⟩

/-- A round does not run a timer that was cancelled before it with effect. -/
theorem Sound.not_canceled (h : r.Sound) {x : Fired} (hx : x ∈ r.ran) {c : Canceled}
    (hc : c ∈ r.canceled) (hq : c.queued = false) : c.timer ≠ x.timer := by
  obtain ⟨t, ht, hseq⟩ := h.timers x hx
  intro heq
  rw [← heq] at ht hseq
  exact h.canceled c hc hq t ht hseq.symm

end Round

/-! ### Runs -/

namespace Firing

/-- The addresses of the timers that the current round has run, until they are restarted or
deleted. -/
def spent (s : Firing) : List Addr :=
  match s.loop.position with
  | .idle => []
  | .calling _ _ _ => (s.current.toList.flatMap Round.ran).map (·.timer.timer)
  | .resetting rest _ => rest.map Entry.timer

/-- The current round is the one that `handleRead` executes. -/
def Tracks (s : Firing) : Prop :=
  match s.loop.position with
  | .calling next expired now => ∃ r, s.current = some r ∧ r.now = now ∧ expired = r.due ∧
    r.ran.map Fired.entry ++ next = expired ∧ s.loop.queue.callingExpiredTimers = true ∧
    ∀ f ∈ expired, s.loop.queue.heap f.timer = r.start.queue.heap f.timer
  | _ => s.current = none

/-- What every step keeps. -/
structure Inv (s : Firing) : Prop where
  inv : s.loop.Inv
  created : ∀ a t, s.loop.queue.heap a = some t → t.sequence ≤ s.loop.queue.numCreated
  ranCreated : ∀ id ∈ s.oneShots, id.sequence ≤ s.loop.queue.numCreated
  canceledCreated : ∀ c ∈ s.canceled, c.timer.sequence ≤ s.loop.queue.numCreated
  sound : ∀ r ∈ s.rounds, r.Sound
  complete : ∀ r ∈ s.finished, r.ran.map Fired.entry = r.due
  tracks : s.Tracks
  once : s.oneShots.Nodup
  fresh : ∀ a t, s.loop.queue.heap a = some t → t.repeating = false →
    ⟨a, t.sequence⟩ ∈ s.oneShots → a ∈ s.spent
  canceled : ∀ c ∈ s.canceled, c.queued = false → ∀ t,
    s.loop.queue.heap c.timer.timer = some t → t.sequence = c.timer.sequence →
    c.timer.timer ∈ s.loop.position.batch.map Entry.timer ∧
      toLex (c.timer.timer, c.timer.sequence) ∈ s.loop.queue.cancelingTimers

private theorem Inv.disciplined {s : Firing} (h : s.Inv) : s.Disciplined :=
  ⟨fun r hr _ hx => (h.sound r hr).expiration_le hx, h.once, fun r hr => (h.sound r hr).sorted,
    fun r hr _ _ => (h.sound r (List.mem_append_left _ hr)).complete (h.complete r hr)⟩

/-- Cancellations that came in time hold. -/
theorem Inv.cancelsHold {s : Firing} (h : s.Inv) (hn : s.InTime) : s.CancelsHold :=
  fun r hr _ hx c hmem => (h.sound r hr).not_canceled hx hmem (hn.2 r hr c hmem)

/-- What is recorded of a cancellation that came in time. -/
theorem queued_of_canceledBy {s : Firing} {e : TimerEvent} (hn : s.NoneOvertaken e) {c : Canceled}
    (hc : c ∈ (s.loop.canceledBy e).toList) : c.queued = false := by
  obtain ⟨id, hid, hcan⟩ := Option.bind_eq_some_iff.mp (Option.mem_toList.mp hc)
  unfold TimerLoop.cancellation at hcan
  split at hcan
  · cases hcan
    exact hn id hid
  · cases hcan

private theorem InTime.note {s : Firing} (h : s.InTime) {e : TimerEvent} (hn : s.NoneOvertaken e)
    (loop : TimerLoop) : (s.note e loop).InTime := by
  obtain ⟨hcanceled, hrounds⟩ := h
  unfold Firing.note
  split
  · -- a new round has the cancellations so far
    refine ⟨hcanceled, fun r hr => ?_⟩
    rcases List.mem_append.mp hr with hr | hr
    · exact hrounds r (List.mem_append_left _ hr)
    · obtain rfl := List.mem_singleton.mp hr
      exact hcanceled
  · refine ⟨hcanceled, fun r hr => ?_⟩
    rcases List.mem_append.mp hr with hr | hr
    · exact hrounds r (List.mem_append_left _ hr)
    · obtain ⟨r', hr', rfl⟩ := Option.map_eq_some_iff.mp (Option.mem_toList.mp hr)
      exact hrounds r' (List.mem_append_right _ (by rw [hr']; exact List.mem_singleton_self r'))
  · refine ⟨hcanceled, fun r hr => hrounds r ?_⟩
    simpa [rounds] using hr
  · refine ⟨fun c hc => ?_, hrounds⟩
    rcases List.mem_append.mp hc with hc | hc
    · exact hcanceled c hc
    · exact queued_of_canceledBy hn hc

section Steps

variable {s : Firing} {loop : TimerLoop}

/-- A step outside the rounds: the timers alive after it were alive before or are new, and those
of the batch are the same. -/
theorem Inv.of_heap (h : s.Inv) (hinv : loop.Inv) (hpos : loop.position = s.loop.position)
    (hcalling : loop.queue.callingExpiredTimers = s.loop.queue.callingExpiredTimers)
    (hnum : s.loop.queue.numCreated ≤ loop.queue.numCreated)
    (hheap : ∀ a t, loop.queue.heap a = some t → s.loop.queue.heap a = some t ∨
      s.loop.queue.numCreated < t.sequence ∧ t.sequence ≤ loop.queue.numCreated)
    (hbatch : ∀ f ∈ s.loop.position.batch, loop.queue.heap f.timer = s.loop.queue.heap f.timer)
    (hcanceling : ∀ x ∈ s.loop.queue.cancelingTimers, x ∈ loop.queue.cancelingTimers) :
    { s with loop }.Inv := by
  have hspent : { s with loop }.spent = s.spent := by
    simp only [spent, hpos]
  refine ⟨hinv, fun a t ht => ?_, fun id hid => (h.ranCreated id hid).trans hnum,
    fun c hc => (h.canceledCreated c hc).trans hnum, h.sound, h.complete, ?_, h.once,
    fun a t ht hrep hmem => ?_, fun c hc hq t ht hseq => ?_⟩
  · rcases hheap a t ht with ht | ht
    · exact (h.created a t ht).trans hnum
    · exact ht.2
  · have htr := h.tracks
    simp only [Tracks] at htr ⊢
    rw [hpos]
    cases hp : s.loop.position with
    | calling next expired now =>
      rw [hp] at htr hbatch
      obtain ⟨r, hr, hnow, hdue, hran, hcall, hsame⟩ := htr
      exact ⟨r, hr, hnow, hdue, hran, hcalling.trans hcall,
        fun f hf => (hbatch f hf).trans (hsame f hf)⟩
    | idle | resetting _ _ =>
      rw [hp] at htr
      exact htr
  · rw [hspent]
    rcases hheap a t ht with ht | ht
    · exact h.fresh a t ht hrep hmem
    · exact absurd (h.ranCreated _ hmem) (not_le.mpr ht.1)
  · rcases hheap _ t ht with ht | ht
    · obtain ⟨hb, hcan⟩ := h.canceled c hc hq t ht hseq
      exact ⟨by rw [hpos]; exact hb, hcanceling _ hcan⟩
    · rw [hseq] at ht
      exact absurd (h.canceledCreated c hc) (not_le.mpr ht.1)

/-- A cancellation is recorded. -/
theorem Inv.push (h : s.Inv) (c : Option Canceled)
    (hc : ∀ x ∈ c, x.timer.sequence ≤ s.loop.queue.numCreated ∧ (x.queued = false → ∀ t,
      s.loop.queue.heap x.timer.timer = some t → t.sequence = x.timer.sequence →
      x.timer.timer ∈ s.loop.position.batch.map Entry.timer ∧
        toLex (x.timer.timer, x.timer.sequence) ∈ s.loop.queue.cancelingTimers)) :
    { s with canceled := s.canceled ++ c.toList }.Inv := by
  refine ⟨h.inv, h.created, h.ranCreated, fun x hx => ?_, h.sound, h.complete, h.tracks, h.once,
    h.fresh, fun x hx => ?_⟩
  · rcases List.mem_append.mp hx with hx | hx
    · exact h.canceledCreated x hx
    · exact (hc x (Option.mem_toList.mp hx)).1
  · rcases List.mem_append.mp hx with hx | hx
    · exact h.canceled x hx
    · exact (hc x (Option.mem_toList.mp hx)).2

/-- A timer is created at a free address. -/
theorem Inv.new (h : s.Inv) {a : Addr} {t : Timer} (hinv : loop.Inv)
    (hpos : loop.position = s.loop.position) (hnone : s.loop.queue.heap a = none)
    (ht : t.sequence = s.loop.queue.numCreated + 1)
    (hq : loop.queue.heap = s.loop.queue.heap.store a t ∧
      loop.queue.numCreated = s.loop.queue.numCreated + 1 ∧
      loop.queue.callingExpiredTimers = s.loop.queue.callingExpiredTimers ∧
      loop.queue.cancelingTimers = s.loop.queue.cancelingTimers) : { s with loop }.Inv := by
  obtain ⟨hheap, hnum, hcalling, hcanceling⟩ := hq
  refine h.of_heap hinv hpos hcalling (by omega) (fun b u hu => ?_) (fun f hf => ?_)
    (fun x hx => hcanceling ▸ hx)
  · rw [hheap, Heap.store, Function.update_apply] at hu
    split at hu
    · obtain rfl := Option.some.inj hu
      exact .inr ⟨by omega, by omega⟩
    · exact .inl hu
  · rw [hheap, Heap.store, Function.update_apply, if_neg]
    rintro rfl
    obtain ⟨u, hu⟩ := h.inv.consistent.outside _
      (TimerLoop.mem_outside.mpr (.inr (List.mem_map_of_mem hf)))
    rw [hnone] at hu
    cases hu

/-- Outside `reset` a timer of the batch is in the batch whose callbacks are being run. -/
theorem Inv.calling_of_mem_batch (h : s.Inv) (hu : s.loop.position.user = true) {a : Addr}
    (ha : a ∈ s.loop.position.batch.map Entry.timer) :
    s.loop.queue.callingExpiredTimers = true := by
  have htr := h.tracks
  simp only [Tracks] at htr
  cases hp : s.loop.position with
  | idle =>
    rw [hp] at ha
    cases ha
  | calling next expired now =>
    rw [hp] at htr
    obtain ⟨r, -, -, -, -, hcall, -⟩ := htr
    exact hcall
  | resetting rest now =>
    rw [hp] at hu
    cases hu

/-- A timer that `cancelInLoop` does not find in the sets is queued, or is in the batch and
noted. -/
theorem Inv.noted (h : s.Inv) (hu : s.loop.position.user = true) {id : TimerId}
    (hm : toLex (id.timer, id.sequence) ∉ s.loop.queue.activeTimers)
    (hq : s.loop.queued id = false) {t : Timer} (ht : s.loop.queue.heap id.timer = some t)
    (hseq : t.sequence = id.sequence) :
    id.timer ∈ s.loop.position.batch.map Entry.timer ∧
      s.loop.queue.callingExpiredTimers = true := by
  have hout : id.timer ∈ TimerLoop.outside s.loop.pending s.loop.position := by
    by_contra hout
    exact hm ((h.inv.consistent.activeTimers _ _).mpr ⟨t, ht, hseq, hout⟩)
  rcases TimerLoop.mem_outside.mp hout with hpend | hbatch
  · simp [TimerLoop.queued, hpend, ht, hseq] at hq
  · exact ⟨hbatch, h.calling_of_mem_batch hu hbatch⟩

/-- What a cancellation is noted as. -/
theorem of_mem_cancellation {id : TimerId} {x : Canceled} (h : x ∈ s.loop.cancellation id) :
    id.sequence ≤ s.loop.queue.numCreated ∧ x = ⟨id, s.loop.queued id⟩ := by
  obtain ⟨hle, hx⟩ := Option.ite_none_right_eq_some.mp h
  exact ⟨hle, (Option.some.inj hx).symm⟩

/-- A timer of the sets is deleted; it is in no batch. -/
theorem Inv.delete (h : s.Inv) {id : TimerId}
    (hm : toLex (id.timer, id.sequence) ∈ s.loop.queue.activeTimers) (hinv : loop.Inv)
    (hpos : loop.position = s.loop.position)
    (hheap : loop.queue.heap = Function.update s.loop.queue.heap id.timer none)
    (hcreated : loop.queue.numCreated = s.loop.queue.numCreated)
    (hcalling : loop.queue.callingExpiredTimers = s.loop.queue.callingExpiredTimers)
    (hcanceling : loop.queue.cancelingTimers = s.loop.queue.cancelingTimers) :
    { s with loop }.Inv := by
  obtain ⟨-, -, -, hout⟩ := (h.inv.consistent.activeTimers _ _).mp hm
  refine h.of_heap hinv hpos hcalling hcreated.ge (fun a u hau => .inl ?_) (fun f hf => ?_)
    (fun x hx => by rw [hcanceling]; exact hx)
  · rw [hheap] at hau
    by_cases ha : a = id.timer
    · simp [ha] at hau
    · simpa [ha] using hau
  · rw [hheap]
    refine Function.update_of_ne ?_ _ _
    rintro heq
    exact hout (heq ▸ TimerLoop.mem_outside.mpr (.inr (List.mem_map_of_mem hf)))

/-- A cancellation is executed. -/
theorem Inv.cancelInLoop (h : s.Inv) {id : TimerId} (hu : s.loop.position.user = true)
    (hc : s.loop.queue.cancelInLoop id = some loop.queue) (hinv : loop.Inv)
    (hpos : loop.position = s.loop.position) :
    { s with loop, canceled := s.canceled ++ (s.loop.cancellation id).toList }.Inv := by
  rcases TimerQueue.cancelInLoop_eq_some hc with ⟨hm, t, ht, hq⟩ | ⟨hm, hq⟩
  · have h' : { s with loop }.Inv := by
      apply h.delete hm hinv hpos <;> rw [hq]
    refine h'.push _ fun x hmem => ?_
    obtain ⟨hle, rfl⟩ := of_mem_cancellation hmem
    refine ⟨by rw [hq]; exact hle, fun _ u hu => ?_⟩
    rw [hq] at hu
    simp at hu
  · have h' : { s with loop }.Inv := by
      refine h.of_heap hinv hpos (by rw [hq]) (by rw [hq]) (fun a u hau => .inl ?_) (fun f hf => ?_)
        (fun x hx => ?_)
      · rw [hq] at hau
        exact hau
      · rw [hq]
      · rw [hq]
        dsimp only
        split
        · exact OrderedSet.mem_insert.mpr (.inr hx)
        · exact hx
    refine h'.push _ fun x hmem => ?_
    obtain ⟨hle, rfl⟩ := of_mem_cancellation hmem
    refine ⟨by rw [hq]; exact hle, fun hnq u hu' hseq => ?_⟩
    rw [hq] at hu'
    obtain ⟨hbatch, hcall⟩ := h.noted hu hm hnq hu' hseq
    refine ⟨hpos ▸ hbatch, ?_⟩
    rw [hq]
    dsimp only
    rw [if_pos hcall]
    exact OrderedSet.mem_insert.mpr (.inl rfl)

/-- Outside the rounds no timer alive has been cancelled with effect. -/
theorem Inv.not_canceled (h : s.Inv) (hi : s.loop.position = .idle) {c : Canceled}
    (hc : c ∈ s.canceled) (hq : c.queued = false) {t : Timer}
    (ht : s.loop.queue.heap c.timer.timer = some t) : t.sequence ≠ c.timer.sequence := by
  intro hseq
  have hbatch := (h.canceled c hc hq t ht hseq).1
  rw [hi] at hbatch
  cases hbatch

/-- A round begins. -/
theorem Inv.handleRead (h : s.Inv) {now : Int} {q : TimerQueue} {expired : List Entry}
    (hi : s.loop.position = .idle)
    (hg : { s.loop.queue with timerfd := none }.getExpired now = some (q, expired))
    (hloop : loop = { s.loop with
      queue := { q with callingExpiredTimers := true, cancelingTimers := .empty }
      position := .calling expired expired now }) (hinv : loop.Inv) :
    { s with loop, current := some ⟨now, s.loop, s.canceled, []⟩ }.Inv := by
  obtain ⟨rfl, activeTimers, rfl⟩ := TimerQueue.getExpired_eq_some hg
  have hnone : s.current = none := by
    have htr := h.tracks
    simp only [Tracks, hi] at htr
    exact htr
  have hshots : ∀ r : Round, r.ran = [] →
      { s with loop, current := some r }.oneShots = s.oneShots := by
    intro r hr
    simp [oneShots, rounds, hnone, hr]
  subst hloop
  refine ⟨hinv, h.created, ?_, h.canceledCreated, fun r hr => ?_, h.complete, ?_, ?_, ?_, ?_⟩
  · rw [hshots _ rfl]
    exact h.ranCreated
  · rcases List.mem_append.mp hr with hr | hr
    · exact h.sound r (List.mem_append_left _ hr)
    · obtain rfl : r = _ := by simpa using hr
      exact ⟨h.inv, hi, ⟨_, rfl⟩, nofun, fun c hc hq t ht => h.not_canceled hi hc hq ht⟩
  · exact ⟨_, rfl, rfl, rfl, rfl, rfl, fun _ _ => rfl⟩
  · rw [hshots _ rfl]
    exact h.once
  · intro a t ht hrep hmem
    rw [hshots _ rfl] at hmem
    have hspent := h.fresh a t ht hrep hmem
    simp only [spent, hi] at hspent
    cases hspent
  · intro c hc hq t ht hseq
    exact absurd hseq (h.not_canceled hi hc hq ht)

/-- What a callback adds to the one-shot timers that have run. -/
def oneShot (x : Fired) : List TimerId := if x.repeating then [] else [x.timer]

private theorem mem_oneShot {x : Fired} {id : TimerId} :
    id ∈ oneShot x ↔ x.repeating = false ∧ id = x.timer := by
  cases hrep : x.repeating <;> simp [oneShot, hrep]

private theorem nodup_oneShot (x : Fired) : (oneShot x).Nodup := by
  unfold oneShot
  split
  · exact List.nodup_nil
  · exact List.nodup_singleton _

private theorem oneShots_push (loop : TimerLoop) {r : Round} (hr : s.current = some r) (x : Fired) :
    ({ s with loop, current := some { r with ran := r.ran ++ [x] } } : Firing).oneShots =
      s.oneShots ++ oneShot x := by
  cases hrep : x.repeating <;> simp [oneShots, oneShot, rounds, hr, hrep]

/-- A round runs the callback of the next entry. -/
theorem Inv.run (h : s.Inv) {f : Entry} {next expired : List Entry} {now : Int} {t : Timer}
    (hp : s.loop.position = .calling (f :: next) expired now)
    (ht : s.loop.queue.heap f.timer = some t)
    (hloop : loop = { s.loop with position := .calling next expired now }) (hinv : loop.Inv) :
    ({ s with loop, current := s.current.map fun r =>
        { r with ran := r.ran ++ (s.loop.fired f).toList } } : Firing).Inv := by
  have htr := h.tracks
  simp only [Tracks, hp] at htr
  obtain ⟨r, hr, hnow, hdue, hran, hcall, hsame⟩ := htr
  have hsame' := hsame f (by rw [← hran]; simp)
  obtain ⟨x, hx⟩ : ∃ x : Fired, x = ⟨⟨f.timer, t.sequence⟩, t.expiration, t.repeating⟩ := ⟨_, rfl⟩
  have hfired : s.loop.fired f = some x := by
    rw [TimerLoop.fired, ht, Option.map_some, hx]
  obtain ⟨hentry, hnot, hsound⟩ := (h.sound r (List.mem_append_right _ (by simp [hr]))).push
    (hran.trans hdue) (hsame' ▸ ht) hx
  have hshots := oneShots_push loop hr x
  have hspent : s.spent = r.ran.map (·.timer.timer) := by
    simp [spent, hp, hr]
  simp only [hr, hfired, Option.map_some, Option.toList_some]
  subst hloop
  refine ⟨hinv, h.created, fun id hid => ?_, h.canceledCreated, fun r' hr' => ?_, h.complete, ?_,
    ?_, fun a u hu hrep hmem => ?_, fun c hc hq u hu hseq => ?_⟩
  · rw [hshots, List.mem_append] at hid
    rcases hid with hid | hid
    · exact h.ranCreated id hid
    · obtain ⟨-, rfl⟩ := mem_oneShot.mp hid
      rw [hx]
      exact h.created _ t ht
  · rcases List.mem_append.mp hr' with hr' | hr'
    · exact h.sound r' (List.mem_append_left _ hr')
    · obtain rfl : r' = _ := by simpa using hr'
      exact hsound
  · refine ⟨_, rfl, hnow, hdue, ?_, hcall, hsame⟩
    rw [List.map_append, List.map_singleton, hentry, List.append_assoc]
    exact hran
  · rw [hshots]
    refine List.nodup_append.mpr ⟨h.once, nodup_oneShot x, ?_⟩
    rintro id hid _ hmem rfl
    obtain ⟨hrep, rfl⟩ := mem_oneShot.mp hmem
    rw [hx] at hrep hid
    exact hnot (hspent ▸ h.fresh f.timer t ht hrep hid)
  · rw [hshots, List.mem_append] at hmem
    simp only [spent, Option.toList_some, List.flatMap_singleton, List.map_append,
      List.map_singleton, List.mem_append, List.mem_singleton, hx]
    rcases hmem with hmem | hmem
    · exact .inl (hspent ▸ h.fresh a u hu hrep hmem)
    · have hid := (mem_oneShot.mp hmem).2
      rw [hx] at hid
      exact .inr (congrArg TimerId.timer hid)
  · have hcan := h.canceled c hc hq u hu hseq
    rw [hp] at hcan
    exact hcan

/-- All callbacks of the round have been run. -/
theorem Inv.resetBegin (h : s.Inv) {expired : List Entry} {now : Int}
    (hp : s.loop.position = .calling [] expired now)
    (hloop : loop = { s.loop with
      queue := { s.loop.queue with callingExpiredTimers := false }
      position := .resetting expired now }) (hinv : loop.Inv) :
    { s with loop, finished := s.finished ++ s.current.toList, current := none }.Inv := by
  have htr := h.tracks
  simp only [Tracks, hp] at htr
  obtain ⟨r, hr, -, hdue, hran, -, -⟩ := htr
  rw [List.append_nil] at hran
  have hrounds : ({ s with
      loop, finished := s.finished ++ s.current.toList, current := none } : Firing).rounds =
      s.rounds := by
    simp [rounds]
  have hshots : ({ s with
      loop, finished := s.finished ++ s.current.toList, current := none } : Firing).oneShots =
      s.oneShots := by
    rw [oneShots, hrounds, oneShots]
  subst hloop
  refine ⟨hinv, h.created, ?_, h.canceledCreated, ?_, fun r' hr' => ?_, rfl, ?_, ?_, ?_⟩
  · rw [hshots]
    exact h.ranCreated
  · rw [hrounds]
    exact h.sound
  · rcases List.mem_append.mp hr' with hr' | hr'
    · exact h.complete r' hr'
    · obtain rfl : r' = r := by simpa [hr] using hr'
      rw [hran, hdue]
  · rw [hshots]
    exact h.once
  · intro a t ht hrep hmem
    rw [hshots] at hmem
    have hspent := h.fresh a t ht hrep hmem
    simp only [spent, hp, hr, Option.toList_some, List.flatMap_singleton] at hspent
    simp only [spent, ← hran, List.map_map]
    exact hspent
  · intro c hc hq t ht hseq
    have hcan := h.canceled c hc hq t ht hseq
    rw [hp] at hcan
    exact hcan

/-- `resetOne` restarts the timer of its entry or deletes it, and leaves all others alone. -/
theorem resetOne_heap {q q' : TimerQueue} {f : Entry} {now : Int}
    (h : q.resetOne f now = some q') : q'.numCreated = q.numCreated ∧
      q'.cancelingTimers = q.cancelingTimers ∧ ∀ a u, q'.heap a = some u →
        a ≠ f.timer ∧ q.heap a = some u ∨ a = f.timer ∧ ∃ t, q.heap f.timer = some t ∧
          u = t.restart now ∧ t.repeating = true ∧
          toLex (f.timer, t.sequence) ∉ q.cancelingTimers := by
  obtain ⟨t, ht, ⟨hrep, hcan, rfl⟩ | ⟨-, rfl⟩⟩ := TimerQueue.resetOne_eq_some h
  · refine ⟨rfl, rfl, fun a u hu => ?_⟩
    simp only [Heap.store, Function.update_apply] at hu
    split at hu
    · next heq => exact .inr ⟨heq, t, ht, (Option.some.inj hu).symm, hrep, hcan⟩
    · next hne => exact .inl ⟨hne, hu⟩
  · refine ⟨rfl, rfl, fun a u hu => ?_⟩
    simp only [Function.update_apply] at hu
    split at hu
    · cases hu
    · next hne => exact .inl ⟨hne, hu⟩

/-- A timer of the round is restarted or deleted. -/
theorem Inv.resetOne (h : s.Inv) {f : Entry} {rest : List Entry} {now : Int} {q : TimerQueue}
    (hp : s.loop.position = .resetting (f :: rest) now)
    (hr : s.loop.queue.resetOne f now = some q)
    (hloop : loop = { s.loop with queue := q, position := .resetting rest now })
    (hinv : loop.Inv) : { s with loop }.Inv := by
  have hnone : s.current = none := by
    have htr := h.tracks
    simp only [Tracks, hp] at htr
    exact htr
  obtain ⟨hnum, hcancel, hheap⟩ := resetOne_heap hr
  subst hloop
  refine ⟨hinv, fun a u hu => ?_, fun id hid => ?_, fun c hc => ?_, h.sound, h.complete, hnone,
    h.once, fun a u hu hrep hmem => ?_, fun c hc hq u hu hseq => ?_⟩
  · rcases hheap a u hu with ⟨-, hu⟩ | ⟨rfl, t, ht, rfl, -, -⟩
    · exact hnum ▸ h.created a u hu
    · exact hnum ▸ h.created _ t ht
  · exact hnum ▸ h.ranCreated id hid
  · exact hnum ▸ h.canceledCreated c hc
  · rcases hheap a u hu with ⟨hne, hu⟩ | ⟨-, t, -, rfl, hrep', -⟩
    · have hspent := h.fresh a u hu hrep hmem
      simp only [spent, hp, List.map_cons, List.mem_cons] at hspent
      exact hspent.resolve_left hne
    · simp [Timer.restart, hrep'] at hrep
  · rcases hheap c.timer.timer u hu with ⟨hne, hu⟩ | ⟨heq, t, ht, rfl, -, hcan⟩
    · obtain ⟨hbatch, hin⟩ := h.canceled c hc hq u hu hseq
      rw [hp, Position.batch, List.map_cons, List.mem_cons] at hbatch
      exact ⟨hbatch.resolve_left hne, hcancel ▸ hin⟩
    · -- a cancelled timer is not restarted
      rw [← heq] at ht hcan
      exact absurd (hseq ▸ (h.canceled c hc hq t ht hseq).2) hcan

/-- The round is over. -/
theorem Inv.resetEnd (h : s.Inv) {now clock : Int} {q : TimerQueue}
    (hp : s.loop.position = .resetting [] now) (hr : s.loop.queue.rearm clock = some q)
    (hloop : loop = { s.loop with queue := q, position := .idle }) (hinv : loop.Inv) :
    { s with loop }.Inv := by
  have hq : q.heap = s.loop.queue.heap ∧ q.numCreated = s.loop.queue.numCreated := by
    obtain ⟨rfl, -⟩ | ⟨e, t, -, -, -, rfl⟩ := TimerQueue.rearm_eq_some hr <;> exact ⟨rfl, rfl⟩
  have htr := h.tracks
  simp only [Tracks, hp] at htr
  subst hloop
  refine ⟨hinv, fun a t ht => ?_, fun id hid => ?_, fun c hc => ?_, h.sound, h.complete, htr,
    h.once, fun a t ht hrep hmem => ?_, fun c hc hnq t ht hseq => ?_⟩
  · exact hq.2 ▸ h.created a t (hq.1 ▸ ht)
  · exact hq.2 ▸ h.ranCreated id hid
  · exact hq.2 ▸ h.canceledCreated c hc
  · have hspent := h.fresh a t (hq.1 ▸ ht) hrep hmem
    simp only [spent, hp] at hspent
    cases hspent
  · have hbatch := (h.canceled c hc hnq t (hq.1 ▸ ht) hseq).1
    rw [hp] at hbatch
    cases hbatch

private theorem note_of_skips {e : TimerEvent} (he : s.loop.Skips e) : s.note e s.loop = s := by
  cases e with
  | addTimer | createdElsewhere => simp [Firing.note, TimerLoop.canceledBy, TimerLoop.cancels]
  | cancel inLoop id =>
    simp [Firing.note, TimerLoop.canceledBy, TimerLoop.cancels, he.2]
  | functor clock =>
    cases hp : s.loop.position with
    | idle => simp [Firing.note, TimerLoop.canceledBy, TimerLoop.cancels, hp, he hp]
    | calling | resetting => simp [Firing.note, TimerLoop.canceledBy, TimerLoop.cancels, hp]
  | handleRead now =>
    cases hp : s.loop.position with
    | idle => exact absurd hp he
    | calling | resetting => simp [Firing.note, TimerLoop.canceledBy, TimerLoop.cancels, hp]
  | run =>
    cases hp : s.loop.position with
    | idle | resetting => simp [Firing.note, TimerLoop.canceledBy, TimerLoop.cancels, hp]
    | calling next expired now =>
      cases next with
      | nil => simp [Firing.note, TimerLoop.canceledBy, TimerLoop.cancels, hp]
      | cons f next => exact absurd hp (he f next expired now)
  | reset clock =>
    rcases he with hp | ⟨f, next, expired, now, hp⟩ <;>
      simp [Firing.note, TimerLoop.canceledBy, TimerLoop.cancels, hp]

private theorem Inv.note (h : s.Inv) {e : TimerEvent} (hm : s.loop.Move e loop) (hinv : loop.Inv) :
    (s.note e loop).Inv := by
  cases hm with
  | skip he => rwa [note_of_skips he]
  | addTimer hu hn ha =>
    obtain ⟨hnone, rfl⟩ := TimerQueue.new_eq_some hn
    obtain ⟨t, ht, rfl⟩ := TimerQueue.addTimerInLoop_eq_some ha
    simp only [Firing.note, TimerLoop.canceledBy, TimerLoop.cancels, Option.bind_none,
      Option.toList_none, List.append_nil]
    exact h.new hinv rfl hnone rfl ⟨rfl, rfl, rfl, rfl⟩
  | queueAdd hn =>
    obtain ⟨hnone, rfl⟩ := TimerQueue.new_eq_some hn
    simp only [Firing.note, TimerLoop.canceledBy, TimerLoop.cancels, Option.bind_none,
      Option.toList_none, List.append_nil]
    exact h.new hinv rfl hnone rfl ⟨rfl, rfl, rfl, rfl⟩
  | cancel hu hc =>
    simp only [Firing.note, TimerLoop.canceledBy, TimerLoop.cancels, hu, Bool.and_self, if_true,
      Option.bind_some]
    exact h.cancelInLoop hu hc hinv rfl
  | queueCancel =>
    simp only [Firing.note, TimerLoop.canceledBy, TimerLoop.cancels, Bool.false_and,
      Bool.false_eq_true, if_false, Option.bind_none, Option.toList_none, List.append_nil]
    exact h.of_heap hinv rfl rfl le_rfl (fun _ _ => .inl) (fun _ _ => rfl) (fun _ => id)
  | createdElsewhere =>
    simp only [Firing.note, TimerLoop.canceledBy, TimerLoop.cancels, Option.bind_none,
      Option.toList_none, List.append_nil]
    exact h.of_heap hinv rfl rfl (Nat.le_succ _) (fun _ _ => .inl) (fun _ _ => rfl) (fun _ => id)
  | @functorAdd a rest clock q hi hp ha =>
    obtain ⟨t, ht, rfl⟩ := TimerQueue.addTimerInLoop_eq_some ha
    have hcb : s.loop.canceledBy (.functor clock) = none := by
      simp [TimerLoop.canceledBy, TimerLoop.cancels, hi, hp]
    simp only [Firing.note, hcb, Option.toList_none, List.append_nil]
    exact h.of_heap hinv rfl rfl le_rfl (fun _ _ => .inl) (fun _ _ => rfl) (fun _ => id)
  | @functorCancel id rest clock q hi hp hc =>
    have hcb : s.loop.canceledBy (.functor clock) = s.loop.cancellation id := by
      simp [TimerLoop.canceledBy, TimerLoop.cancels, hi, hp]
    simp only [Firing.note, hcb]
    exact h.cancelInLoop (by rw [hi]; rfl) hc hinv rfl
  | handleRead hi hg =>
    simp only [Firing.note, hi]
    exact h.handleRead hi hg rfl hinv
  | run hp ht =>
    simp only [Firing.note, hp]
    exact h.run hp ht rfl hinv
  | resetBegin hp =>
    simp only [Firing.note, hp]
    exact h.resetBegin hp rfl hinv
  | resetOne hp hr =>
    simp only [Firing.note, TimerLoop.canceledBy, TimerLoop.cancels, hp, Option.bind_none,
      Option.toList_none, List.append_nil]
    exact h.resetOne hp hr rfl hinv
  | resetEnd hp hr =>
    simp only [Firing.note, TimerLoop.canceledBy, TimerLoop.cancels, hp, Option.bind_none,
      Option.toList_none, List.append_nil]
    exact h.resetEnd hp hr rfl hinv

end Steps

/-- A loop that has just been made. -/
def start (numCreated : Nat) : Firing := { loop := .start numCreated }

private theorem inv_start (numCreated : Nat) : (start numCreated).Inv where
  inv := TimerLoop.inv_start numCreated
  created := nofun
  ranCreated := nofun
  canceledCreated := nofun
  sound := nofun
  complete := nofun
  tracks := rfl
  once := List.nodup_nil
  fresh := nofun
  canceled := nofun

/-- Whatever the threads do, in whatever order: no step fails and the firing of timers is
disciplined; and if no step executes `cancelInLoop` for a timer whose `addTimerInLoop` is still
queued, no round runs a timer of which a cancellation was executed before it. -/
theorem timer_firing_disciplined (numCreated : Nat) (events : List TimerEvent) :
    ∃ s, Base.run step (start numCreated) events = some s ∧ s.Disciplined ∧
      (Legal step NoneOvertaken (start numCreated) events → s.CancelsHold) := by
  have hl : Legal step (fun _ _ => True) (start numCreated) events :=
    Legal.of_forall (fun _ _ => trivial) _
  obtain ⟨s, hs, h⟩ := run_invariant Inv (fun s e h _ => by
    obtain ⟨loop, hloop, hinv⟩ := h.inv.step e
    exact ⟨s.note e loop, by rw [step, hloop]; rfl, h.note (TimerLoop.move_of_step hloop) hinv⟩)
    events (inv_start numCreated) hl
  refine ⟨s, hs, h.disciplined, fun hlegal => h.cancelsHold ?_⟩
  refine legal_some_invariant InTime (fun s e s' hin hn hstep => ?_) events hlegal ⟨nofun, nofun⟩ hs
  obtain ⟨loop, -, rfl⟩ := Option.map_eq_some_iff.mp hstep
  exact hin.note hn loop

/-- Another thread adds a timer and a repeating one, the loop's thread adds them to the queue, runs
both and cancels the second; the next round runs nothing. -/
def canceledInTime : List TimerEvent :=
  [.addTimer false 16 10 0 false 0, .addTimer false 32 12 5 true 0, .functor 1, .functor 2,
    .handleRead 20, .run, .run, .reset 21, .reset 21, .reset 21, .reset 21, .cancel true ⟨32, 2⟩,
    .handleRead 40, .reset 41, .reset 41]

/-- A timer that is cancelled in time. -/
theorem timer_firing_canceledInTime :
    ∃ s, Base.run step (start 0) canceledInTime = some s ∧ s.Disciplined ∧ s.CancelsHold ∧
      s.finished.map (·.ran) =
        [[⟨⟨16, 1⟩, 10, false⟩, ⟨⟨32, 2⟩, 12, true⟩], []] := by
  obtain ⟨s, hs, hd, hc⟩ := timer_firing_disciplined 0 canceledInTime
  have hran : (Base.run step (start 0) canceledInTime).map (fun s => s.finished.map (·.ran)) =
      some [[⟨⟨16, 1⟩, 10, false⟩, ⟨⟨32, 2⟩, 12, true⟩], []] := rfl
  rw [hs, Option.map_some, Option.some_inj] at hran
  refine ⟨s, hs, hd, hc ?_, hran⟩
  have hcancel : ∀ id, some (⟨32, 2⟩ : TimerId) = some id →
      TimerLoop.queued (((Base.run step (start 0) (canceledInTime.take 11)).map Firing.loop).getD
        (.start 0)) id = false := by
    rintro id ⟨⟩
    rfl
  exact ⟨.of_none rfl, .of_none rfl, .of_none rfl, .of_none rfl, .of_none rfl, .of_none rfl,
    .of_none rfl, .of_none rfl, .of_none rfl, .of_none rfl, .of_none rfl, hcancel, .of_none rfl,
    .of_none rfl, .of_none rfl, trivial⟩

/-- Another thread adds a timer, the loop's thread cancels it before its functors are run, and the
timer fires. -/
theorem timer_fires_after_cancel :
    ∃ s, Base.run step (start 0) [.addTimer false 16 10 0 false 0, .cancel true ⟨16, 1⟩, .functor 1,
        .handleRead 20, .run] = some s ∧
      s.current.map (·.canceled) = some [⟨⟨16, 1⟩, true⟩] ∧
      s.current.map (·.ran) = some [⟨⟨16, 1⟩, 10, false⟩] ∧ ¬ s.CancelsHold := by
  refine ⟨_, rfl, rfl, rfl, fun h => ?_⟩
  exact h _ (List.mem_append_right _ (List.mem_singleton.mpr rfl)) _ (List.mem_singleton.mpr rfl) _
    (List.mem_singleton.mpr rfl) rfl

end Firing

end IMServer.Reactor
