import IMServer.Reactor.TimerQueue

/-!
# Every timer has one owner

A timer that is alive is in both sets of the queue, or waits for `addTimerInLoop`, or is one
that `handleRead` has taken out, and in one of these places only. Each function of
`server/src/TimerQueue.cc` moves a timer from one place to another, creates it or deletes it,
so that no assertion of the source fails and no timer is used after it was deleted.
-/

namespace IMServer.Reactor

open IMServer.Base

namespace TimerQueue

/-! ### The two sets as functions of the timers in them -/

/-- The entry of a timer in `timers_`. -/
def entryOf (heap : Heap Addr Timer) (a : Addr) : Entry :=
  toLex ((heap a).elim 0 Timer.expiration, a)

/-- The entry of a timer in `activeTimers_`. -/
def activeOf (heap : Heap Addr Timer) (a : Addr) : ActiveTimer :=
  toLex (a, (heap a).elim 0 Timer.sequence)

section Indexed

variable {q q' : TimerQueue} {queued : Finset Addr} {heap : Heap Addr Timer} {a : Addr} {t : Timer}

private theorem entryOf_injective (heap : Heap Addr Timer) : Function.Injective (entryOf heap) :=
  fun _ _ h => congrArg (fun e : Entry => (ofLex e).2) h

private theorem activeOf_injective (heap : Heap Addr Timer) : Function.Injective (activeOf heap) :=
  fun _ _ h => congrArg (fun e : ActiveTimer => (ofLex e).1) h

private theorem entryOf_eq (h : heap a = some t) : entryOf heap a = toLex (t.expiration, a) := by
  rw [entryOf, h, Option.elim_some]

private theorem activeOf_eq (h : heap a = some t) : activeOf heap a = toLex (a, t.sequence) := by
  rw [activeOf, h, Option.elim_some]

/-- Both sets hold the given timers, each once, under its expiration and its sequence. -/
structure Indexed (q : TimerQueue) (queued : Finset Addr) : Prop where
  timers : q.timers.toFinset = queued.image (entryOf q.heap)
  active : q.activeTimers.toFinset = queued.image (activeOf q.heap)

private theorem Indexed.size_eq (h : q.Indexed queued) : q.timers.size = q.activeTimers.size := by
  rw [OrderedSet.size_eq_card, OrderedSet.size_eq_card, h.timers, h.active,
    Finset.card_image_of_injective _ (entryOf_injective _),
    Finset.card_image_of_injective _ (activeOf_injective _)]

private theorem Indexed.mem_timers (h : q.Indexed queued) :
    entryOf q.heap a ∈ q.timers ↔ a ∈ queued := by
  rw [← OrderedSet.mem_toFinset, h.timers, (entryOf_injective _).mem_finset_image]

private theorem Indexed.mem_active (h : q.Indexed queued) :
    activeOf q.heap a ∈ q.activeTimers ↔ a ∈ queued := by
  rw [← OrderedSet.mem_toFinset, h.active, (activeOf_injective _).mem_finset_image]

/-- What happens to other timers and to other fields does not matter. -/
theorem Indexed.congr (h : q.Indexed queued) (ht : q'.timers = q.timers)
    (ha : q'.activeTimers = q.activeTimers) (hheap : ∀ a ∈ queued, q'.heap a = q.heap a) :
    q'.Indexed queued := by
  refine ⟨?_, ?_⟩
  · rw [ht, h.timers]
    exact Finset.image_congr fun a ha => by rw [entryOf, entryOf, hheap a ha]
  · rw [ha, h.active]
    exact Finset.image_congr fun a ha => by rw [activeOf, activeOf, hheap a ha]

private theorem Indexed.insert (h : q.Indexed queued) (hheap : q'.heap = q.heap)
    (ht : q'.timers = q.timers.insert (entryOf q.heap a))
    (ha : q'.activeTimers = q.activeTimers.insert (activeOf q.heap a)) :
    q'.Indexed (Insert.insert a queued) := by
  refine ⟨?_, ?_⟩
  · rw [ht, OrderedSet.toFinset_insert, h.timers, hheap, Finset.image_insert]
  · rw [ha, OrderedSet.toFinset_insert, h.active, hheap, Finset.image_insert]

private theorem Indexed.erase (h : q.Indexed queued) (hheap : ∀ b ≠ a, q'.heap b = q.heap b)
    (ht : q'.timers = q.timers.erase (entryOf q.heap a))
    (ha : q'.activeTimers = q.activeTimers.erase (activeOf q.heap a)) :
    q'.Indexed (queued.erase a) := by
  have hsame : ∀ b ∈ queued.erase a, q'.heap b = q.heap b :=
    fun b hb => hheap b (Finset.ne_of_mem_erase hb)
  refine ⟨?_, ?_⟩
  · rw [ht, OrderedSet.toFinset_erase, h.timers, ← Finset.image_erase (entryOf_injective _)]
    exact Finset.image_congr fun b hb => by rw [entryOf, entryOf, hsame b hb]
  · rw [ha, OrderedSet.toFinset_erase, h.active, ← Finset.image_erase (activeOf_injective _)]
    exact Finset.image_congr fun b hb => by rw [activeOf, activeOf, hsame b hb]

end Indexed

/-! ### What each function does to the owners -/

/-- The timers alive are those in the sets and those in `rest`, each in one place. -/
def Good (q : TimerQueue) (rest : Multiset Addr) : Prop :=
  ∃ queued : Finset Addr, q.Indexed queued ∧ Owned q.heap (queued.val + rest) ∧
    ∀ a ∈ queued.val + rest, a < UINTPTR_MAX

section Functions

variable {q q' : TimerQueue} {rest : Multiset Addr} {a : Addr}

private theorem Good.congr (h : q.Good rest) (hheap : q'.heap = q.heap) (ht : q'.timers = q.timers)
    (ha : q'.activeTimers = q.activeTimers) : q'.Good rest := by
  obtain ⟨queued, hi, ho, hb⟩ := h
  exact ⟨queued, hi.congr ht ha fun _ _ => by rw [hheap], hheap ▸ ho, hb⟩

private theorem Good.live (h : q.Good rest) (ha : a ∈ rest) : ∃ t, q.heap a = some t := by
  obtain ⟨queued, -, ho, -⟩ := h
  exact ho.exists_cell (Multiset.mem_add.mpr (.inr ha))

private theorem Good.new (h : q.Good rest) {when interval : Int} {repeating : Bool}
    (hn : q.new a when interval repeating = some q') : q'.Good (a ::ₘ rest) := by
  obtain ⟨queued, hi, ho, hb⟩ := h
  obtain ⟨⟨-, hmax, hnone⟩, hq'⟩ := Option.ite_none_right_eq_some.mp hn
  obtain rfl := Option.some.inj hq'
  have hne : ∀ b ∈ queued, b ≠ a := by
    rintro b hbq rfl
    obtain ⟨t, ht⟩ := ho.exists_cell (Multiset.mem_add.mpr (.inl hbq))
    rw [hnone] at ht
    cases ht
  refine ⟨queued, hi.congr rfl rfl fun b hbq => Function.update_of_ne (hne b hbq) .., ?_, ?_⟩
  · rw [Multiset.add_cons]
    exact ho.alloc hnone _
  · rw [Multiset.add_cons, Multiset.forall_mem_cons]
    exact ⟨hmax, hb⟩

/-- `insert` moves a timer into the sets. -/
theorem Good.insert (h : q.Good (a ::ₘ rest)) :
    ∃ q' changed, q.insert a = some (q', changed) ∧ q'.heap = q.heap ∧ q'.Good rest := by
  obtain ⟨t, ht⟩ := h.live (Multiset.mem_cons_self a rest)
  obtain ⟨queued, hi, ho, hb⟩ := h
  have hnot : a ∉ queued := by
    have hnd := ho.nodup
    rw [Multiset.add_cons, Multiset.nodup_cons, Multiset.mem_add, not_or] at hnd
    exact hnd.1.1
  have htimers := mt hi.mem_timers.mp hnot
  have hactive := mt hi.mem_active.mp hnot
  rw [entryOf_eq ht] at htimers
  rw [activeOf_eq ht] at hactive
  have hi' : Indexed { q with
      timers := q.timers.insert (toLex (t.expiration, a))
      activeTimers := q.activeTimers.insert (toLex (a, t.sequence)) } (Insert.insert a queued) :=
    hi.insert rfl (by rw [entryOf_eq ht]) (by rw [activeOf_eq ht])
  have howners : (Insert.insert a queued).val + rest = queued.val + a ::ₘ rest := by
    rw [Finset.insert_val_of_notMem hnot, Multiset.cons_add, Multiset.add_cons]
  refine ⟨{ q with
    timers := q.timers.insert (toLex (t.expiration, a))
    activeTimers := q.activeTimers.insert (toLex (a, t.sequence)) },
    q.earliestChanged t.expiration, ?_, rfl, _, hi', howners ▸ ho, howners ▸ hb⟩
  simp only [TimerQueue.insert, hi.size_eq, ht, htimers, hactive, guard_true, Option.pure_def,
    Option.bind_eq_bind, Option.bind_some, not_false_eq_true, hi'.size_eq]

private theorem Good.addTimerInLoop (h : q.Good (a ::ₘ rest)) (clock : Int) :
    ∃ q', q.addTimerInLoop a clock = some q' ∧ q'.Good rest := by
  obtain ⟨t, ht⟩ := h.live (Multiset.mem_cons_self a rest)
  obtain ⟨q', changed, hq, hheap, hg⟩ := h.insert
  simp only [TimerQueue.addTimerInLoop, hq, hheap, ht, Option.bind_eq_bind, Option.bind_some]
  split
  · exact ⟨_, rfl, hg.congr rfl rfl rfl⟩
  · exact ⟨_, rfl, hg⟩

/-- `cancelInLoop` deletes a timer of the sets, or no timer. -/
theorem Good.cancelInLoop (h : q.Good rest) (id : TimerId) :
    ∃ q', q.cancelInLoop id = some q' ∧ q'.Good rest := by
  have hg := h
  obtain ⟨queued, hi, ho, hb⟩ := h
  by_cases hmem : toLex (id.timer, id.sequence) ∈ q.activeTimers
  · obtain ⟨a, ha, haid⟩ := Finset.mem_image.mp (hi.active ▸ OrderedSet.mem_toFinset.mpr hmem)
    obtain rfl : a = id.timer := congrArg (fun e : ActiveTimer => (ofLex e).1) haid
    obtain ⟨t, ht⟩ := ho.exists_cell (Multiset.mem_add.mpr (.inl ha))
    have htimers := hi.mem_timers.mpr ha
    rw [entryOf_eq ht] at htimers
    have howners : queued.val + rest = id.timer ::ₘ ((queued.erase id.timer).val + rest) := by
      rw [← Multiset.cons_add, Finset.erase_val, Multiset.cons_erase ha]
    rw [howners, Multiset.forall_mem_cons] at hb
    obtain ⟨heap, hfree, rfl, ho'⟩ := (howners ▸ ho).free
    have hi' : Indexed { q with
        heap := Function.update q.heap id.timer none
        timers := q.timers.erase (toLex (t.expiration, id.timer))
        activeTimers := q.activeTimers.erase (toLex (id.timer, id.sequence)) }
        (queued.erase id.timer) :=
      hi.erase (fun b hb => Function.update_of_ne hb ..) (by rw [entryOf_eq ht]) (by rw [haid])
    refine ⟨_, ?_, _, hi', ho', hb.2⟩
    simp only [TimerQueue.cancelInLoop, hi.size_eq, hmem, ht, htimers, hfree, hi'.size_eq,
      guard_true, if_true, Option.pure_def, Option.bind_eq_bind, Option.bind_some]
  · simp only [TimerQueue.cancelInLoop, hi.size_eq, hmem, if_false, guard_true, Option.pure_def,
      Option.bind_eq_bind, Option.bind_some]
    split
    · simp only [hi.size_eq, guard_true, Option.pure_def, Option.bind_some]
      exact ⟨_, rfl, hg.congr rfl rfl rfl⟩
    · simp only [hi.size_eq, guard_true, Option.pure_def, Option.bind_some]
      exact ⟨_, rfl, hg⟩

/-- The loop of `getExpired` takes the expired timers out of `activeTimers_`. -/
theorem eraseActive_spec {heap : Heap Addr Timer} {expired : List Entry} {queued : Finset Addr}
    {active : OrderedSet ActiveTimer} (hactive : active.toFinset = queued.image (activeOf heap))
    (hlive : ∀ a ∈ queued, ∃ t, heap a = some t) (hnd : (expired.map Entry.timer).Nodup)
    (hq : ∀ e ∈ expired, e.timer ∈ queued) :
    ∃ active', eraseActive heap expired active = some active' ∧
      active'.toFinset = (queued \ (expired.map Entry.timer).toFinset).image (activeOf heap) := by
  induction expired generalizing queued active with
  | nil => exact ⟨active, rfl, by simpa using hactive⟩
  | cons e expired ih =>
    rw [List.map_cons, List.nodup_cons] at hnd
    rw [List.forall_mem_cons] at hq
    obtain ⟨t, ht⟩ := hlive _ hq.1
    have hmem : toLex (e.timer, t.sequence) ∈ active := by
      rw [← activeOf_eq ht, ← OrderedSet.mem_toFinset, hactive,
        (activeOf_injective _).mem_finset_image]
      exact hq.1
    have herase : (active.erase (toLex (e.timer, t.sequence))).toFinset =
        (queued.erase e.timer).image (activeOf heap) := by
      rw [OrderedSet.toFinset_erase, hactive, Finset.image_erase (activeOf_injective _),
        activeOf_eq ht]
    obtain ⟨active', hrun, hset⟩ := ih herase
      (fun a ha => hlive a (Finset.mem_of_mem_erase ha)) hnd.2
      (fun e' he' => Finset.mem_erase.mpr
        ⟨fun heq => hnd.1 (heq ▸ List.mem_map_of_mem he'), hq.2 e' he'⟩)
    refine ⟨active', ?_, ?_⟩
    · simp only [eraseActive, ht, hmem, hrun, guard_true, Option.pure_def, Option.bind_eq_bind,
        Option.bind_some]
    · rw [hset, List.map_cons, List.toFinset_cons, Finset.sdiff_insert, Finset.erase_sdiff_comm]

/-- The timers of the expired entries are those in the sets that are due. -/
theorem Indexed.coe_expired {queued : Finset Addr} (hi : q.Indexed queued) (bound : Entry) :
    ((q.timers.below bound).map Entry.timer : Multiset Addr) =
      (queued.filter (entryOf q.heap · < bound)).val := by
  have htimer : Entry.timer ∘ entryOf q.heap = id := rfl
  rw [← Multiset.map_coe, OrderedSet.coe_below, hi.timers, Finset.filter_image,
    Finset.image_val_of_injOn (entryOf_injective _).injOn, Multiset.map_map, htimer,
    Multiset.map_id]

private theorem Indexed.coe_due {queued : Finset Addr} (hi : q.Indexed queued) (bound : Entry)
    (rest : Multiset Addr) :
    (queued.filter (¬ entryOf q.heap · < bound)).val +
      (((q.timers.below bound).map Entry.timer : List Addr) + rest) = queued.val + rest := by
  rw [hi.coe_expired, ← Multiset.add_assoc, Multiset.add_comm (Finset.val _), Finset.filter_val,
    Finset.filter_val, Multiset.filter_add_not]

/-- The assertion of `getExpired` after `lower_bound`: no timer is at the sentry's address. -/
theorem Indexed.lt_begin {queued : Finset Addr} (hi : q.Indexed queued)
    (hmax : ∀ a ∈ queued, a < UINTPTR_MAX) (now : Int) :
    ∀ e ∈ (q.timers.above (toLex (now, UINTPTR_MAX))).begin, now < (ofLex e).1 := by
  intro e he
  have hin := OrderedSet.mem_toFinset.mpr (OrderedSet.mem_of_begin he)
  rw [OrderedSet.toFinset_above, hi.timers, Finset.mem_filter, Finset.mem_image] at hin
  obtain ⟨⟨a, ha, rfl⟩, hnot⟩ := hin
  rw [entryOf, Prod.Lex.toLex_lt_toLex, not_or, not_and] at hnot
  refine lt_of_le_of_ne (not_lt.mp hnot.1) fun heq => hnot.2 heq.symm (hmax a ha)

/-- `getExpired` moves the timers that are due out of the sets. -/
theorem Good.getExpired (h : q.Good rest) (now : Int) :
    ∃ q' expired, q.getExpired now = some (q', expired) ∧
      q'.Good ((expired.map Entry.timer : List Addr) + rest) := by
  obtain ⟨queued, hi, ho, hb⟩ := h
  have hcoe := hi.coe_expired (toLex (now, UINTPTR_MAX))
  have hmem : ∀ a, a ∈ (q.timers.below (toLex (now, UINTPTR_MAX))).map Entry.timer ↔
      a ∈ queued ∧ entryOf q.heap a < toLex (now, UINTPTR_MAX) := by
    intro a
    rw [← Multiset.mem_coe, hcoe, Finset.mem_val, Finset.mem_filter]
  have hnd : ((q.timers.below (toLex (now, UINTPTR_MAX))).map Entry.timer).Nodup := by
    rw [← Multiset.coe_nodup, hcoe]
    exact Finset.nodup _
  obtain ⟨active', hrun, hset⟩ := eraseActive_spec hi.active
    (fun a ha => ho.exists_cell (Multiset.mem_add.mpr (.inl ha))) hnd
    fun e he => ((hmem _).mp (List.mem_map_of_mem he)).1
  have hrest : queued \ ((q.timers.below (toLex (now, UINTPTR_MAX))).map Entry.timer).toFinset =
      queued.filter (¬ entryOf q.heap · < toLex (now, UINTPTR_MAX)) := by
    ext a
    rw [Finset.mem_sdiff, List.mem_toFinset, hmem, Finset.mem_filter, not_and]
    exact and_congr_right fun ha => ⟨fun h => h ha, fun h _ => h⟩
  have hi' : Indexed { q with
      timers := q.timers.above (toLex (now, UINTPTR_MAX)), activeTimers := active' }
      (queued.filter (¬ entryOf q.heap · < toLex (now, UINTPTR_MAX))) := by
    refine ⟨?_, hset.trans (by rw [hrest])⟩
    rw [OrderedSet.toFinset_above, hi.timers, Finset.filter_image]
  have hfirst := hi.lt_begin (fun a ha => hb a (Multiset.mem_add.mpr (.inl ha))) now
  have howners := hi.coe_due (toLex (now, UINTPTR_MAX)) rest
  refine ⟨_, _, ?_, _, hi', howners.symm ▸ ho, howners.symm ▸ hb⟩
  simp only [TimerQueue.getExpired, hi.size_eq, hrun, hi'.size_eq, guard_true,
    Option.pure_def, Option.bind_eq_bind, Option.bind_some]
  rw [guard, if_pos hfirst]
  rfl

/-- One round of `reset` moves a timer back into the sets or deletes it. -/
theorem Good.resetOne {e : Entry} (h : q.Good (e.timer ::ₘ rest)) (now : Int) :
    ∃ q', q.resetOne e now = some q' ∧ q'.Good rest := by
  obtain ⟨t, ht⟩ := h.live (Multiset.mem_cons_self e.timer rest)
  obtain ⟨queued, hi, ho, hb⟩ := h
  have hne : ∀ b ∈ queued, b ≠ e.timer := by
    rintro b hbq rfl
    have hnd := ho.nodup
    rw [Multiset.add_cons, Multiset.nodup_cons, Multiset.mem_add, not_or] at hnd
    exact hnd.1.1 hbq
  simp only [TimerQueue.resetOne, ht, Option.bind_eq_bind, Option.bind_some]
  split
  · have hg : { q with heap := q.heap.store e.timer (t.restart now) }.Good (e.timer ::ₘ rest) :=
      ⟨queued, hi.congr rfl rfl fun b hbq => Function.update_of_ne (hne b hbq) ..,
        ho.store (by simp) _, hb⟩
    obtain ⟨q', changed, hq, -, hg'⟩ := hg.insert
    exact ⟨q', by rw [hq]; rfl, hg'⟩
  · rw [Multiset.add_cons] at ho hb
    obtain ⟨heap, hfree, rfl, ho'⟩ := ho.free
    refine ⟨{ q with heap := Function.update q.heap e.timer none }, ?_, queued,
      hi.congr rfl rfl fun b hbq => Function.update_of_ne (hne b hbq) .., ho',
      (Multiset.forall_mem_cons.mp hb).2⟩
    rw [hfree, Option.bind_some]

private theorem Good.rearm (h : q.Good rest) (clock : Int) :
    ∃ q', q.rearm clock = some q' ∧ q'.Good rest := by
  unfold TimerQueue.rearm
  split
  · exact ⟨q, rfl, h⟩
  · next e he =>
    obtain ⟨t, ht⟩ : ∃ t, q.heap e.timer = some t := by
      obtain ⟨queued, hi, ho, -⟩ := h
      have hin := OrderedSet.mem_toFinset.mpr (OrderedSet.mem_of_begin he)
      rw [hi.timers] at hin
      obtain ⟨a, ha, rfl⟩ := Finset.mem_image.mp hin
      exact ho.exists_cell (Multiset.mem_add.mpr (.inl ha))
    simp only [ht, Option.bind_eq_bind, Option.bind_some]
    split
    · exact ⟨_, rfl, h.congr rfl rfl rfl⟩
    · exact ⟨_, rfl, h⟩

end Functions

end TimerQueue

/-! ### Runs -/

/-- The timer that a queued call will add. -/
def TimerFunctor.added : TimerFunctor → Option Addr
  | .addTimerInLoop a => some a
  | .cancelInLoop _ => none

namespace TimerLoop

/-- The timers alive that are not in the sets. -/
def outside (pending : List TimerFunctor) (position : Position) : Multiset Addr :=
  (pending.filterMap TimerFunctor.added : List Addr) +
    (position.batch.map Entry.timer : List Addr)

/-- A timer outside the sets is to be added or is running. -/
theorem mem_outside {pending : List TimerFunctor} {position : Position} {a : Addr} :
    a ∈ outside pending position ↔
      .addTimerInLoop a ∈ pending ∨ a ∈ position.batch.map Entry.timer := by
  rw [outside, Multiset.mem_add, Multiset.mem_coe, Multiset.mem_coe, List.mem_filterMap]
  refine or_congr_left ⟨?_, fun h => ⟨_, h, rfl⟩⟩
  rintro ⟨f, hf, hadd⟩
  cases f with
  | addTimerInLoop b =>
    obtain rfl : b = a := Option.some.inj hadd
    exact hf
  | cancelInLoop id => cases hadd

private theorem outside_push
    (pending : List TimerFunctor) (f : TimerFunctor) (position : Position) :
    outside (pending ++ [f]) position = f.added.toList + outside pending position := by
  have hmap : [f].filterMap TimerFunctor.added = f.added.toList := by cases f <;> rfl
  rw [outside, outside, List.filterMap_append, hmap, ← Multiset.coe_add, ← Multiset.add_assoc,
    Multiset.add_comm (Multiset.ofList (pending.filterMap _))]

private theorem outside_cons
    (pending : List TimerFunctor) (f : TimerFunctor) (position : Position) :
    outside (f :: pending) position = f.added.toList + outside pending position := by
  have hmap : (f :: pending).filterMap TimerFunctor.added =
      f.added.toList ++ pending.filterMap TimerFunctor.added := by
    cases f <;> rfl
  rw [outside, outside, hmap, ← Multiset.coe_add, Multiset.add_assoc]

/-- What every step keeps. -/
structure Inv (s : TimerLoop) : Prop where
  good : s.queue.Good (outside s.pending s.position)
  next : ∀ next expired now, s.position = .calling next expired now → next ⊆ expired

variable {s : TimerLoop}

private theorem good_runFunctor {q : TimerQueue} {f : TimerFunctor} {rest : Multiset Addr}
    (h : q.Good (f.added.toList + rest)) (clock : Int) :
    ∃ q', runFunctor q clock f = some q' ∧ q'.Good rest := by
  cases f with
  | addTimerInLoop a => exact TimerQueue.Good.addTimerInLoop h clock
  | cancelInLoop id =>
    rw [TimerFunctor.added, Option.toList_none, Multiset.coe_nil, Multiset.zero_add] at h
    exact h.cancelInLoop id

private theorem Inv.addTimer (h : s.Inv) (inLoop : Bool) (a : Addr) (when interval : Int)
    (repeating : Bool) (clock : Int) :
    ∃ s', s.step (.addTimer inLoop a when interval repeating clock) = some s' ∧ s'.Inv := by
  simp only [TimerLoop.step]
  split
  · exact ⟨s, rfl, h⟩
  · next q hq =>
    have hg := h.good.new hq
    cases inLoop with
    | false =>
      refine ⟨_, rfl, ?_, h.next⟩
      simp only [outside_push]
      exact hg
    | true =>
      rw [if_pos rfl]
      split
      · obtain ⟨q', hq', hg'⟩ := hg.addTimerInLoop clock
        simp only [hq', Option.bind_eq_bind, Option.bind_some]
        exact ⟨_, rfl, hg', h.next⟩
      · exact ⟨s, rfl, h⟩

private theorem Inv.cancel (h : s.Inv) (inLoop : Bool) (id : TimerId) :
    ∃ s', s.step (.cancel inLoop id) = some s' ∧ s'.Inv := by
  simp only [TimerLoop.step]
  cases inLoop with
  | false =>
    refine ⟨_, rfl, ?_, h.next⟩
    simp only [outside_push]
    exact h.good
  | true =>
    rw [if_pos rfl]
    split
    · obtain ⟨q', hq', hg'⟩ := h.good.cancelInLoop id
      simp only [hq', Option.bind_eq_bind, Option.bind_some]
      exact ⟨_, rfl, hg', h.next⟩
    · exact ⟨s, rfl, h⟩

private theorem Inv.functor (h : s.Inv) (clock : Int) :
    ∃ s', s.step (.functor clock) = some s' ∧ s'.Inv := by
  simp only [TimerLoop.step]
  split
  · next f pending hpos hpending =>
    have hg := h.good
    rw [hpending, outside_cons] at hg
    obtain ⟨q', hq', hg'⟩ := good_runFunctor hg clock
    simp only [hq', Option.bind_eq_bind, Option.bind_some]
    exact ⟨_, rfl, hg', h.next⟩
  · exact ⟨s, rfl, h⟩

private theorem Inv.handleRead (h : s.Inv) (now : Int) :
    ∃ s', s.step (.handleRead now) = some s' ∧ s'.Inv := by
  simp only [TimerLoop.step]
  split
  · next hpos =>
    have hg : { s.queue with timerfd := none }.Good (outside s.pending s.position) :=
      h.good.congr rfl rfl rfl
    obtain ⟨q', expired, hq', hg'⟩ := hg.getExpired now
    simp only [hq', Option.bind_eq_bind, Option.bind_some]
    refine ⟨_, rfl, ?_, ?_⟩
    · rw [outside, hpos, Position.batch, List.map_nil, Multiset.coe_nil, Multiset.add_zero,
        Multiset.add_comm] at hg'
      exact hg'.congr rfl rfl rfl
    · rintro _ _ _ ⟨⟩
      exact List.Subset.refl expired
  · exact ⟨s, rfl, h⟩

/-- A timer whose callback is run is alive. -/
theorem Inv.run (h : s.Inv) : ∃ s', s.step .run = some s' ∧ s'.Inv := by
  simp only [TimerLoop.step]
  split
  · next e next expired now hpos =>
    have hsub := List.cons_subset.mp (h.next _ _ _ hpos)
    have hg := h.good
    rw [hpos] at hg
    obtain ⟨t, ht⟩ := hg.live (a := e.timer)
      (Multiset.mem_add.mpr (.inr (List.mem_map_of_mem hsub.1)))
    simp only [ht, Option.bind_eq_bind, Option.bind_some]
    refine ⟨_, rfl, hg, ?_⟩
    rintro _ _ _ ⟨⟩
    exact hsub.2
  · exact ⟨s, rfl, h⟩

private theorem Inv.reset (h : s.Inv) (clock : Int) :
    ∃ s', s.step (.reset clock) = some s' ∧ s'.Inv := by
  have hg := h.good
  simp only [TimerLoop.step]
  split
  · next expired now hpos =>
    rw [hpos] at hg
    exact ⟨_, rfl, hg.congr rfl rfl rfl, by rintro _ _ _ ⟨⟩⟩
  · next e rest now hpos =>
    rw [outside, hpos, Position.batch, List.map_cons, ← Multiset.cons_coe,
      Multiset.add_cons] at hg
    obtain ⟨q', hq', hg'⟩ := hg.resetOne now
    simp only [hq', Option.bind_eq_bind, Option.bind_some]
    exact ⟨_, rfl, hg', by rintro _ _ _ ⟨⟩⟩
  · next now hpos =>
    rw [hpos] at hg
    obtain ⟨q', hq', hg'⟩ := hg.rearm clock
    simp only [hq', Option.bind_eq_bind, Option.bind_some]
    exact ⟨_, rfl, hg', by rintro _ _ _ ⟨⟩⟩
  · exact ⟨s, rfl, h⟩

/-- No step fails, and every step keeps the invariant. -/
theorem Inv.step (h : s.Inv) (e : TimerEvent) : ∃ s', s.step e = some s' ∧ s'.Inv := by
  cases e with
  | addTimer inLoop a when interval repeating clock =>
    exact h.addTimer inLoop a when interval repeating clock
  | cancel inLoop id => exact h.cancel inLoop id
  | createdElsewhere => exact ⟨_, rfl, h.good.congr rfl rfl rfl, h.next⟩
  | functor clock => exact h.functor clock
  | handleRead now => exact h.handleRead now
  | run => exact h.run
  | reset clock => exact h.reset clock

/-- A loop that has just been made, after some number of timers of other loops. -/
def start (numCreated : Nat) : TimerLoop := { queue := { numCreated } }

/-- There is no timer. -/
theorem inv_start (numCreated : Nat) : (start numCreated).Inv := by
  refine ⟨⟨∅, ⟨rfl, rfl⟩, ⟨Multiset.nodup_zero, fun _ => iff_of_false ?_ ?_⟩, ?_⟩, ?_⟩
  · exact Multiset.notMem_zero _
  · nofun
  · exact fun a ha => absurd ha (Multiset.notMem_zero a)
  · rintro _ _ _ ⟨⟩

/-- A timer is in both sets, under its expiration and under its sequence, exactly when it is
alive and neither waits for `addTimerInLoop` nor has been taken out by `handleRead`; those that
are outside the sets are alive too. -/
structure Consistent (s : TimerLoop) : Prop where
  timers : ∀ when a, toLex (when, a) ∈ s.queue.timers ↔
    ∃ t, s.queue.heap a = some t ∧ t.expiration = when ∧ a ∉ outside s.pending s.position
  activeTimers : ∀ a sequence, toLex (a, sequence) ∈ s.queue.activeTimers ↔
    ∃ t, s.queue.heap a = some t ∧ t.sequence = sequence ∧ a ∉ outside s.pending s.position
  outside : ∀ a ∈ outside s.pending s.position, ∃ t, s.queue.heap a = some t
  nodup : (TimerLoop.outside s.pending s.position).Nodup

/-- The two sets agree. -/
theorem Inv.consistent (h : s.Inv) : s.Consistent := by
  have hlive := fun a ha => h.good.live (a := a) ha
  obtain ⟨queued, hi, ho, -⟩ := h.good
  have hnd := Multiset.nodup_add.mp ho.nodup
  -- a timer alive is in the sets exactly when it is not outside
  have hqueued : ∀ {a t}, s.queue.heap a = some t →
      (a ∈ queued ↔ a ∉ outside s.pending s.position) := by
    intro a t ht
    refine ⟨fun ha hout => Multiset.disjoint_left.mp hnd.2.2 ha hout, fun hout => ?_⟩
    exact (Multiset.mem_add.mp ((ho.mem_iff a).mpr (by rw [ht]; rfl))).resolve_right hout
  refine ⟨fun when a => ⟨fun hmem => ?_, ?_⟩, fun a sequence => ⟨fun hmem => ?_, ?_⟩, hlive,
    hnd.2.1⟩
  · rw [← OrderedSet.mem_toFinset, hi.timers, Finset.mem_image] at hmem
    obtain ⟨b, hb, heq⟩ := hmem
    obtain ⟨t, ht⟩ := ho.exists_cell (Multiset.mem_add.mpr (.inl hb))
    rw [TimerQueue.entryOf_eq ht] at heq
    obtain ⟨rfl, rfl⟩ := Prod.mk.inj (toLex.injective heq)
    exact ⟨t, ht, rfl, (hqueued ht).mp hb⟩
  · rintro ⟨t, ht, rfl, hout⟩
    rw [← TimerQueue.entryOf_eq ht]
    exact hi.mem_timers.mpr ((hqueued ht).mpr hout)
  · rw [← OrderedSet.mem_toFinset, hi.active, Finset.mem_image] at hmem
    obtain ⟨b, hb, heq⟩ := hmem
    obtain ⟨t, ht⟩ := ho.exists_cell (Multiset.mem_add.mpr (.inl hb))
    rw [TimerQueue.activeOf_eq ht] at heq
    obtain ⟨rfl, rfl⟩ := Prod.mk.inj (toLex.injective heq)
    exact ⟨t, ht, rfl, (hqueued ht).mp hb⟩
  · rintro ⟨t, ht, rfl, hout⟩
    rw [← TimerQueue.activeOf_eq ht]
    exact hi.mem_active.mpr ((hqueued ht).mpr hout)

/-- The timer of an entry expires at the time of the entry. -/
theorem Inv.expiration_eq (h : s.Inv) {e : Entry} (he : e ∈ s.queue.timers) {t : Timer}
    (ht : s.queue.heap e.timer = some t) : t.expiration = (ofLex e).1 := by
  obtain ⟨t', ht', hexp, -⟩ := (h.consistent.timers (ofLex e).1 (ofLex e).2).mp he
  obtain rfl := Option.some.inj (ht.symm.trans ht')
  exact hexp

/-- An address is below the sentry. -/
theorem Inv.lt_max (h : s.Inv) {a : Addr} {t : Timer} (ha : s.queue.heap a = some t) :
    a < UINTPTR_MAX := by
  obtain ⟨queued, -, ho, hb⟩ := h.good
  exact hb a ((ho.mem_iff a).mpr (by rw [ha]; rfl))

/-- Whatever the threads do, in whatever order, and wherever the allocator puts timers: no
assertion fails, no timer is used after it was deleted or deleted twice, and both sets hold the
same timers, each once. -/
theorem timers_consistent (numCreated : Nat) (events : List TimerEvent) :
    ∃ s, Base.run step (start numCreated) events = some s ∧ s.Consistent := by
  have hl : Legal step (fun _ _ => True) (start numCreated) events :=
    Legal.of_forall (fun _ _ => trivial) _
  obtain ⟨s, hs, h⟩ := run_invariant Inv (fun s e hs _ => hs.step e) events
    (inv_start numCreated) hl
  exact ⟨s, hs, h.consistent⟩

end TimerLoop

end IMServer.Reactor
