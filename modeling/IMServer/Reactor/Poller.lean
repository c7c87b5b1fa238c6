import IMServer.Base.Run
import IMServer.Reactor.Connection
import Mathlib.Logic.Function.Basic

/-!
# The poller and its channels

`server/src/EPollPoller.cc:85–170` with the calls of `Channel.h:49–57` and `Channel.cc:43–54` on
any number of channels of one loop. Beside the channels stand the map `channels_`, the epoll set
of the kernel with its masks, and the calls of `epoll_ctl` made so far. A function is `none` when
an assertion fails or `LOG_SYSFATAL` ends the process.

`updateChannel` adds a channel that is new or deleted whatever its interest, so a call that leaves
a channel without interest puts it into the epoll set when it was not there.
-/

namespace IMServer.Reactor

open IMServer.Base

/-! ### Masks -/

def EPOLLIN : BitVec 32 := 0x001#32

def EPOLLPRI : BitVec 32 := 0x002#32

def EPOLLOUT : BitVec 32 := 0x004#32

/-- `Channel.cc:10–12`. -/
def kNoneEvent : BitVec 32 := 0#32

def kReadEvent : BitVec 32 := EPOLLIN ||| EPOLLPRI

def kWriteEvent : BitVec 32 := EPOLLOUT

/-- `events_`. -/
def Channel.events (c : Channel) : BitVec 32 :=
  (if c.reading then kReadEvent else kNoneEvent) ||| if c.writing then kWriteEvent else kNoneEvent

/-- The calls that change the interest of a channel; `Channel.h:51–55`. -/
inductive InterestCall where
  | enableReading
  | disableReading
  | enableWriting
  | disableWriting
  | disableAll
  deriving DecidableEq, Repr

namespace InterestCall

/-- The channel with the new interest, before `update`. -/
def apply : InterestCall → Channel → Channel
  | .enableReading, c => { c with reading := true }
  | .disableReading, c => { c with reading := false }
  | .enableWriting, c => { c with writing := true }
  | .disableWriting, c => { c with writing := false }
  | .disableAll, c => { c with reading := false, writing := false }

/-- The call on a channel, with what the poller does to its index. -/
def call : InterestCall → Channel → Channel
  | .enableReading => Channel.enableReading
  | .disableReading => Channel.disableReading
  | .enableWriting => Channel.enableWriting
  | .disableWriting => Channel.disableWriting
  | .disableAll => Channel.disableAll

private theorem call_eq (k : InterestCall) (c : Channel) : k.call c = (k.apply c).update := by
  cases k <;> rfl

/-- A change of interest keeps the index. -/
@[simp]
theorem apply_index (k : InterestCall) (c : Channel) : (k.apply c).index = c.index := by
  cases k <;> rfl

end InterestCall

private theorem Channel.isNoneEvent_iff (c : Channel) :
    c.isNoneEvent = true ↔ c.events = kNoneEvent := by
  obtain ⟨reading, writing, index⟩ := c
  cases reading <;> cases writing <;> simp [isNoneEvent, events, kReadEvent, kWriteEvent,
    kNoneEvent, EPOLLIN, EPOLLPRI, EPOLLOUT]

/-- A channel in the epoll set that keeps some interest keeps its index. -/
theorem Channel.update_of_added {c : Channel} (hi : c.index = .kAdded)
    (hn : c.isNoneEvent = false) : c.update = c := by
  obtain ⟨reading, writing, index⟩ := c
  subst hi
  simp [update, hn]

/-! ### The poller -/

inductive CtlOp where
  | EPOLL_CTL_ADD
  | EPOLL_CTL_MOD
  | EPOLL_CTL_DEL
  deriving DecidableEq, Repr

/-- A call of `epoll_ctl`, and whether it found its descriptor in the epoll set. -/
structure CtlCall where
  op : CtlOp
  fd : Int
  present : Bool
  deriving DecidableEq, Repr

/-- An addition of an absent descriptor, or a change of a present one. -/
def CtlCall.Proper (k : CtlCall) : Prop := k.present = true ↔ k.op ≠ .EPOLL_CTL_ADD

instance (k : CtlCall) : Decidable k.Proper := inferInstanceAs (Decidable (_ ↔ _))

structure Poller (ι : Type*) where
  /-- The channels of the loop; a channel that is not in use yet is new. -/
  channel : ι → Channel
  /-- `channels_`. -/
  channels : Int → Option ι
  /-- The epoll set of the kernel. -/
  epoll : Int → Option (BitVec 32)
  calls : List CtlCall

namespace Poller

variable {ι : Type*} [DecidableEq ι]

/-- A loop before its first channel is used. -/
def new : Poller ι := ⟨fun _ => {}, fun _ => none, fun _ => none, []⟩

def set (p : Poller ι) (c : ι) (ch : Channel) : Poller ι :=
  { p with channel := Function.update p.channel c ch }

def setIndex (p : Poller ι) (c : ι) (index : Index) : Poller ι :=
  p.set c { p.channel c with index }

/-- What `epoll_ctl` does to the epoll set when it succeeds. -/
def epollCtl (p : Poller ι) (op : CtlOp) (fd : Int) (events : BitVec 32) : Poller ι :=
  { p with
    epoll := Function.update p.epoll fd (if op = .EPOLL_CTL_DEL then none else some events) }

section Fd

variable (fd : ι → Int)

/-- `EPollPoller.cc:150–170`; the kernel refuses to add a present descriptor and to change an
absent one, and only a refused `EPOLL_CTL_DEL` is survived. -/
def update (p : Poller ι) (op : CtlOp) (c : ι) : Option (Poller ι) :=
  let call : CtlCall := ⟨op, fd c, (p.epoll (fd c)).isSome⟩
  let p := { p with calls := p.calls ++ [call] }
  if call.Proper then some (p.epollCtl op (fd c) (p.channel c).events)
  else if op = .EPOLL_CTL_DEL then some p else none

/-- `EPollPoller.cc:85–127`. -/
def updateChannel (p : Poller ι) (c : ι) : Option (Poller ι) :=
  match (p.channel c).index with
  | .kNew =>
    if p.channels (fd c) = none then
      update fd ({ p with channels := Function.update p.channels (fd c) (some c) }.setIndex c
        .kAdded) .EPOLL_CTL_ADD c
    else none
  | .kDeleted =>
    if p.channels (fd c) = some c then update fd (p.setIndex c .kAdded) .EPOLL_CTL_ADD c
    else none
  | .kAdded =>
    if p.channels (fd c) = some c then
      if (p.channel c).isNoneEvent then
        (update fd p .EPOLL_CTL_DEL c).map fun p => p.setIndex c .kDeleted
      else update fd p .EPOLL_CTL_MOD c
    else none

/-- `EPollPoller.cc:129–148`. -/
def removeChannel (p : Poller ι) (c : ι) : Option (Poller ι) :=
  if p.channels (fd c) = some c ∧ (p.channel c).isNoneEvent = true ∧
      (p.channel c).index ≠ .kNew then
    let q := { p with channels := Function.update p.channels (fd c) none }
    (if (p.channel c).index = .kAdded then update fd q .EPOLL_CTL_DEL c else some q).map
      fun p => p.setIndex c .kNew
  else none

end Fd

/-- A call on one of the channels. -/
inductive Event (ι : Type*) where
  | interest (c : ι) (k : InterestCall)
  | remove (c : ι)
  deriving DecidableEq

/-- `Channel.h:51–55` and `Channel.cc:43–54`. -/
def step (fd : ι → Int) (p : Poller ι) : Event ι → Option (Poller ι)
  | .interest c k => updateChannel fd (p.set c (k.apply (p.channel c))) c
  | .remove c => if (p.channel c).isNoneEvent then removeChannel fd p c else none

/-! ### What the poller should keep -/

/-- The map and the epoll set say what the channels say. -/
structure Mirrors (fd : ι → Int) (p : Poller ι) : Prop where
  channels : ∀ c, p.channels (fd c) = some c ↔ (p.channel c).index ≠ .kNew
  epoll : ∀ c, p.epoll (fd c) =
    if (p.channel c).events = kNoneEvent then none else some (p.channel c).events
  calls : ∀ k ∈ p.calls, k.Proper

/-- The call leaves the channel some interest or takes its last one away, and a channel is
removed without interest after it was used. -/
def Event.Orderly (p : Poller ι) : Event ι → Prop
  | .interest c k => (k.apply (p.channel c)).isNoneEvent = true →
    (p.channel c).isNoneEvent = false
  | .remove c => (p.channel c).isNoneEvent = true ∧ (p.channel c).index ≠ .kNew

instance (p : Poller ι) : (e : Event ι) → Decidable (e.Orderly p)
  | .interest _ _ => inferInstanceAs (Decidable (_ → _))
  | .remove _ => inferInstanceAs (Decidable (_ ∧ _))

/-- What the map and the epoll set hold for a channel. -/
structure Slot (c : ι) (ch : Channel) (entry : Option ι) (mask : Option (BitVec 32)) : Prop where
  entry : entry = if ch.index = .kNew then none else some c
  mask : mask = if ch.isNoneEvent then none else some ch.events
  added : ch.index = .kAdded ↔ ch.isNoneEvent = false

/-- The invariant of the orderly runs. -/
structure Inv (fd : ι → Int) (p : Poller ι) : Prop where
  slot : ∀ c, Slot c (p.channel c) (p.channels (fd c)) (p.epoll (fd c))
  calls : ∀ k ∈ p.calls, k.Proper

variable {fd : ι → Int} {p p' : Poller ι}

omit [DecidableEq ι] in
/-- No channel is known. -/
theorem inv_new : Inv fd (new : Poller ι) :=
  ⟨fun _ => ⟨rfl, rfl, by simp [new, Channel.isNoneEvent]⟩, nofun⟩

omit [DecidableEq ι] in
private theorem Inv.mirrors (h : Inv fd p) : Mirrors fd p := by
  refine ⟨fun c => ?_, fun c => ?_, h.calls⟩
  · rw [(h.slot c).entry]
    split <;> simp_all
  · rw [(h.slot c).mask]
    simp only [Channel.isNoneEvent_iff]

/-- The state after a call on one channel: the channel, its entry in the map and in the epoll
set, and the call of `epoll_ctl` made for it. -/
def put (fd : ι → Int) (p : Poller ι) (c : ι) (ch : Channel) (entry : Option ι)
    (mask : Option (BitVec 32)) (calls : List CtlCall) : Poller ι :=
  ⟨Function.update p.channel c ch, Function.update p.channels (fd c) entry,
    Function.update p.epoll (fd c) mask, p.calls ++ calls⟩

/-- Descriptors are distinct, so a call on one channel leaves the others their slots. -/
theorem Inv.put (hfd : Function.Injective fd) (h : Inv fd p) {c : ι} {ch : Channel}
    {entry : Option ι} {mask : Option (BitVec 32)} {calls : List CtlCall}
    (hs : Slot c ch entry mask) (hc : ∀ k ∈ calls, k.Proper) :
    Inv fd (p.put fd c ch entry mask calls) := by
  refine ⟨fun d => ?_, fun k hk => ?_⟩
  · by_cases hd : d = c
    · subst hd
      simpa [Poller.put] using hs
    · simpa [Poller.put, hd, hfd.ne hd] using h.slot d
  · rcases List.mem_append.mp hk with hk | hk
    · exact h.calls k hk
    · exact hc k hk

/-- A channel in the epoll set is changed there, or taken out with its last interest. -/
theorem step_interest_added (h : Inv fd p) {c : ι} (k : InterestCall)
    (hi : (p.channel c).index = .kAdded) :
    ∃ op ≠ CtlOp.EPOLL_CTL_ADD, step fd p (.interest c k) =
      some (p.put fd c (k.call (p.channel c)) (some c)
        (if (k.apply (p.channel c)).isNoneEvent then none else some (k.apply (p.channel c)).events)
        [⟨op, fd c, true⟩]) := by
  obtain ⟨hentry, hmask, hadded⟩ := h.slot c
  rw [hi, if_neg nofun] at hentry
  rw [hadded.mp hi, if_neg nofun] at hmask
  cases hn : (k.apply (p.channel c)).isNoneEvent
  · refine ⟨.EPOLL_CTL_MOD, nofun, ?_⟩
    rw [InterestCall.call_eq, Channel.update_of_added (by simp [hi]) hn]
    simp [step, updateChannel, update, set, epollCtl, Poller.put, CtlCall.Proper, hi, hentry,
      hmask, hn]
  · refine ⟨.EPOLL_CTL_DEL, nofun, ?_⟩
    simp [step, updateChannel, update, set, setIndex, epollCtl, Poller.put, InterestCall.call_eq,
      Channel.update, CtlCall.Proper, hi, hentry, hmask, hn]

/-- A channel outside the epoll set is added whatever its interest. -/
theorem step_interest_absent (h : Inv fd p) {c : ι} (k : InterestCall)
    (hi : (p.channel c).index ≠ .kAdded) :
    step fd p (.interest c k) =
      some (p.put fd c (k.call (p.channel c)) (some c) (some (k.apply (p.channel c)).events)
        [⟨.EPOLL_CTL_ADD, fd c, false⟩]) := by
  obtain ⟨hentry, hmask, hadded⟩ := h.slot c
  have hn : (p.channel c).isNoneEvent = true := by simpa using mt hadded.mpr hi
  rw [hn, if_pos rfl] at hmask
  cases hx : (p.channel c).index with
  | kAdded => exact absurd hx hi
  | kNew =>
    rw [hx, if_pos rfl] at hentry
    simp [step, updateChannel, update, set, setIndex, epollCtl, Poller.put, InterestCall.call_eq,
      Channel.update, CtlCall.Proper, Channel.events, hx, hentry, hmask]
  | kDeleted =>
    rw [hx, if_neg nofun] at hentry
    simp [step, updateChannel, update, set, setIndex, epollCtl, Poller.put, InterestCall.call_eq,
      Channel.update, CtlCall.Proper, Channel.events, hx, hentry, hmask]

/-- A channel without interest that has been used is in the map only. -/
theorem step_remove (h : Inv fd p) {c : ι} (hn : (p.channel c).isNoneEvent = true)
    (hi : (p.channel c).index ≠ .kNew) :
    step fd p (.remove c) = some (p.put fd c { p.channel c with index := .kNew } none none []) := by
  obtain ⟨hentry, hmask, hadded⟩ := h.slot c
  rw [if_neg hi] at hentry
  rw [hn, if_pos rfl] at hmask
  have hx : (p.channel c).index ≠ .kAdded := by simp [hadded, hn]
  simp [step, removeChannel, hentry, hn, hi, hx, setIndex, set, Poller.put, hmask]

omit [DecidableEq ι] in
private theorem slot_of_interest {c : ι} {ch : Channel} (hi : ch.index = .kAdded)
    (hn : ch.isNoneEvent = false) : Slot c ch (some c) (some ch.events) :=
  ⟨by simp [hi], by simp [hn], by simp [hi, hn]⟩

omit [DecidableEq ι] in
private theorem slot_of_none {c : ι} {ch : Channel} (hi : ch.index ≠ .kAdded)
    (hn : ch.isNoneEvent = true) : Slot c ch (if ch.index = .kNew then none else some c) none :=
  ⟨rfl, by simp [hn], by simp [hi, hn]⟩

/-- An orderly call does not fail and keeps the invariant. -/
theorem Inv.step (hfd : Function.Injective fd) (h : Inv fd p) {e : Event ι} (he : e.Orderly p) :
    ∃ p', Poller.step fd p e = some p' ∧ Inv fd p' := by
  cases e with
  | interest c k =>
    by_cases hi : (p.channel c).index = .kAdded
    · obtain ⟨op, hop, hs⟩ := step_interest_added h k hi
      refine ⟨_, hs, h.put hfd ?_ (by simpa [CtlCall.Proper] using hop)⟩
      have hi' : (k.apply (p.channel c)).index = .kAdded := by rw [k.apply_index, hi]
      rw [k.call_eq]
      cases hn : (k.apply (p.channel c)).isNoneEvent
      · rw [Channel.update_of_added hi' hn]
        exact slot_of_interest hi' hn
      · have hu : (k.apply (p.channel c)).update.index = .kDeleted := by
          simp [Channel.update, hi, hn]
        have hadded : (k.apply (p.channel c)).update.index ≠ .kAdded := by simp [hu]
        have hslot := slot_of_none (c := c) hadded hn
        rwa [hu, if_neg nofun] at hslot
    · refine ⟨_, step_interest_absent h k hi, h.put hfd ?_ (by simp [CtlCall.Proper])⟩
      have hn : (k.apply (p.channel c)).isNoneEvent = false := by
        by_contra hn
        exact hi ((h.slot c).added.mpr (he (by simpa using hn)))
      have hu : (k.apply (p.channel c)).update.index = .kAdded := by
        cases hx : (p.channel c).index <;> simp_all [Channel.update]
      rw [k.call_eq]
      exact slot_of_interest hu hn
  | remove c =>
    exact ⟨_, step_remove h he.1 he.2, h.put hfd (slot_of_none nofun he.1) nofun⟩

/-- A call that does not fail and leaves the map and the epoll set right is orderly. -/
theorem Inv.orderly (h : Inv fd p) {e : Event ι} (hs : Poller.step fd p e = some p')
    (hm : Mirrors fd p') : e.Orderly p := by
  cases e with
  | interest c k =>
    intro hn
    by_contra hi
    rw [← (h.slot c).added] at hi
    -- the channel has been added with an empty mask
    obtain rfl := Option.some.inj ((step_interest_absent h k hi).symm.trans hs)
    have hmask := hm.epoll c
    have hev : (k.call (p.channel c)).events = (k.apply (p.channel c)).events := by
      rw [k.call_eq]; rfl
    simp [Poller.put, hev, (Channel.isNoneEvent_iff _).mp hn] at hmask
  | remove c =>
    simp only [Poller.step, removeChannel] at hs
    split at hs
    · next hn =>
      refine ⟨hn, ?_⟩
      split at hs
      · next hr => exact hr.2.2
      · cases hs
    · cases hs

/-- Along every sequence of calls on any channels with distinct descriptors, no assertion fails and
the map `channels_` and the epoll set mirror the channels after every call, exactly when every
call is orderly: none leaves a channel without interest that had none before, and none removes a
channel that has interest or that has not been used since it was new. -/
theorem poller_mirrors_iff (hfd : Function.Injective fd) (events : List (Event ι)) :
    Legal (step fd) (fun p e => ∃ p', step fd p e = some p' ∧ Mirrors fd p') new events ↔
      Legal (step fd) (fun p e => e.Orderly p) new events := by
  refine legal_outcome_iff (Inv fd) (fun p e h he => ?_) (fun p e p' h hs hm => h.orderly hs hm)
    events inv_new
  obtain ⟨p', hs, hi⟩ := h.step hfd he
  exact ⟨p', hs, hi, hi.mirrors⟩

/-- A new channel is told not to read, and is in the epoll set from then on. -/
theorem poller_adds_idle_channel :
    ∃ p, run (step fun fd : Int => fd) new [.interest 5 .disableReading] = some p ∧
      (p.channel 5).events = kNoneEvent ∧ p.epoll 5 = some kNoneEvent ∧
      ¬ Legal (step fun fd : Int => fd)
        (fun p e => ∃ p', step (fun fd : Int => fd) p e = some p' ∧ Mirrors (fun fd => fd) p') new
        [.interest 5 .disableReading] := by
  refine ⟨_, rfl, rfl, rfl, fun h => ?_⟩
  obtain ⟨p', hs, hm⟩ := h.1
  have hmask := Option.some.inj hs ▸ hm.epoll 5
  cases hmask

/-- A connection is established, waits to write, has written, and is closed and removed; a second
one is established between. -/
theorem poller_mirrors_two :
    Legal (step fun fd : Int => fd)
      (fun p e => ∃ p', step (fun fd : Int => fd) p e = some p' ∧ Mirrors (fun fd => fd) p') new
      [.interest 5 .enableReading, .interest 6 .enableReading, .interest 5 .enableWriting,
        .interest 5 .disableWriting, .interest 5 .disableAll, .remove 5] :=
  (poller_mirrors_iff (fun _ _ h => h) _).mpr (by decide)

end Poller

end IMServer.Reactor
