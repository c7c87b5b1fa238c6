import IMServer.Base.Run
import IMServer.Reactor.Connection
import Mathlib.Data.Multiset.Range

/-!
# The connector of a client

`client/src/Connector.cc`. A connector creates a socket, waits for its channel to become writable,
and passes it on or closes it; after a failure it tries again when a timer fires. Sockets are
numbered in the order of their creation. The results of `connect`, `getSocketError` and
`isSelfConnect` are arguments. A function is `none` when one of the source's assertions fails or
a null pointer is used; assertions on the loop's thread are left out.

The life cycle is kept along a run exactly when `startInLoop` is called only on a disconnected
connector whose channel has been reset, and `restart` not while connecting.
-/

namespace IMServer.Client

open IMServer.Base IMServer.Reactor

/-! ### The connector -/

/-- `Connector.h:35`. -/
inductive States where
  | kDisconnected
  | kConnecting
  | kConnected
  deriving DecidableEq, Repr

/-- The result of `connect`: zero, or the values of `errno` that the source distinguishes. -/
inductive ConnectResult where
  | ok
  | EINPROGRESS
  | EINTR
  | EISCONN
  | EAGAIN
  | EADDRINUSE
  | EADDRNOTAVAIL
  | ECONNREFUSED
  | ENETUNREACH
  | EACCES
  | EPERM
  | EAFNOSUPPORT
  | EALREADY
  | EBADF
  | EFAULT
  | ENOTSOCK
  | other
  deriving DecidableEq, Repr

/-- What the connector queues in its loop. -/
inductive ConnectorFunctor where
  | startInLoop
  | stopInLoop
  | resetChannel
  deriving DecidableEq, Repr

/-- `Connector.h:36`. -/
def kMaxRetryDelayMs : Nat := 30 * 1000

/-- `Connector.h:37`. -/
def kInitRetryDelayMs : Nat := 500

/-- `channel_` with its descriptor. -/
structure SocketChannel where
  fd : Nat
  channel : Channel
  deriving DecidableEq, Repr

/-- `Connector.h:50–56`, what the connector has queued in its loop, and its sockets. -/
structure Connector where
  connect_ : Bool
  state : States
  channel : Option SocketChannel
  retryDelayMs : Nat
  /-- What is queued in the loop, oldest first. -/
  pending : List ConnectorFunctor
  /-- The delays of the retry timers that have not fired. -/
  timers : List Nat
  /-- The number of sockets created. -/
  created : Nat
  /-- The sockets given to `newConnectionCallback_`. -/
  passed : List Nat
  closed : List Nat
  deriving DecidableEq, Repr

/-- What happens to a connector. -/
inductive ConnectorEvent where
  /-- `inLoop` says whether the loop's thread calls `start`. -/
  | start (inLoop : Bool) (k : ConnectResult)
  | stop
  | restart (k : ConnectResult)
  /-- The loop calls the functor that was queued first. -/
  | functor (k : ConnectResult)
  /-- A retry timer fires. -/
  | timer (i : Nat) (k : ConnectResult)
  /-- The poller reports `EPOLLERR` or `EPOLLOUT` or both; `err` is the value of `SO_ERROR`. -/
  | channel (error write : Bool) (err : Nat) (selfConnect : Bool)
  deriving DecidableEq, Repr

namespace Connector

/-- `Connector.cc:15–23`. -/
def new : Connector where
  connect_ := false
  state := .kDisconnected
  channel := none
  retryDelayMs := kInitRetryDelayMs
  pending := []
  timers := []
  created := 0
  passed := []
  closed := []

def queueInLoop (s : Connector) (f : ConnectorFunctor) : Connector :=
  { s with pending := s.pending ++ [f] }

def close (s : Connector) (sockfd : Nat) : Connector := { s with closed := s.closed ++ [sockfd] }

/-- `Connector.cc:200–216`. -/
def retry (s : Connector) (sockfd : Nat) : Connector :=
  if s.connect_ then
    { s.close sockfd with
      state := .kDisconnected
      timers := s.timers ++ [s.retryDelayMs]
      retryDelayMs := min (s.retryDelayMs * 2) kMaxRetryDelayMs }
  else { s.close sockfd with state := .kDisconnected }

/-- `Connector.cc:119–132`. -/
def connecting (s : Connector) (sockfd : Nat) : Option Connector :=
  if s.channel.isSome then none
  else some { s with state := .kConnecting, channel := some ⟨sockfd, ({} : Channel).enableWriting⟩ }

/-- `Connector.cc:69–108`. -/
def connect (s : Connector) (k : ConnectResult) : Option Connector :=
  let sockfd := s.created
  let s := { s with created := s.created + 1 }
  match k with
  | .ok | .EINPROGRESS | .EINTR | .EISCONN => s.connecting sockfd
  | .EAGAIN | .EADDRINUSE | .EADDRNOTAVAIL | .ECONNREFUSED | .ENETUNREACH => some (s.retry sockfd)
  | .EACCES | .EPERM | .EAFNOSUPPORT | .EALREADY | .EBADF | .EFAULT | .ENOTSOCK | .other =>
    some (s.close sockfd)

/-- `Connector.cc:37–49`. -/
def startInLoop (s : Connector) (k : ConnectResult) : Option Connector :=
  if s.state = .kDisconnected then if s.connect_ then s.connect k else some s else none

/-- `Connector.cc:31–35`. -/
def start (s : Connector) (inLoop : Bool) (k : ConnectResult) : Option Connector :=
  let s := { s with connect_ := true }
  if inLoop then s.startInLoop k else some (s.queueInLoop .startInLoop)

/-- `Connector.cc:51–56`. -/
def stop (s : Connector) : Connector := { s with connect_ := false }.queueInLoop .stopInLoop

/-- `Connector.cc:110–117`. -/
def restart (s : Connector) (k : ConnectResult) : Option Connector :=
  { s with
    state := .kDisconnected
    retryDelayMs := kInitRetryDelayMs
    connect_ := true }.startInLoop k

/-- `Connector.cc:134–142`. -/
def removeAndResetChannel (s : Connector) : Option (Connector × Nat) := do
  let c ← s.channel
  let channel ← c.channel.disableAll.remove
  some ({ s with channel := some { c with channel } }.queueInLoop .resetChannel, c.fd)

/-- `Connector.cc:144–147`; the destructor of a channel asserts that it has been removed,
`Channel.cc:27–35`. -/
def resetChannel (s : Connector) : Option Connector :=
  if s.channel.all (·.channel.index = .kNew) then some { s with channel := none } else none

/-- `Connector.cc:58–67`. -/
def stopInLoop (s : Connector) : Option Connector :=
  if s.state = .kConnecting then do
    let (s, sockfd) ← { s with state := .kDisconnected }.removeAndResetChannel
    some (s.retry sockfd)
  else some s

/-- `Connector.cc:149–186`. -/
def handleWrite (s : Connector) (err : Nat) (selfConnect : Bool) : Option Connector :=
  if s.state = .kConnecting then do
    let (s, sockfd) ← s.removeAndResetChannel
    if err ≠ 0 then some (s.retry sockfd)
    else if selfConnect then some (s.retry sockfd)
    else
      let s := { s with state := .kConnected }
      if s.connect_ then some { s with passed := s.passed ++ [sockfd] } else some (s.close sockfd)
  else if s.state = .kDisconnected then some s else none

/-- `Connector.cc:188–198`. -/
def handleError (s : Connector) : Option Connector :=
  if s.state = .kConnecting then do
    let (s, sockfd) ← s.removeAndResetChannel
    some (s.retry sockfd)
  else some s

/-- The poller watches the channel. -/
def polled (s : Connector) : Bool := s.channel.any (·.channel.index = .kAdded)

/-- `Channel::handleEvent` with the two callbacks that are set; `Channel.cc:73–105`. -/
def handleEvent (s : Connector) (error write : Bool) (err : Nat) (selfConnect : Bool) :
    Option Connector :=
  (if error then s.handleError else some s).bind fun s =>
    if write then s.handleWrite err selfConnect else some s

def call (s : Connector) (k : ConnectResult) : ConnectorFunctor → Option Connector
  | .startInLoop => s.startInLoop k
  | .stopInLoop => s.stopInLoop
  | .resetChannel => s.resetChannel

/-- An event that cannot happen leaves everything as it is. -/
def step (s : Connector) : ConnectorEvent → Option Connector
  | .start inLoop k => s.start inLoop k
  | .stop => some s.stop
  | .restart k => s.restart k
  | .functor k =>
    match s.pending with
    | [] => some s
    | f :: pending => { s with pending }.call k f
  | .timer i k =>
    if i < s.timers.length then { s with timers := s.timers.eraseIdx i }.startInLoop k else some s
  | .channel error write err selfConnect =>
    if s.polled then s.handleEvent error write err selfConnect else some s

/-! ### The life cycle -/

/-- The socket that is being connected. -/
def inProgress (s : Connector) : List Nat :=
  if s.state = .kConnecting then (s.channel.map (·.fd)).toList else []

/-- Every socket created was passed on once, was closed once, or is the one being connected. -/
def Accounted (s : Connector) : Prop :=
  (s.passed ++ s.closed ++ s.inProgress : Multiset Nat) = Multiset.range s.created

end Connector

/-- The connection is established or being established. -/
def ConnectResult.Proceeds : ConnectResult → Prop
  | .ok | .EINPROGRESS | .EINTR | .EISCONN => True
  | _ => False

instance : (k : ConnectResult) → Decidable k.Proceeds
  | .ok | .EINPROGRESS | .EINTR | .EISCONN => .isTrue trivial
  | .EAGAIN | .EADDRINUSE | .EADDRNOTAVAIL | .ECONNREFUSED | .ENETUNREACH
  | .EACCES | .EPERM | .EAFNOSUPPORT | .EALREADY | .EBADF | .EFAULT | .ENOTSOCK | .other =>
    .isFalse id

namespace Connector

/-- `startInLoop` finds the connector connecting or connected, or its old channel not yet
reset. -/
def Untimely (s : Connector) (k : ConnectResult) : Prop :=
  s.state ≠ .kDisconnected ∨ s.connect_ = true ∧ k.Proceeds ∧ s.channel.isSome

/-- An untimely `startInLoop`, or a `restart` while connecting. -/
def Faulty (s : Connector) : ConnectorEvent → Prop
  | .start inLoop k => inLoop = true ∧ { s with connect_ := true }.Untimely k
  | .restart k => s.state = .kConnecting ∨ k.Proceeds ∧ s.channel.isSome
  | .functor k => s.pending.head? = some .startInLoop ∧ s.Untimely k
  | .timer i k => i < s.timers.length ∧ s.Untimely k
  | .stop | .channel _ _ _ _ => False

/-- Where the channel is: watched by the poller, removed from it and to be reset by a queued
functor, or reset. -/
inductive Tracked (s : Connector) : Prop where
  | watched (fd : Nat) (hs : s.state = .kConnecting)
      (hc : s.channel = some ⟨fd, ({} : Channel).enableWriting⟩)
      (hp : s.pending.count .resetChannel = 0)
  | removed (fd : Nat) (hs : s.state ≠ .kConnecting) (hc : s.channel = some ⟨fd, {}⟩)
      (hp : s.pending.count .resetChannel = 1)
  | gone (hs : s.state ≠ .kConnecting) (hc : s.channel = none)
      (hp : s.pending.count .resetChannel = 0)

structure Inv (s : Connector) : Prop where
  accounted : s.Accounted
  tracked : s.Tracked

variable {s s' : Connector} {k : ConnectResult} {fd : Nat}

private theorem inv_new : new.Inv := ⟨rfl, .gone nofun rfl rfl⟩

/-- Neither the flag, nor the timers, nor functors of other kinds matter. -/
theorem Inv.congr (h : s.Inv) (hstate : s'.state = s.state) (hchannel : s'.channel = s.channel)
    (hpending : s'.pending.count .resetChannel = s.pending.count .resetChannel)
    (hcreated : s'.created = s.created) (hpassed : s'.passed = s.passed)
    (hclosed : s'.closed = s.closed) : s'.Inv := by
  refine ⟨?_, ?_⟩
  · have ha := h.accounted
    rw [Accounted, inProgress] at ha ⊢
    rw [hstate, hchannel, hcreated, hpassed, hclosed]
    exact ha
  · cases h.tracked with
    | watched fd hs hc hp =>
      exact .watched fd (hstate.trans hs) (hchannel.trans hc) (hpending.trans hp)
    | removed fd hs hc hp =>
      exact .removed fd (hstate ▸ hs) (hchannel.trans hc) (hpending.trans hp)
    | gone hs hc hp => exact .gone (hstate ▸ hs) (hchannel.trans hc) (hpending.trans hp)

private theorem inProgress_eq_nil (h : s.state ≠ .kConnecting) : s.inProgress = [] := if_neg h

private theorem inProgress_eq
    (hs : s.state = .kConnecting) {c : SocketChannel} (hc : s.channel = some c) :
    s.inProgress = [c.fd] := by
  rw [inProgress, if_pos hs, hc]
  rfl

/-- The socket that was being connected has been passed on or closed. -/
theorem Inv.settle (h : s.Inv) (hs : s.state = .kConnecting)
    (hc : s.channel = some ⟨fd, ({} : Channel).enableWriting⟩) (hs' : s'.state ≠ .kConnecting)
    (hc' : s'.channel = some ⟨fd, {}⟩) (hp' : s'.pending = s.pending ++ [.resetChannel])
    (hcreated : s'.created = s.created)
    (hsockets : (s'.passed ++ s'.closed).Perm (s.passed ++ s.closed ++ [fd])) : s'.Inv := by
  refine ⟨?_, .removed fd hs' hc' ?_⟩
  · have ha := h.accounted
    rw [Accounted, inProgress_eq hs hc] at ha
    rw [Accounted, inProgress_eq_nil hs', hcreated, ← ha, List.append_nil]
    exact Multiset.coe_eq_coe.mpr hsockets
  · cases h.tracked with
    | watched _ _ _ hp => rw [hp', List.count_append, hp]; rfl
    | removed _ hn => exact absurd hs hn
    | gone hn => exact absurd hs hn

private theorem removeAndResetChannel_eq
    (hc : s.channel = some ⟨fd, ({} : Channel).enableWriting⟩) :
    s.removeAndResetChannel =
      some ({ s with channel := some ⟨fd, {}⟩ }.queueInLoop .resetChannel, fd) := by
  rw [removeAndResetChannel, hc]
  rfl

/-- `retry` closes the socket and may set a timer. -/
theorem retry_eq (s : Connector) (sockfd : Nat) : ∃ timers retryDelayMs, s.retry sockfd =
    { s.close sockfd with state := .kDisconnected, timers, retryDelayMs } := by
  unfold retry
  split
  · exact ⟨_, _, rfl⟩
  · exact ⟨_, _, rfl⟩

/-- The channel is removed and its socket closed. -/
theorem Inv.settle_retry (h : s.Inv) (hs : s.state = .kConnecting)
    (hc : s.channel = some ⟨fd, ({} : Channel).enableWriting⟩) (state : States) :
    (retry { s with state, channel := some ⟨fd, {}⟩, pending := s.pending ++ [.resetChannel] }
      fd).Inv := by
  obtain ⟨timers, retryDelayMs, heq⟩ := retry_eq
    { s with state, channel := some ⟨fd, {}⟩, pending := s.pending ++ [.resetChannel] } fd
  rw [heq]
  refine h.settle hs hc nofun rfl rfl rfl ?_
  rw [List.append_assoc]
  exact .refl _

private theorem Inv.watched (h : s.Inv) (hs : s.state = .kConnecting) :
    ∃ fd, s.channel = some ⟨fd, ({} : Channel).enableWriting⟩ := by
  cases h.tracked with
  | watched fd _ hc => exact ⟨fd, hc⟩
  | removed _ hn => exact absurd hs hn
  | gone hn => exact absurd hs hn

private theorem Inv.handleError (h : s.Inv) :
    ∃ s', s.handleError = some s' ∧ s'.Inv ∧
      (s.state = .kConnecting → s'.state = .kDisconnected) := by
  unfold Connector.handleError
  split
  · next hs =>
    obtain ⟨fd, hc⟩ := h.watched hs
    rw [removeAndResetChannel_eq hc]
    refine ⟨_, rfl, h.settle_retry hs hc s.state, fun _ => ?_⟩
    obtain ⟨timers, retryDelayMs, heq⟩ := retry_eq
      ({ s with channel := some ⟨fd, {}⟩ }.queueInLoop .resetChannel) fd
    rw [heq]
  · next hs => exact ⟨s, rfl, h, fun hc => absurd hc hs⟩

private theorem Inv.stopInLoop (h : s.Inv) : ∃ s', s.stopInLoop = some s' ∧ s'.Inv := by
  unfold Connector.stopInLoop
  split
  · next hs =>
    obtain ⟨fd, hc⟩ := h.watched hs
    rw [removeAndResetChannel_eq (s := { s with state := .kDisconnected }) hc]
    exact ⟨_, rfl, h.settle_retry hs hc .kDisconnected⟩
  · exact ⟨s, rfl, h⟩

private theorem Inv.handleWrite {err : Nat} {selfConnect : Bool} (h : s.Inv)
    (hs : s.state ≠ .kConnected) : ∃ s', s.handleWrite err selfConnect = some s' ∧ s'.Inv := by
  unfold Connector.handleWrite
  split
  · next hs =>
    obtain ⟨fd, hc⟩ := h.watched hs
    rw [removeAndResetChannel_eq hc]
    have hretry := h.settle_retry hs hc s.state
    simp only [Option.bind_eq_bind, Option.bind_some]
    split
    · exact ⟨_, rfl, hretry⟩
    split
    · exact ⟨_, rfl, hretry⟩
    split
    · refine ⟨_, rfl, h.settle hs hc nofun rfl rfl rfl ?_⟩
      rw [List.append_assoc, List.append_assoc]
      exact List.perm_append_comm.append_left _
    · refine ⟨_, rfl, h.settle hs hc nofun rfl rfl rfl ?_⟩
      rw [List.append_assoc]
      exact .refl _
  · next hn =>
    rw [if_pos]
    · exact ⟨s, rfl, h⟩
    · cases hstate : s.state with
      | kDisconnected => rfl
      | kConnecting => exact absurd hstate hn
      | kConnected => exact absurd hstate hs

/-- A channel that the poller watches belongs to a socket that is being connected. -/
theorem Inv.state_of_polled (h : s.Inv) (hp : s.polled = true) : s.state = .kConnecting := by
  cases h.tracked with
  | watched _ hs => exact hs
  | removed fd hs hc => simp [polled, hc] at hp
  | gone hs hc => simp [polled, hc] at hp

private theorem Inv.handleEvent {error write : Bool} {err : Nat} {selfConnect : Bool} (h : s.Inv)
    (hp : s.polled = true) :
    ∃ s', s.handleEvent error write err selfConnect = some s' ∧ s'.Inv := by
  have hs := h.state_of_polled hp
  have herror : ∃ s₁, (if error then s.handleError else some s) = some s₁ ∧ s₁.Inv ∧
      s₁.state ≠ .kConnected := by
    split
    · obtain ⟨s₁, h₁, hinv, hd⟩ := h.handleError
      exact ⟨s₁, h₁, hinv, by rw [hd hs]; nofun⟩
    · exact ⟨s, rfl, h, by rw [hs]; nofun⟩
  obtain ⟨s₁, h₁, hinv, hn⟩ := herror
  rw [Connector.handleEvent, h₁, Option.bind_some]
  split
  · exact hinv.handleWrite hn
  · exact ⟨s₁, rfl, hinv⟩

private theorem Inv.resetChannel (h : s.Inv) {pending : List ConnectorFunctor}
    (hp : s.pending = .resetChannel :: pending) :
    ∃ s', ({ s with pending } : Connector).resetChannel = some s' ∧ s'.Inv := by
  cases h.tracked with
  | watched fd hs hc hcount => simp [hp] at hcount
  | gone hs hc hcount => simp [hp] at hcount
  | removed fd hs hc hcount =>
    refine ⟨_, if_pos (by simp [hc]), ?_, .gone hs rfl (by simpa [hp] using hcount)⟩
    have ha := h.accounted
    rw [Accounted, inProgress_eq_nil hs] at ha
    rw [Accounted, inProgress_eq_nil (s := { s with pending, channel := none }) hs]
    exact ha

/-! ### Starting -/

/-- A new socket that is closed at once. -/
theorem Inv.open_close (h : s.Inv) (hs : s.state ≠ .kConnecting)
    (hs' : s'.state ≠ .kConnecting) (hc : s'.channel = s.channel)
    (hp : s'.pending = s.pending) (hcreated : s'.created = s.created + 1)
    (hpassed : s'.passed = s.passed) (hclosed : s'.closed = s.closed ++ [s.created]) :
    s'.Inv := by
  refine ⟨?_, ?_⟩
  · have ha := h.accounted
    rw [Accounted, inProgress_eq_nil hs, List.append_nil] at ha
    rw [Accounted, inProgress_eq_nil hs', hcreated, hpassed, hclosed, Multiset.range_succ, ← ha,
      List.append_nil, ← List.append_assoc]
    exact Multiset.coe_eq_coe.mpr (List.perm_append_singleton _ _)
  · cases h.tracked with
    | watched _ hn => exact absurd hn hs
    | removed fd _ hc' hp' => exact .removed fd hs' (hc.trans hc') (hp ▸ hp')
    | gone _ hc' hp' => exact .gone hs' (hc.trans hc') (hp ▸ hp')

/-- A new socket that is being connected. -/
theorem Inv.open_watch (h : s.Inv) (hs : s.state ≠ .kConnecting) (hc : s.channel = none) :
    ({ s with
      created := s.created + 1
      state := .kConnecting
      channel := some ⟨s.created, ({} : Channel).enableWriting⟩ } : Connector).Inv := by
  refine ⟨?_, ?_⟩
  · have ha := h.accounted
    rw [Accounted, inProgress_eq_nil hs, List.append_nil] at ha
    rw [Accounted, inProgress_eq rfl rfl, Multiset.range_succ, ← ha]
    exact Multiset.coe_eq_coe.mpr (List.perm_append_singleton _ _)
  · cases h.tracked with
    | watched _ hn => exact absurd hn hs
    | removed fd _ hc' => cases hc.symm.trans hc'
    | gone _ _ hp => exact .watched s.created rfl rfl hp

private theorem connect_of_proceeds (hk : k.Proceeds) :
    s.connect k = ({ s with created := s.created + 1 } : Connector).connecting s.created := by
  cases k <;> first | rfl | exact hk.elim

private theorem connect_of_not_proceeds (hk : ¬ k.Proceeds) :
    s.connect k = some (retry { s with created := s.created + 1 } s.created) ∨
      s.connect k = some (close { s with created := s.created + 1 } s.created) := by
  cases k <;> first | exact absurd trivial hk | exact .inl rfl | exact .inr rfl

private theorem Inv.connect (h : s.Inv) (hs : s.state = .kDisconnected)
    (hc : k.Proceeds → s.channel = none) : ∃ s', s.connect k = some s' ∧ s'.Inv := by
  have hn : s.state ≠ .kConnecting := by rw [hs]; nofun
  by_cases hk : k.Proceeds
  · rw [connect_of_proceeds hk, connecting, if_neg (by simp [hc hk])]
    exact ⟨_, rfl, h.open_watch hn (hc hk)⟩
  · rcases connect_of_not_proceeds (s := s) hk with heq | heq
    · rw [heq]
      obtain ⟨timers, retryDelayMs, hretry⟩ :=
        retry_eq { s with created := s.created + 1 } s.created
      rw [hretry]
      exact ⟨_, rfl, h.open_close hn nofun rfl rfl rfl rfl rfl⟩
    · rw [heq]
      exact ⟨_, rfl, h.open_close hn hn rfl rfl rfl rfl rfl⟩

private theorem Inv.startInLoop (h : s.Inv) (hk : ¬ s.Untimely k) :
    ∃ s', s.startInLoop k = some s' ∧ s'.Inv := by
  obtain ⟨hs, hc⟩ := not_or.mp hk
  rw [Connector.startInLoop, if_pos (not_not.mp hs)]
  split
  · next hconnect =>
    refine h.connect (not_not.mp hs) fun hp => ?_
    exact Option.not_isSome_iff_eq_none.mp fun hsome => hc ⟨hconnect, hp, hsome⟩
  · exact ⟨s, rfl, h⟩

/-- An untimely `startInLoop` fails one of the two assertions. -/
theorem startInLoop_of_untimely (hk : s.Untimely k) : s.startInLoop k = none := by
  unfold Connector.startInLoop
  split
  · next hs =>
    obtain ⟨hconnect, hp, hc⟩ := hk.resolve_left (not_not.mpr hs)
    rw [if_pos hconnect, connect_of_proceeds hp, connecting, if_pos hc]
  · rfl

private theorem Inv.restart (h : s.Inv) (hs : s.state ≠ .kConnecting)
    (hk : ¬ (k.Proceeds ∧ s.channel.isSome)) : ∃ s', s.restart k = some s' ∧ s'.Inv := by
  have hreset : ({ s with
      state := .kDisconnected
      retryDelayMs := kInitRetryDelayMs
      connect_ := true } : Connector).Inv := by
    refine ⟨?_, ?_⟩
    · have ha := h.accounted
      rw [Accounted, inProgress_eq_nil hs] at ha
      exact ha
    · cases h.tracked with
      | watched _ hn => exact absurd hn hs
      | removed fd _ hc hp => exact .removed fd nofun hc hp
      | gone _ hc hp => exact .gone nofun hc hp
  refine hreset.startInLoop ?_
  rintro (hn | ⟨-, hp, hc⟩)
  · exact hn rfl
  · exact hk ⟨hp, hc⟩

private theorem Accounted.length_eq (h : s.Accounted) :
    s.passed.length + s.closed.length + s.inProgress.length = s.created := by
  have hcard := congrArg Multiset.card h
  rwa [Multiset.coe_card, List.length_append, List.length_append, Multiset.card_range] at hcard

/-- A `restart` while connecting fails, or forgets the socket that was being connected. -/
theorem Inv.not_accounted_restart (h : s.Inv) (hs : s.state = .kConnecting)
    (hr : s.restart k = some s') : ¬ s'.Accounted := by
  obtain ⟨fd, hc⟩ := h.watched hs
  have hlen := h.accounted.length_eq
  rw [inProgress_eq hs hc, List.length_singleton] at hlen
  rw [Connector.restart, Connector.startInLoop, if_pos rfl, if_pos rfl] at hr
  intro ha
  by_cases hk : k.Proceeds
  · rw [connect_of_proceeds hk, connecting, if_pos (by simp [hc])] at hr
    cases hr
  · have hsockets : s'.passed = s.passed ∧ s'.closed = s.closed ++ [s.created] ∧
        s'.created = s.created + 1 ∧ s'.state = .kDisconnected := by
      rcases connect_of_not_proceeds hk with heq | heq <;> rw [heq] at hr <;> cases hr
      · exact ⟨rfl, rfl, rfl, rfl⟩
      · exact ⟨rfl, rfl, rfl, rfl⟩
    obtain ⟨hpassed, hclosed, hcreated, hstate⟩ := hsockets
    have hlen' := ha.length_eq
    rw [inProgress_eq_nil (by rw [hstate]; nofun), hpassed, hclosed, hcreated,
      List.length_append, List.length_singleton, List.length_nil] at hlen'
    omega

private theorem Inv.functor (h : s.Inv) (hk : ¬ s.Faulty (.functor k)) :
    ∃ s', s.step (.functor k) = some s' ∧ s'.Inv := by
  rw [step]
  split
  · exact ⟨s, rfl, h⟩
  · next f pending hp =>
    cases f with
    | startInLoop =>
      refine (h.congr rfl rfl ?_ rfl rfl rfl : ({ s with pending } : Connector).Inv).startInLoop
        fun hu => hk ⟨by rw [hp]; rfl, hu⟩
      rw [hp]
      rfl
    | stopInLoop =>
      refine (h.congr rfl rfl ?_ rfl rfl rfl : ({ s with pending } : Connector).Inv).stopInLoop
      rw [hp]
      rfl
    | resetChannel => exact h.resetChannel hp

private theorem Inv.step {e : ConnectorEvent} (h : s.Inv) (he : ¬ s.Faulty e) :
    ∃ s', s.step e = some s' ∧ s'.Inv := by
  cases e with
  | start inLoop k =>
    have hstart : ({ s with connect_ := true } : Connector).Inv := h.congr rfl rfl rfl rfl rfl rfl
    rw [Connector.step, Connector.start]
    split
    · next hin => exact hstart.startInLoop fun hu => he ⟨hin, hu⟩
    · refine ⟨_, rfl, h.congr rfl rfl ?_ rfl rfl rfl⟩
      simp [queueInLoop]
  | stop =>
    refine ⟨_, rfl, h.congr rfl rfl ?_ rfl rfl rfl⟩
    simp [Connector.stop, queueInLoop]
  | restart k =>
    obtain ⟨hs, hk⟩ := not_or.mp he
    exact h.restart hs hk
  | functor k => exact h.functor he
  | timer i k =>
    rw [Connector.step]
    split
    · next hi =>
      exact (h.congr rfl rfl rfl rfl rfl rfl :
        ({ s with timers := s.timers.eraseIdx i } : Connector).Inv).startInLoop
        fun hu => he ⟨hi, hu⟩
    · exact ⟨s, rfl, h⟩
  | channel error write err selfConnect =>
    rw [Connector.step]
    split
    · next hp => exact h.handleEvent hp
    · exact ⟨s, rfl, h⟩

private theorem Inv.not_accounted {e : ConnectorEvent} (h : s.Inv) (he : s.Faulty e)
    (hs : s.step e = some s') : ¬ s'.Accounted := by
  cases e with
  | start inLoop k =>
    rw [Connector.step, Connector.start, if_pos he.1, startInLoop_of_untimely he.2] at hs
    cases hs
  | stop => exact he.elim
  | restart k =>
    by_cases hc : s.state = .kConnecting
    · exact h.not_accounted_restart hc hs
    · obtain ⟨hk, hsome⟩ := he.resolve_left hc
      rw [Connector.step, Connector.restart] at hs
      cases hs.symm.trans (startInLoop_of_untimely (.inr ⟨rfl, hk, hsome⟩))
  | functor k =>
    obtain ⟨hhead, hu⟩ := he
    rw [Connector.step] at hs
    split at hs
    · next hp => simp [hp] at hhead
    · next f pending hp =>
      rw [hp] at hhead
      obtain rfl := Option.some.inj hhead
      rw [call, startInLoop_of_untimely (s := { s with pending }) hu] at hs
      cases hs
  | timer i k =>
    rw [Connector.step, if_pos he.1] at hs
    cases hs.symm.trans (startInLoop_of_untimely he.2)
  | channel error write err selfConnect => exact he.elim

/-- In every run of a connector, no assertion fails, at most one socket is being connected, and
every other socket created has been passed on or closed exactly once, exactly when no step calls
`startInLoop` on a connector that is not disconnected or whose channel has not been reset, and
none restarts it while it is connecting. -/
theorem connector_accounts_iff (events : List ConnectorEvent) :
    Legal step (fun s e => ∃ s', s.step e = some s' ∧ s'.Accounted) new events ↔
      Legal step (fun s e => ¬ s.Faulty e) new events := by
  refine legal_outcome_iff Inv (fun s e h he => ?_) (fun s e s' h hs ha he => ?_) events inv_new
  · obtain ⟨s', hs, hinv⟩ := h.step he
    exact ⟨s', hs, hinv, hinv.accounted⟩
  · exact h.not_accounted he hs ha

/-- The second of two calls of `start` fails an assertion. A connector that is restarted while it
is connecting, when the network has become unreachable, neither passes on nor closes its first
socket. -/
theorem connector_restart_leaks :
    run step new [.start true .EINPROGRESS, .start true .EINPROGRESS] = none ∧
    ∃ s, run step new [.start true .EINPROGRESS, .restart .ENETUNREACH] = some s ∧
      s.created = 2 ∧ s.passed = [] ∧ s.closed = [1] ∧ s.state = .kDisconnected ∧
      ¬ s.Accounted :=
  ⟨rfl, _, rfl, rfl, rfl, rfl, rfl, fun h => absurd h.length_eq (by decide)⟩

end Connector

end IMServer.Client
