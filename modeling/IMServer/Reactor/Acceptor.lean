import IMServer.Reactor.ConnectionTable
import Mathlib.Order.Interval.Finset.Nat

/-!
# Accepting connections

`server/src/Acceptor.cc:45–78` and `sockets::accept` (`server/src/SocketsOps.cc:110–148`) under the
server of `IMServer.Reactor.ConnectionTable`, with the descriptors of the process. A descriptor of a
connection is closed by `Socket::~Socket` (`Socket.cc:14–17`), which cannot run as long as the
connection is in the table of the server. A step is `none` when the process aborts.

`sockets::accept` calls `fcntl` on the result of `::accept` before it looks at `errno`, so that it
takes every error for `EBADF`, and `LOG_FATAL` aborts. The server therefore dies of the first
connection for which there is no descriptor; `Acceptor::handleRead` never uses `idleFd_`.
-/

namespace IMServer.Reactor

open IMServer.Base

/-! ### Descriptors -/

/-- What a descriptor is used for. -/
inductive Holder where
  /-- `idleFd_`. -/
  | idle
  /-- The connection with this number. -/
  | connection (i : Nat)
  /-- Any other file or socket of the process. -/
  | other
  deriving DecidableEq, Repr

/-- The open descriptors of a process. -/
structure Descriptors where
  limit : Nat
  holder : Nat → Option Holder

namespace Descriptors

/-- The lowest descriptor that is not open. -/
def lowest (d : Descriptors) : Option Nat := (List.range d.limit).find? fun fd => d.holder fd = none

/-- A new descriptor; there is none when as many are open as the process may have. -/
def alloc (d : Descriptors) (h : Holder) : Option (Nat × Descriptors) :=
  d.lowest.map fun fd => (fd, { d with holder := Function.update d.holder fd (some h) })

def close (d : Descriptors) (fd : Nat) : Descriptors :=
  { d with holder := Function.update d.holder fd none }

end Descriptors

/-- The values of `errno` that `sockets::accept` distinguishes. -/
inductive AcceptErrno where
  | EAGAIN
  | ECONNABORTED
  | EINTR
  | EPROTO
  | EPERM
  | EMFILE
  | EBADF
  | EFAULT
  | EINVAL
  | ENFILE
  | ENOBUFS
  | ENOMEM
  | ENOTSOCK
  | EOPNOTSUPP
  | other
  deriving DecidableEq, Repr

/-- `SocketsOps.cc:120–145`. -/
def AcceptErrno.expected : AcceptErrno → Bool
  | .EAGAIN | .ECONNABORTED | .EINTR | .EPROTO | .EPERM | .EMFILE => true
  | .EBADF | .EFAULT | .EINVAL | .ENFILE | .ENOBUFS | .ENOMEM | .ENOTSOCK | .EOPNOTSUPP | .other =>
    false

/-- What `::accept` finds, apart from the limit on descriptors. -/
inductive Arrival where
  | ready
  | failed (errno : AcceptErrno)
  deriving DecidableEq, Repr

/-- `::accept`. -/
def Descriptors.accept (d : Descriptors) (h : Holder) :
    Arrival → Except AcceptErrno (Nat × Descriptors)
  | .ready =>
    match d.alloc h with
    | some p => .ok p
    | none => .error .EMFILE
  | .failed errno => .error errno

/-- `SocketsOps.cc:28–43`: the value of `errno` after it. `fcntl` fails for a negative
descriptor. -/
def setNonBlockAndCloseOnExec (sockfd : Option Nat) (errno : AcceptErrno) : AcceptErrno :=
  if sockfd.isNone then .EBADF else errno

/-- `sockets::accept`; `none` when `LOG_FATAL` aborts. -/
def socketsAccept (d : Descriptors) (h : Holder) (a : Arrival) :
    Option (Except AcceptErrno (Nat × Descriptors)) :=
  match d.accept h a with
  | .ok p => some (.ok p)
  | .error errno =>
    let savedErrno := setNonBlockAndCloseOnExec none errno
    if savedErrno.expected then some (.error savedErrno) else none

/-! ### The server process -/

/-- A server, its acceptor and the descriptors of the process. -/
structure ServerProcess where
  fds : Descriptors
  /-- `idleFd_`, if it is not negative. -/
  idleFd : Option Nat
  server : TcpServer

inductive ProcessEvent where
  /-- The listening socket is readable. The second argument is for the call of `::accept` in
  `Acceptor::handleRead` itself. -/
  | incoming (a b : Arrival)
  | conn (i : Nat) (e : ConnEvent)
  /-- The base loop runs the oldest call of `removeConnectionInLoop`. -/
  | remove
  /-- The last pointer to the connection that uses the descriptor goes away. -/
  | drop (fd : Nat)
  /-- The rest of the process opens a descriptor, or closes one. -/
  | openOther
  | closeOther (fd : Nat)
  deriving DecidableEq, Repr

def ProcessEvent.isIncoming : ProcessEvent → Bool
  | .incoming _ _ => true
  | _ => false

namespace ServerProcess

/-- `Acceptor.cc:72–75`. -/
def reuseIdleFd (s : ServerProcess) (b : Arrival) : ServerProcess :=
  let fds := s.idleFd.elim s.fds s.fds.close
  let fds := match fds.accept .idle b with
    | .ok (fd, fds) => fds.close fd
    | .error _ => fds
  match fds.alloc .idle with
  | some (fd, fds) => { s with fds, idleFd := some fd }
  | none => { s with fds, idleFd := none }

/-- `Acceptor.cc:45–78`, with `TcpServer::newConnection` as the callback. -/
def handleRead (s : ServerProcess) (a b : Arrival) : Option ServerProcess := do
  match ← socketsAccept s.fds (.connection s.server.nextConnId) a with
  | .ok (_, fds) =>
    let server ← s.server.newConnection
    some { s with fds, server }
  | .error errno => some (if errno = .EMFILE then s.reuseIdleFd b else s)

/-- A step that cannot happen leaves everything as it is. -/
def step (s : ServerProcess) : ProcessEvent → Option ServerProcess
  | .incoming a b => s.handleRead a b
  | .conn i e => (s.server.step (.conn i e)).map fun server => { s with server }
  | .remove => (s.server.step .remove).map fun server => { s with server }
  | .drop fd =>
    match s.fds.holder fd with
    | some (.connection i) =>
      match s.server.conn i with
      | some c =>
        some (if c.name ∈ s.server.connections then s else { s with fds := s.fds.close fd })
      | none => some s
    | _ => some s
  | .openOther =>
    match s.fds.alloc .other with
    | some (_, fds) => some { s with fds }
    | none => some s
  | .closeOther fd =>
    some (if s.fds.holder fd = some .other then { s with fds := s.fds.close fd } else s)

end ServerProcess

/-! ### Every connection keeps its descriptor -/

namespace Descriptors

variable {d : Descriptors} {h h' : Holder} {fd : Nat} {p : Nat × Descriptors}

/-- The descriptor is used for this. -/
def Holds (d : Descriptors) (fd : Nat) (h : Holder) : Prop := fd < d.limit ∧ d.holder fd = some h

private theorem alloc_spec (ha : d.alloc h = some p) :
    p.1 < d.limit ∧ d.holder p.1 = none ∧
      p.2 = { d with holder := Function.update d.holder p.1 (some h) } := by
  obtain ⟨fd, hfd, rfl⟩ := Option.map_eq_some_iff.mp ha
  refine ⟨List.mem_range.mp (List.mem_of_find?_eq_some hfd), ?_, rfl⟩
  simpa using List.find?_some hfd

private theorem alloc_isSome_iff : (d.alloc h).isSome ↔ ∃ fd < d.limit, d.holder fd = none := by
  simp [alloc, lowest]

private theorem Holds.alloc (hd : d.Holds fd h) (ha : d.alloc h' = some p) : p.2.Holds fd h := by
  obtain ⟨-, hfree, hp⟩ := alloc_spec ha
  have hne : fd ≠ p.1 := by
    rintro rfl
    cases hfree.symm.trans hd.2
  rw [hp]
  exact ⟨hd.1, (Function.update_of_ne hne _ _).trans hd.2⟩

private theorem holds_alloc (ha : d.alloc h = some p) : p.2.Holds p.1 h := by
  obtain ⟨hlt, -, hp⟩ := alloc_spec ha
  rw [hp]
  exact ⟨hlt, Function.update_self ..⟩

private theorem Holds.close (hd : d.Holds fd h) {fd' : Nat} (hn : d.holder fd' ≠ some h) :
    (d.close fd').Holds fd h := by
  have hne : fd ≠ fd' := by
    rintro rfl
    exact hn hd.2
  exact ⟨hd.1, (Function.update_of_ne hne _ _).trans hd.2⟩

/-- Different holders have different descriptors, so there are not more than the limit allows. -/
theorem card_le_limit (holders : Finset Holder) (hd : ∀ h ∈ holders, ∃ fd, d.Holds fd h) :
    holders.card ≤ d.limit := by
  have hsurj : Set.SurjOn d.holder (Finset.range d.limit)
      (holders.map ⟨some, Option.some_injective _⟩) := by
    intro o ho
    obtain ⟨h, hmem, rfl⟩ := Finset.mem_map.mp ho
    obtain ⟨fd, hlt, hfd⟩ := hd h hmem
    exact ⟨fd, Finset.mem_range.mpr hlt, hfd⟩
  simpa using Finset.card_le_card_of_surjOn d.holder hsurj

end Descriptors

/-- Every failure of `::accept` is taken for `EBADF`. -/
theorem socketsAccept_eq (d : Descriptors) (h : Holder) (a : Arrival) :
    socketsAccept d h a = if a = .ready then (d.alloc h).map .ok else none := by
  unfold socketsAccept Descriptors.accept
  cases a with
  | failed errno => rfl
  | ready =>
    cases d.alloc h with
    | none => rfl
    | some p => rfl

namespace TcpServer

variable {s s' : TcpServer}

/-- One connection more, with the next number. -/
theorem newConnection_conn (h : s.newConnection = some s') :
    s'.nextConnId = s.nextConnId + 1 ∧ (∃ c, s'.conn s.nextConnId = some c) ∧
      ∀ j, j ≠ s.nextConnId → s'.conn j = s.conn j := by
  simp only [newConnection, Option.bind_eq_bind, Option.bind_eq_some_iff, Option.some.injEq] at h
  obtain ⟨_, -, c, -, rfl⟩ := h
  exact ⟨rfl, ⟨c, conn_setConn⟩, fun j hj => conn_setConn_of_ne hj⟩

private theorem newConnection_isSome_iff : s.newConnection.isSome ↔ s.nextConnId + 1 < 2 ^ 31 := by
  unfold newConnection guard
  by_cases hid : s.nextConnId + 1 < 2 ^ 31
  · rw [if_pos hid]
    refine iff_of_true ?_ hid
    by_cases hn : s.threadNum = 0
    · simp only [hn, if_true]
      rfl
    · simp only [hn, if_false]
      rfl
  · rw [if_neg hid]
    exact iff_of_false Bool.false_ne_true hid

/-- A step of a connection makes no connection and takes none away. -/
theorem connStep_conn {i : Nat} {e : ConnEvent} (h : s.step (.conn i e) = some s') :
    s'.nextConnId = s.nextConnId ∧ ∀ j c, s.conn j = some c → ∃ c', s'.conn j = some c' := by
  simp only [step] at h
  split at h
  · cases h
    exact ⟨rfl, fun _ c hc => ⟨c, hc⟩⟩
  · simp only [Option.bind_eq_bind, Option.bind_eq_some_iff, Option.some.injEq] at h
    obtain ⟨c', -, rfl⟩ := h
    refine ⟨rfl, fun j c hc => ?_⟩
    by_cases hji : j = i
    · subst hji
      exact ⟨c', conn_setConn⟩
    · exact ⟨c, (conn_setConn_of_ne hji).trans hc⟩

end TcpServer

namespace ServerProcess

variable {s s' : ServerProcess}

/-- The listening socket is served only if there is a connection and a descriptor for it. -/
theorem handleRead_eq_some {a b : Arrival} (h : s.handleRead a b = some s') :
    a = .ready ∧ ∃ p server, s.fds.alloc (.connection s.server.nextConnId) = some p ∧
      s.server.newConnection = some server ∧ s' = { s with fds := p.2, server } := by
  unfold handleRead at h
  rw [socketsAccept_eq] at h
  by_cases ha : a = .ready
  · refine ⟨ha, ?_⟩
    rw [if_pos ha] at h
    cases hp : s.fds.alloc (.connection s.server.nextConnId) with
    | none => simp [hp] at h
    | some p =>
      simp only [hp, Option.map_some, Option.bind_eq_bind, Option.bind_some,
        Option.bind_eq_some_iff, Option.some.injEq] at h
      obtain ⟨server, hserver, rfl⟩ := h
      exact ⟨p, server, rfl, hserver, rfl⟩
  · rw [if_neg ha] at h
    cases h

private theorem handleRead_isSome_iff {a b : Arrival} :
    (s.handleRead a b).isSome ↔ a = .ready ∧ (∃ fd < s.fds.limit, s.fds.holder fd = none) ∧
      s.server.nextConnId + 1 < 2 ^ 31 := by
  rw [← Descriptors.alloc_isSome_iff (h := .connection s.server.nextConnId),
    ← TcpServer.newConnection_isSome_iff]
  constructor
  · intro h
    obtain ⟨s', hs'⟩ := Option.isSome_iff_exists.mp h
    obtain ⟨ha, p, server, hp, hserver, -⟩ := handleRead_eq_some hs'
    exact ⟨ha, Option.isSome_of_mem hp, Option.isSome_of_mem hserver⟩
  · rintro ⟨rfl, halloc, hnew⟩
    obtain ⟨p, hp⟩ := Option.isSome_iff_exists.mp halloc
    obtain ⟨server, hserver⟩ := Option.isSome_iff_exists.mp hnew
    simp [handleRead, socketsAccept_eq, hp, hserver]

/-- Every connection that was made has a descriptor, and `idleFd_` is what it was. -/
structure Inv (limit idleFd : Nat) (s : ServerProcess) : Prop where
  untouched : s.server.Untouched
  limit : s.fds.limit = limit
  first : 1 ≤ s.server.nextConnId
  known : ∀ i, 1 ≤ i → i < s.server.nextConnId → ∃ c, s.server.conn i = some c
  held : ∀ i, 1 ≤ i → i < s.server.nextConnId → ∃ fd, s.fds.Holds fd (.connection i)
  idle : s.idleFd = some idleFd ∧ s.fds.Holds idleFd .idle

namespace Inv

variable {limit idleFd : Nat}

private theorem incoming
    (h : s.Inv limit idleFd) {a b : Arrival} (hs : s.handleRead a b = some s') :
    s'.Inv limit idleFd ∧ s'.server.nextConnId = s.server.nextConnId + 1 := by
  obtain ⟨-, p, server, hp, hserver, rfl⟩ := handleRead_eq_some hs
  obtain ⟨hid, ⟨c, hc⟩, hother⟩ := TcpServer.newConnection_conn hserver
  obtain ⟨-, -, hp₂⟩ := Descriptors.alloc_spec hp
  refine ⟨⟨(TcpServer.newConnection_spec hserver h.untouched).1, ?_, ?_, fun i h1 hi => ?_,
    fun i h1 hi => ?_, h.idle.1, h.idle.2.alloc hp⟩, hid⟩
  · rw [hp₂]
    exact h.limit
  · exact hid ▸ Nat.le_add_left 1 _
  · replace hi : i < server.nextConnId := hi
    by_cases hn : i = s.server.nextConnId
    · exact ⟨c, hn ▸ hc⟩
    · obtain ⟨d, hd⟩ := h.known i h1 (by omega)
      exact ⟨d, (hother i hn).trans hd⟩
  · replace hi : i < server.nextConnId := hi
    by_cases hn : i = s.server.nextConnId
    · exact ⟨p.1, hn ▸ Descriptors.holds_alloc hp⟩
    · obtain ⟨fd, hfd⟩ := h.held i h1 (by omega)
      exact ⟨fd, hfd.alloc hp⟩

/-- Descriptors are opened and closed elsewhere. -/
theorem setFds (h : s.Inv limit idleFd) {fds : Descriptors} (hlimit : fds.limit = s.fds.limit)
    (hholds : ∀ fd k, k ≠ .other → s.fds.Holds fd k → fds.Holds fd k) :
    ({ s with fds } : ServerProcess).Inv limit idleFd := by
  refine ⟨h.untouched, hlimit.trans h.limit, h.first, h.known, fun i h1 hi => ?_, h.idle.1,
    hholds _ _ (fun hk => by cases hk) h.idle.2⟩
  obtain ⟨fd, hfd⟩ := h.held i h1 hi
  exact ⟨fd, hholds _ _ (fun hk => by cases hk) hfd⟩

/-- A step of the process serves the listening socket, or leaves the connections that were made and
their descriptors. -/
theorem step (h : s.Inv limit idleFd) {e : ProcessEvent} (hs : s.step e = some s') :
    s'.Inv limit idleFd ∧
      s'.server.nextConnId = s.server.nextConnId + if e.isIncoming then 1 else 0 := by
  cases e with
  | incoming a b => exact h.incoming hs
  | conn i e =>
    obtain ⟨server, hserver, rfl⟩ := Option.map_eq_some_iff.mp hs
    obtain ⟨hid, hconn⟩ := TcpServer.connStep_conn hserver
    refine ⟨⟨(TcpServer.connStep_spec hserver h.untouched).1, h.limit, hid ▸ h.first,
      fun j h1 hj => ?_, fun j h1 hj => h.held j h1 (hid ▸ hj), h.idle⟩, hid⟩
    obtain ⟨c, hc⟩ := h.known j h1 (hid ▸ hj)
    exact hconn j c hc
  | remove =>
    simp only [ServerProcess.step, TcpServer.step, h.untouched.removing, Option.map_some] at hs
    cases hs
    exact ⟨h, rfl⟩
  | drop fd =>
    have hsame : s' = s := by
      simp only [ServerProcess.step] at hs
      split at hs
      · next i _ =>
        split at hs
        · next c hc =>
          -- the connection is still in the table
          have hmem := (h.untouched.table c.name).mpr ⟨i, c, hc, rfl⟩
          rw [if_pos hmem] at hs
          exact (Option.some.inj hs).symm
        · exact (Option.some.inj hs).symm
      · exact (Option.some.inj hs).symm
    rw [hsame]
    exact ⟨h, rfl⟩
  | openOther =>
    simp only [ServerProcess.step] at hs
    split at hs
    · next fd fds hp =>
      cases hs
      have hlimit := congrArg Descriptors.limit (Descriptors.alloc_spec hp).2.2
      exact ⟨h.setFds hlimit fun _ _ _ hd => hd.alloc hp, rfl⟩
    · cases hs
      exact ⟨h, rfl⟩
  | closeOther fd =>
    simp only [ServerProcess.step, Option.some.injEq] at hs
    subst hs
    split
    · next hfd =>
      refine ⟨h.setFds rfl fun _ k hk hd => hd.close fun hn => hk ?_, rfl⟩
      exact (Option.some.inj (hfd.symm.trans hn)).symm
    · exact ⟨h, rfl⟩

private theorem run (h : s.Inv limit idleFd) {events : List ProcessEvent}
    (hr : Base.run ServerProcess.step s events = some s') :
    s'.Inv limit idleFd ∧
      s'.server.nextConnId = s.server.nextConnId + events.countP ProcessEvent.isIncoming := by
  induction events generalizing s with
  | nil => exact Option.some.inj hr ▸ ⟨h, rfl⟩
  | cons e events ih =>
    obtain ⟨s₁, h₁, h₂⟩ := Option.bind_eq_some_iff.mp hr
    obtain ⟨hinv, hid⟩ := h.step h₁
    obtain ⟨hinv', hid'⟩ := ih hinv h₂
    refine ⟨hinv', ?_⟩
    rw [hid', hid, List.countP_cons]
    omega

/-- The connections and `idleFd_` have different descriptors. -/
theorem count_le_limit (h : s.Inv limit idleFd) : s.server.nextConnId ≤ limit := by
  have hholds : ∀ k ∈ insert .idle ((Finset.Ico 1 s.server.nextConnId).image .connection),
      ∃ fd, s.fds.Holds fd k := by
    intro k hk
    rcases Finset.mem_insert.mp hk with rfl | hk
    · exact ⟨idleFd, h.idle.2⟩
    · obtain ⟨i, hi, rfl⟩ := Finset.mem_image.mp hk
      obtain ⟨h1, hlt⟩ := Finset.mem_Ico.mp hi
      exact h.held i h1 hlt
  have hcard := Descriptors.card_le_limit _ hholds
  have hinj : Function.Injective Holder.connection := fun i j hij => by cases hij; rfl
  rw [Finset.card_insert_of_notMem (by simp), Finset.card_image_of_injective _ hinj,
    Nat.card_Ico, h.limit] at hcard
  have := h.first
  omega

end Inv

/-- In every run of a server process that has not aborted, whatever its connections do and whatever
the rest of the process opens and closes: every time that the listening socket was served a
connection was made, and it still has a descriptor of its own, even if it is closed; `idleFd_` has
never been given up, so that there have been fewer connections than the process may have
descriptors. The next time the process aborts unless there is a connection and a descriptor for
it. -/
theorem server_ends_at_descriptor_limit (name ipPort : String) (threadNum : Nat)
    (fds : Descriptors) (idleFd : Nat) (hidle : fds.Holds idleFd .idle)
    (events : List ProcessEvent) {s : ServerProcess}
    (hs : Base.run step ⟨fds, some idleFd, .start name ipPort threadNum⟩ events = some s) :
    let n := events.countP ProcessEvent.isIncoming
    s.server.nextConnId = n + 1 ∧
    (∀ i, 1 ≤ i → i ≤ n → ∃ c fd, s.server.conn i = some c ∧ c.name ∈ s.server.connections ∧
      s.fds.Holds fd (.connection i)) ∧
    s.idleFd = some idleFd ∧ n < fds.limit ∧
    ∀ a b, (s.step (.incoming a b)).isSome ↔
      a = .ready ∧ (∃ fd < fds.limit, s.fds.holder fd = none) ∧ n + 2 < 2 ^ 31 := by
  intro n
  have hstart : Inv fds.limit idleFd ⟨fds, some idleFd, .start name ipPort threadNum⟩ :=
    ⟨TcpServer.untouched_start name ipPort threadNum, rfl, Nat.le_refl 1,
      fun i h1 hi => absurd hi (Nat.not_lt.mpr h1), fun i h1 hi => absurd hi (Nat.not_lt.mpr h1),
      rfl, hidle⟩
  obtain ⟨hinv, hid⟩ := hstart.run hs
  have hn : s.server.nextConnId = n + 1 := hid.trans (Nat.add_comm 1 n)
  refine ⟨hn, fun i h1 hi => ?_, hinv.idle.1, ?_, fun a b => ?_⟩
  · obtain ⟨c, hc⟩ := hinv.known i h1 (by omega)
    obtain ⟨fd, hfd⟩ := hinv.held i h1 (by omega)
    exact ⟨c, fd, hc, (hinv.untouched.table c.name).mpr ⟨i, c, hc, rfl⟩, hfd⟩
  · have := hinv.count_le_limit
    omega
  · rw [step, handleRead_isSome_iff, hinv.limit, hn]

/-- Five descriptors, of which one is left for a connection. -/
def fiveDescriptors : Descriptors where
  limit := 5
  holder fd := if fd < 3 then some .other else if fd = 3 then some .idle else none

/-- The peer closes the connection. -/
def oneConnection : List ProcessEvent :=
  [.incoming .ready .ready, .conn 1 (.channel { input := true } .eof (.wrote 0)), .drop 4]

/-- Five descriptors. -/
theorem server_ends_at_descriptor_limit_five :
    ∃ s, Base.run step ⟨fiveDescriptors, some 3, .start "im" "0.0.0.0:8888" 0⟩ oneConnection =
        some s ∧ (s.server.conn 1).any (·.state = .kDisconnected) = true ∧
      ∀ a b, s.step (.incoming a b) = none := by
  refine ⟨_, rfl, rfl, fun a b => Option.not_isSome_iff_eq_none.mp fun hsome => ?_⟩
  obtain ⟨-, -, -, -, hnext⟩ := server_ends_at_descriptor_limit "im" "0.0.0.0:8888" 0
    fiveDescriptors 3 ⟨by decide, rfl⟩ oneConnection rfl
  obtain ⟨-, hfree, -⟩ := (hnext a b).mp hsome
  exact absurd hfree (by decide)

end ServerProcess

end IMServer.Reactor
