import IMServer.Base.Run
import IMServer.Reactor.Connection

/-!
# The connections of a server

`server/src/TcpServer.cc:63–109` over the connections of `IMServer.Reactor.Connection`. The
base loop accepts connections and removes them from the table when it is told to; each
connection has what is queued for it in its own loop. A connection that is closed never tells
the server, so it stays in the table and in the poller.
-/

namespace IMServer.Reactor

open IMServer.Base IMServer.Business

/-- `TcpServer.h:91–103`. A connection is numbered by the value of `nextConnId_` it was made
with. -/
structure TcpServer where
  name : String
  ipPort : String
  /-- The number of loops that serve connections; with none, the base loop does. -/
  threadNum : Nat
  nextConnId : Nat := 1
  connections : AList (fun _ : String => Nat) := ∅
  /-- Every connection that has been made. -/
  conn : Nat → Option TcpConnection := fun _ => none
  /-- Calls of `removeConnectionInLoop` that are queued in the base loop. -/
  removing : List Nat := []
  /-- How often `connectDestroyed` has been executed. -/
  destroyed : Nat → Nat := fun _ => 0

namespace TcpServer

/-- `TcpServer.cc:67–70`. -/
def connName (s : TcpServer) : String :=
  s.name ++ "-" ++ s.ipPort ++ "#" ++ toString s.nextConnId

def setConn (s : TcpServer) (i : Nat) (c : TcpConnection) : TcpServer :=
  { s with conn := Function.update s.conn i (some c) }

/-- What holds of the connection that is set and of the others holds of all. -/
theorem forall_setConn {s : TcpServer} {i : Nat} {c : TcpConnection}
    {P : Nat → TcpConnection → Prop} (hi : P i c) (hne : ∀ j d, j ≠ i → s.conn j = some d → P j d) :
    ∀ j d, (s.setConn i c).conn j = some d → P j d := by
  intro j d hj
  by_cases hji : j = i
  · subst hji
    simp only [setConn, Function.update_self, Option.some.injEq] at hj
    exact hj ▸ hi
  · simp only [setConn, Function.update_of_ne hji] at hj
    exact hne j d hji hj

/-- The connection that was set. -/
theorem conn_setConn {s : TcpServer} {i : Nat} {c : TcpConnection} :
    (s.setConn i c).conn i = some c := Function.update_self ..

/-- The other connections. -/
theorem conn_setConn_of_ne {s : TcpServer} {i j : Nat} {c : TcpConnection} (h : j ≠ i) :
    (s.setConn i c).conn j = s.conn j := Function.update_of_ne h ..

/-- `TcpServer.cc:63–90`; the counter is an `int`. -/
def newConnection (s : TcpServer) : Option TcpServer := do
  guard (s.nextConnId + 1 < 2 ^ 31)
  let c : TcpConnection := { name := s.connName }
  let c ← (if s.threadNum = 0 then c.connectEstablished
    else some (c.queueInLoop .connectEstablished))
  some { s.setConn s.nextConnId c with
         nextConnId := s.nextConnId + 1
         connections := s.connections.insert s.connName s.nextConnId }

/-- `TcpServer.cc:98–109`. -/
def removeConnectionInLoop (s : TcpServer) (i : Nat) : Option TcpServer := do
  let c ← s.conn i
  guard (c.name ∈ s.connections)
  some { s.setConn i (c.queueInLoop .connectDestroyed) with
         connections := s.connections.erase c.name }

/-- One step of the server. -/
inductive Event where
  | newConnection
  /-- The base loop runs the oldest call of `removeConnectionInLoop`. -/
  | remove
  | conn (i : Nat) (e : ConnEvent)
  deriving DecidableEq, Repr

/-- The step runs `connectDestroyed` of the connection. -/
def destroys (c : TcpConnection) : ConnEvent → Bool
  | .functor _ => c.pending.head? = some .connectDestroyed
  | _ => false

def step (s : TcpServer) : Event → Option TcpServer
  | .newConnection => s.newConnection
  | .remove =>
    match s.removing with
    | [] => some s
    | i :: rest => { s with removing := rest }.removeConnectionInLoop i
  | .conn i e =>
    match s.conn i with
    | none => some s
    | some c => do
      let c' ← c.step e
      some { s.setConn i c' with
             destroyed := if destroys c e then
               Function.update s.destroyed i (s.destroyed i + 1) else s.destroyed }

/-- The table holds the names of the connections that are not closed, and every connection
that is closed has been destroyed once. -/
def Exact (s : TcpServer) : Prop :=
  (∀ name, name ∈ s.connections ↔
    ∃ i c, s.conn i = some c ∧ c.name = name ∧ c.state ≠ .kDisconnected) ∧
  ∀ i c, s.conn i = some c → c.state = .kDisconnected → s.destroyed i = 1

/-- The step closes a connection. -/
def Event.Closes (s : TcpServer) : Event → Prop
  | .conn i e => ∃ c ∈ s.conn i, e.Closes c
  | _ => False

instance (s : TcpServer) : (e : Event) → Decidable (e.Closes s)
  | .conn i e => inferInstanceAs (Decidable (∃ c ∈ s.conn i, e.Closes c))
  | .newConnection | .remove => .isFalse id

/-- Nothing is removed: every connection is in the table and none is destroyed. -/
structure Untouched (s : TcpServer) : Prop where
  removing : s.removing = []
  table : ∀ name, name ∈ s.connections ↔ ∃ i c, s.conn i = some c ∧ c.name = name
  destroyed : ∀ i, s.destroyed i = 0
  pending : ∀ i c, s.conn i = some c → .connectDestroyed ∉ c.pending
  fresh : ∀ i c, s.conn i = some c → i < s.nextConnId

/-- No connection is closed. -/
def Open (s : TcpServer) : Prop := ∀ i c, s.conn i = some c → c.state ≠ .kDisconnected

private theorem Untouched.exact_iff {s : TcpServer} (h : s.Untouched) : s.Exact ↔ s.Open := by
  refine ⟨fun hx i c hc hs => ?_, fun ho => ⟨fun name => ?_, fun i c hc hs => ?_⟩⟩
  · have h1 := hx.2 i c hc hs
    rw [h.destroyed] at h1
    cases h1
  · rw [h.table]
    exact ⟨fun ⟨i, c, hc, hn⟩ => ⟨i, c, hc, hn, ho i c hc⟩, fun ⟨i, c, hc, hn, _⟩ => ⟨i, c, hc, hn⟩⟩
  · exact absurd hs (ho i c hc)

section Step

variable {s s' : TcpServer}

/-- A new connection is in the table and open. -/
theorem newConnection_spec (h : s.newConnection = some s') (hu : s.Untouched) :
    s'.Untouched ∧ (s'.Open ↔ s.Open) := by
  simp only [newConnection, Option.bind_eq_bind, Option.bind_eq_some_iff, Option.some.injEq] at h
  obtain ⟨_, -, c, hc, rfl⟩ := h
  obtain ⟨hname, hstate, hpending⟩ :
      c.name = s.connName ∧ c.state ≠ .kDisconnected ∧ .connectDestroyed ∉ c.pending := by
    split at hc
    · cases hc
      exact ⟨rfl, nofun, nofun⟩
    · cases hc
      exact ⟨rfl, nofun, by simp [TcpConnection.queueInLoop]⟩
  have hother : ∀ j d, s.conn j = some d → j ≠ s.nextConnId :=
    fun j d hj => (hu.fresh j d hj).ne
  refine ⟨⟨hu.removing, fun name => ?_, hu.destroyed, ?_, ?_⟩, fun ho j d hj => ?_, fun ho => ?_⟩
  · rw [AList.mem_insert]
    constructor
    · rintro (rfl | hmem)
      · exact ⟨s.nextConnId, c, conn_setConn, hname⟩
      · obtain ⟨j, d, hj, hd⟩ := (hu.table name).mp hmem
        exact ⟨j, d, (conn_setConn_of_ne (hother j d hj)).trans hj, hd⟩
    · rintro ⟨j, d, hj, hd⟩
      by_cases hji : j = s.nextConnId
      · subst hji
        obtain rfl := Option.some.inj (conn_setConn.symm.trans hj)
        exact .inl (hd.symm.trans hname)
      · exact .inr ((hu.table name).mpr ⟨j, d, (conn_setConn_of_ne hji).symm.trans hj, hd⟩)
  · exact forall_setConn hpending fun j d _ => hu.pending j d
  · exact forall_setConn (Nat.lt_succ_self _)
      fun j d _ hj => (hu.fresh j d hj).trans_le (Nat.le_succ _)
  · exact ho j d ((conn_setConn_of_ne (hother j d hj)).trans hj)
  · exact forall_setConn hstate fun j d _ => ho j d

/-- A step of a connection does not touch the table. -/
theorem connStep_spec {i : Nat} {e : ConnEvent} (h : s.step (.conn i e) = some s')
    (hu : s.Untouched) :
    s'.Untouched ∧ (s'.Open ↔ s.Open ∧ ¬ (Event.conn i e).Closes s) := by
  simp only [step] at h
  cases hi : s.conn i with
  | none =>
    rw [hi] at h
    obtain rfl := Option.some.inj h
    exact ⟨hu, by simp [Event.Closes, hi]⟩
  | some c =>
    rw [hi] at h
    simp only [Option.bind_eq_bind, Option.bind_eq_some_iff, Option.some.injEq] at h
    obtain ⟨c', hc', rfl⟩ := h
    obtain ⟨hname, hpending, hstate⟩ := TcpConnection.step_spec hc' (hu.pending i c hi)
    have hdestroys : destroys c e = false := by
      cases e with
      | functor k =>
        refine decide_eq_false fun hd => hu.pending i c hi (List.mem_of_mem_head? ?_)
        exact hd
      | _ => rfl
    have hcloses : (Event.conn i e).Closes s ↔ e.Closes c := by simp [Event.Closes, hi]
    rw [hdestroys, hcloses]
    refine ⟨⟨hu.removing, fun name => (hu.table name).trans ⟨?_, ?_⟩, hu.destroyed, ?_, ?_⟩,
      fun ho => ?_, fun ⟨ho, hc⟩ => ?_⟩
    · rintro ⟨j, d, hj, hd⟩
      by_cases hji : j = i
      · subst hji
        obtain rfl := Option.some.inj (hi.symm.trans hj)
        exact ⟨j, c', conn_setConn, hname.trans hd⟩
      · exact ⟨j, d, (conn_setConn_of_ne hji).trans hj, hd⟩
    · rintro ⟨j, d, hj, hd⟩
      by_cases hji : j = i
      · subst hji
        obtain rfl := Option.some.inj (conn_setConn.symm.trans hj)
        exact ⟨j, c, hi, hname.symm.trans hd⟩
      · exact ⟨j, d, (conn_setConn_of_ne hji).symm.trans hj, hd⟩
    · exact forall_setConn hpending fun j d _ => hu.pending j d
    · exact forall_setConn (hu.fresh i c hi) fun j d _ => hu.fresh j d
    · obtain ⟨hopen, hc⟩ := not_or.mp (mt hstate.mpr (ho i c' conn_setConn))
      refine ⟨fun j d hj => ?_, hc⟩
      by_cases hji : j = i
      · subst hji
        obtain rfl := Option.some.inj (hi.symm.trans hj)
        exact hopen
      · exact ho j d ((conn_setConn_of_ne hji).trans hj)
    · exact forall_setConn (mt hstate.mp (not_or.mpr ⟨ho i c hi, hc⟩)) fun j d _ => ho j d

private theorem step_spec {e : Event} (h : s.step e = some s') (hu : s.Untouched) :
    s'.Untouched ∧ (s'.Open ↔ s.Open ∧ ¬ e.Closes s) := by
  cases e with
  | newConnection =>
    obtain ⟨hu', ho⟩ := newConnection_spec h hu
    exact ⟨hu', ho.trans (and_iff_left id).symm⟩
  | remove =>
    simp only [step, hu.removing, Option.some.injEq] at h
    subst h
    exact ⟨hu, (and_iff_left id).symm⟩
  | conn i e => exact connStep_spec h hu

end Step

/-- Along a run the connections stay open exactly as long as no step closes one. -/
theorem run_open_iff (events : List Event) {s s' : TcpServer} (hu : s.Untouched)
    (h : run step s events = some s') :
    s'.Untouched ∧ (s'.Open ↔ s.Open ∧ Legal step (fun s e => ¬ e.Closes s) s events) := by
  induction events generalizing s with
  | nil =>
    obtain rfl := Option.some.inj h
    exact ⟨hu, (and_iff_left trivial).symm⟩
  | cons e events ih =>
    simp only [run, Option.bind_eq_some_iff] at h
    obtain ⟨s₁, hs₁, h⟩ := h
    obtain ⟨hu₁, ho₁⟩ := step_spec hs₁ hu
    obtain ⟨hu', ho'⟩ := ih hu₁ h
    refine ⟨hu', ?_⟩
    rw [ho', ho₁, Legal, hs₁, and_assoc]

/-- A server that has just been started. -/
def start (name ipPort : String) (threadNum : Nat) : TcpServer := { name, ipPort, threadNum }

private theorem conn_start_ne (name ipPort : String) (threadNum i : Nat) (c : TcpConnection) :
    (start name ipPort threadNum).conn i ≠ some c := fun h => Option.some_ne_none c h.symm

/-- No connection has been made. -/
theorem untouched_start (name ipPort : String) (threadNum : Nat) :
    (start name ipPort threadNum).Untouched := by
  refine ⟨rfl, fun _ => ⟨fun h => absurd h (AList.notMem_empty _), ?_⟩, fun _ => rfl, ?_, ?_⟩
  · rintro ⟨i, c, hc, -⟩
    exact absurd hc (conn_start_ne name ipPort threadNum i c)
  · exact fun i c hc => absurd hc (conn_start_ne name ipPort threadNum i c)
  · exact fun i c hc => absurd hc (conn_start_ne name ipPort threadNum i c)

/-- In every state of every run, the table holds exactly the open connections and the closed
ones have been destroyed if and only if no step of the run has closed a connection. -/
theorem connections_exact_iff (name ipPort : String) (threadNum : Nat) (events : List Event)
    (s : TcpServer) (h : run step (start name ipPort threadNum) events = some s) :
    s.Exact ↔ Legal step (fun s e => ¬ e.Closes s) (start name ipPort threadNum) events := by
  obtain ⟨hu, ho⟩ := run_open_iff events (untouched_start name ipPort threadNum) h
  rw [hu.exact_iff, ho]
  exact and_iff_right fun i c hc => absurd hc (conn_start_ne name ipPort threadNum i c)

/-- A connection over which five bytes are read. -/
def readsBytes : List Event :=
  [.newConnection, .conn 1 (.functor (.wrote 0)),
    .conn 1 (.channel { input := true } (.bytes 5) (.wrote 0))]

/-- A connection that reads. -/
theorem connections_exact_reading :
    ∃ s, run step (start "im" "0.0.0.0:8888" 4) readsBytes = some s ∧ s.Exact :=
  ⟨_, rfl, (connections_exact_iff "im" "0.0.0.0:8888" 4 readsBytes _ rfl).mpr (by decide)⟩

/-- A connection whose peer closes it at once. -/
def peerCloses : List Event :=
  [.newConnection, .conn 1 (.functor (.wrote 0)),
    .conn 1 (.channel { input := true } .eof (.wrote 0))]

/-- After the peer has closed the connection nothing is queued, and the connection is still in
the table and in the poller and has not been destroyed. -/
theorem closed_connection_stays :
    ∃ s c, run step (start "im" "0.0.0.0:8888" 4) peerCloses = some s ∧ s.conn 1 = some c ∧
      c.state = .kDisconnected ∧ c.pending = [] ∧ s.removing = [] ∧ c.name ∈ s.connections ∧
      c.channel.index = .kDeleted ∧ s.destroyed 1 = 0 ∧ ¬ s.Exact :=
  ⟨_, _, rfl, rfl, rfl, rfl, rfl, by decide, rfl, rfl, fun h => absurd (h.2 1 _ rfl rfl) nofun⟩

end TcpServer

end IMServer.Reactor
