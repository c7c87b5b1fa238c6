import IMServer.Reactor.OutputStream

/-!
# The life cycle of a connection

From `connectEstablished` to `connectDestroyed` (`server/src/TcpConnection.cc:184–411`), with the
callbacks of the user in the order in which they are run, `forceCloseWithDelay` and its timers.
Every step is one of `TcpConnection.step`; only what it calls of the user's is recorded here.

A mask can close the connection and read from it in one call of `handleEvent`, reading can be
enabled again after the close, and disabling what is already disabled puts the channel back into
the epoll set, so the assertions of `handleClose` and `Channel::remove` can fail.
-/

namespace IMServer.Reactor

open IMServer.Base IMServer.Net IMServer.Business

/-- A call of a callback of the user, with `state_` at the time. -/
inductive Callback where
  | connection (state : ConnState)
  | message (state : ConnState)
  deriving DecidableEq, Repr

/-- A connection and what it has called. -/
structure Life where
  conn : TcpConnection
  /-- The callbacks run so far, oldest first. -/
  history : List Callback := []
  /-- The timers of `forceCloseWithDelay` that have not fired. -/
  timers : Nat := 0
  /-- `connectDestroyed` has been executed. -/
  destroyed : Bool := false
  deriving DecidableEq, Repr

/-- One step of the life of a connection. -/
inductive LifeEvent where
  | conn (e : ConnEvent)
  | forceCloseWithDelay
  /-- A timer of `forceCloseWithDelay` fires. -/
  | timer
  | connectDestroyed
  deriving DecidableEq, Repr

namespace Life

def setConn (s : Life) (conn : TcpConnection) : Life := { s with conn }

def callback (s : Life) (k : Callback) : Life := { s with history := s.history ++ [k] }

/-- `TcpConnection.cc:313–322`. -/
def connectEstablished (s : Life) : Option Life := do
  let conn ← s.conn.connectEstablished
  some ((s.setConn conn).callback (.connection conn.state))

/-- `TcpConnection.cc:398–411`. -/
def handleClose (s : Life) : Option Life := do
  let conn ← s.conn.handleClose
  some ((s.setConn conn).callback (.connection conn.state))

/-- `TcpConnection.cc:251–259`. -/
def forceCloseInLoop (s : Life) : Option Life :=
  if s.conn.closable then s.handleClose else some s

/-- `TcpConnection.cc:239–249`. -/
def forceCloseWithDelay (s : Life) : Life :=
  if s.conn.closable then
    { s with conn := { s.conn with state := .kDisconnecting }, timers := s.timers + 1 }
  else s

/-- `TcpConnection.cc:324–335`. -/
def connectDestroyed (s : Life) : Option Life := do
  let s := if s.conn.state = .kConnected then
    let channel := s.conn.channel.disableAll
    (s.setConn { s.conn with state := .kDisconnected, channel }).callback
      (.connection .kDisconnected) else s
  let channel ← s.conn.channel.remove
  some { s with conn := { s.conn with channel }, destroyed := true }

/-- `TcpConnection.cc:337–356`. -/
def handleRead (s : Life) : ReadResult → Option Life
  | .bytes _ => some (s.callback (.message s.conn.state))
  | .eof => s.handleClose
  | .error => some s

/-- `Channel.cc:73–105`. -/
def handleEvent (s : Life) (r : Revents) (n : ReadResult) (k : WriteResult) : Option Life := do
  let s ← (if r.hup && !r.input then s.handleClose else some s)
  let s ← (if r.input || r.pri then s.handleRead n else some s)
  if r.output then (s.conn.handleWrite k).map s.setConn else some s

def runFunctor (s : Life) (k : WriteResult) : Functor → Option Life
  | .connectEstablished => s.connectEstablished
  | .sendInLoop message => (s.conn.sendInLoop message k).map s.setConn
  | .shutdownInLoop => some (s.setConn s.conn.shutdownInLoop)
  | .forceCloseInLoop => s.forceCloseInLoop
  | .startReadInLoop => some (s.setConn s.conn.startReadInLoop)
  | .stopReadInLoop => some (s.setConn s.conn.stopReadInLoop)
  | .writeComplete | .highWaterMark _ => some s
  | .connectDestroyed => s.connectDestroyed

def connStep (s : Life) : ConnEvent → Option Life
  | .send inLoop message k => (s.conn.send inLoop message k).map s.setConn
  | .shutdown inLoop => some (s.setConn (s.conn.shutdown inLoop))
  | .forceClose => some (s.setConn s.conn.forceClose)
  | .startRead inLoop => some (s.setConn
      (if inLoop then s.conn.startReadInLoop else s.conn.queueInLoop .startReadInLoop))
  | .stopRead inLoop => some (s.setConn
      (if inLoop then s.conn.stopReadInLoop else s.conn.queueInLoop .stopReadInLoop))
  | .functor k =>
    match s.conn.pending with
    | [] => some s
    | f :: rest => (s.setConn { s.conn with pending := rest }).runFunctor k f
  | .channel r n k => if r.reported s.conn.channel then s.handleEvent r n k else some s

/-- A step that cannot happen leaves everything as it is; nothing happens after
`connectDestroyed`. -/
def step (s : Life) (e : LifeEvent) : Option Life :=
  if s.destroyed then some s
  else match e with
    | .conn e => s.connStep e
    | .forceCloseWithDelay => some s.forceCloseWithDelay
    | .timer =>
      some (if s.timers = 0 then s
        else { s with conn := s.conn.forceClose, timers := s.timers - 1 })
    | .connectDestroyed => s.connectDestroyed

end Life

/-! ### What keeps the life of a connection where it is -/

/-- The functors that begin and end the life of a connection. -/
def Functor.lifecycle : Functor → Bool
  | .connectEstablished | .connectDestroyed => true
  | _ => false

/-- A choice of functors without the callbacks of the user, which the functions that send and
write queue. -/
structure Functor.OmitsUser (p : Functor → Bool) : Prop where
  writeComplete : p .writeComplete = false
  highWaterMark : ∀ len, p (.highWaterMark len) = false

private theorem Functor.omitsUser_lifecycle : OmitsUser lifecycle := ⟨rfl, fun _ => rfl⟩

namespace TcpConnection

/-- The output buffer is well formed after a function that queues none of the chosen functors. -/
structure Keeps (p : Functor → Bool) (c c' : TcpConnection) : Prop where
  wf : c'.outputBuffer.WF
  pending : c'.pending.filter p = c.pending.filter p

/-- A function that does not change the state either. -/
structure Steady (p : Functor → Bool) (c c' : TcpConnection) : Prop extends Keeps p c c' where
  state : c'.state = c.state

section Steady

variable {p : Functor → Bool} {c c' c'' : TcpConnection}

private theorem Steady.refl (hwf : c.outputBuffer.WF) : c.Steady p c := ⟨⟨hwf, rfl⟩, rfl⟩

/-- Two steps. -/
theorem Keeps.trans (h : c.Keeps p c') (h' : c'.Keeps p c'') : c.Keeps p c'' :=
  ⟨h'.wf, h'.pending.trans h.pending⟩

private theorem Steady.trans (h : c.Steady p c') (h' : c'.Steady p c'') : c.Steady p c'' :=
  ⟨h.toKeeps.trans h'.toKeeps, h'.state.trans h.state⟩

/-- `queueInLoop` keeps the life cycle. -/
theorem steady_queueInLoop (hwf : c.outputBuffer.WF) {f : Functor} (hf : p f = false) :
    c.Steady p (c.queueInLoop f) :=
  ⟨⟨hwf, by simp [queueInLoop, hf]⟩, rfl⟩

private theorem steady_queueIf
    (hwf : c.outputBuffer.WF) (b : Bool) {f : Functor} (hf : p f = false) :
    c.Steady p (c.queueIf b f) := by
  cases b
  · exact .refl hwf
  · exact steady_queueInLoop hwf hf

/-- `shutdownInLoop` keeps it. -/
theorem steady_shutdownInLoop (hwf : c.outputBuffer.WF) : c.Steady p c.shutdownInLoop := by
  unfold shutdownInLoop
  split
  · exact .refl hwf
  · exact ⟨⟨hwf, rfl⟩, rfl⟩

/-- `startReadInLoop` keeps it. -/
theorem steady_startReadInLoop (hwf : c.outputBuffer.WF) : c.Steady p c.startReadInLoop := by
  unfold startReadInLoop
  split
  · exact ⟨⟨hwf, rfl⟩, rfl⟩
  · exact .refl hwf

/-- `stopReadInLoop` keeps it. -/
theorem steady_stopReadInLoop (hwf : c.outputBuffer.WF) : c.Steady p c.stopReadInLoop := by
  unfold stopReadInLoop
  split
  · exact ⟨⟨hwf, rfl⟩, rfl⟩
  · exact .refl hwf

private theorem steady_writeDirect (hp : Functor.OmitsUser p) (hwf : c.outputBuffer.WF)
    (data : List UInt8) (k : WriteResult) : c.Steady p (c.writeDirect data k).1 := by
  unfold writeDirect
  split
  · split
    · next socket nwrote _ =>
      have h : c.Steady p { c with socket } := ⟨⟨hwf, rfl⟩, rfl⟩
      exact h.trans (steady_queueIf h.wf _ hp.writeComplete)
    · exact ⟨⟨hwf, rfl⟩, rfl⟩
  · exact .refl hwf

private theorem steady_keep
    (hp : Functor.OmitsUser p) (hwf : c.outputBuffer.WF) (rest : List UInt8) :
    ∃ c', c.keep rest = some c' ∧ c.Steady p c' := by
  obtain ⟨b', hb, hrep⟩ := Buffer.append_spec ⟨hwf, rfl⟩ rest
  simp only [keep, hb, Option.bind_eq_bind, Option.bind_some]
  refine ⟨_, rfl, ⟨hrep.wf, ?_⟩, ?_⟩
  · exact (steady_queueIf hwf _ (hp.highWaterMark _)).pending
  · exact (steady_queueIf hwf _ (hp.highWaterMark _)).state

/-- `sendInLoop` keeps it. -/
theorem steady_sendInLoop (hp : Functor.OmitsUser p) (hwf : c.outputBuffer.WF)
    (data : List UInt8) (k : WriteResult) :
    ∃ c', c.sendInLoop data k = some c' ∧ c.Steady p c' := by
  have hd := steady_writeDirect hp hwf data k
  unfold sendInLoop
  split
  · exact ⟨c, rfl, .refl hwf⟩
  · dsimp only
    split
    · obtain ⟨c', hkeep, h⟩ := steady_keep hp hd.wf (data.drop (c.writeDirect data k).2.1)
      exact ⟨c', hkeep, hd.trans h⟩
    · exact ⟨_, rfl, hd⟩

private theorem steady_written (hp : Functor.OmitsUser p) (hwf : c.outputBuffer.WF) :
    c.Steady p c.written := by
  have h : c.Steady p { c with channel := c.channel.disableWriting } := ⟨⟨hwf, rfl⟩, rfl⟩
  have h' := h.trans (steady_queueIf h.wf c.writeCompleteCallback hp.writeComplete)
  unfold written
  dsimp only
  split
  · exact h'.trans (steady_shutdownInLoop h'.wf)
  · exact h'

/-- `handleWrite` keeps it. -/
theorem steady_handleWrite (hp : Functor.OmitsUser p) (hwf : c.outputBuffer.WF)
    (k : WriteResult) : ∃ c', c.handleWrite k = some c' ∧ c.Steady p c' := by
  unfold handleWrite
  split
  · cases k with
    | error e => exact ⟨_, rfl, .refl hwf⟩
    | wrote m =>
      obtain ⟨b', hb, hrep⟩ := Buffer.retrieve_spec ⟨hwf, rfl⟩
        (Nat.min_le_right m c.outputBuffer.readable.length)
      simp only [Socket.write, hb, Option.bind_eq_bind, Option.bind_some]
      split
      · split
        · refine ⟨_, rfl, Steady.trans ?_ (steady_written hp hrep.wf)⟩
          exact ⟨⟨hrep.wf, rfl⟩, rfl⟩
        · exact ⟨_, rfl, ⟨hrep.wf, rfl⟩, rfl⟩
      · exact ⟨_, rfl, ⟨hwf, rfl⟩, rfl⟩
  · exact ⟨c, rfl, .refl hwf⟩

end Steady

end TcpConnection

/-! ### The life cycle -/

/-- `state_` moves forward; `kDisconnecting` may be skipped. -/
inductive Forward : ConnState → ConnState → Prop where
  | stay (s : ConnState) : Forward s s
  | established : Forward .kConnecting .kConnected
  | disconnecting : Forward .kConnected .kDisconnecting
  | disconnected {s : ConnState} (h : s = .kConnected ∨ s = .kDisconnecting) :
    Forward s .kDisconnected

namespace Life

/-- The states in which `connectionCallback_` was run. -/
def connections (s : Life) : List ConnState :=
  s.history.filterMap fun
    | .connection state => some state
    | .message _ => none

/-- `connectionCallback_` has been run once for the establishment and once for the disconnection,
as far as they have happened, and `messageCallback_` never on a disconnected connection. -/
structure Orderly (s : Life) : Prop where
  connections : s.connections =
    match s.conn.state with
    | .kConnecting => []
    | .kConnected | .kDisconnecting => [.kConnected]
    | .kDisconnected => [.kConnected, .kDisconnected]
  messages : .message .kDisconnected ∉ s.history

end Life

/-- A mask that hangs up and reports urgent data without input closes the connection and then
reads from it. -/
def Revents.ClosesAndReads (r : Revents) (n : ReadResult) : Prop :=
  r.hup = true ∧ r.input = false ∧ r.pri = true ∧ n ≠ .error

instance (r : Revents) (n : ReadResult) : Decidable (r.ClosesAndReads n) :=
  inferInstanceAs (Decidable (_ ∧ _))

/-- A reported event that closes a connection that cannot be closed, reads from one that is
disconnected, or does both in one call; and a destruction of a channel that has interest left or
was never used. -/
def LifeEvent.Faulty (s : Life) : LifeEvent → Prop
  | .conn (.channel r n k) => r.reported s.conn.channel = true ∧
    ((ConnEvent.channel r n k).Closes s.conn ∧ s.conn.closable = false ∨
      s.conn.state = .kDisconnected ∧ (r.input = true ∨ r.pri = true) ∧ n ≠ .error ∨
      r.ClosesAndReads n)
  | .connectDestroyed => s.conn.state ≠ .kConnected ∧
    (s.conn.channel.isNoneEvent = false ∨ s.conn.channel.index = .kNew)
  | _ => False

instance (s : Life) : (e : LifeEvent) → Decidable (e.Faulty s)
  | .conn (.channel _ _ _) => inferInstanceAs (Decidable (_ ∧ _))
  | .connectDestroyed => inferInstanceAs (Decidable (_ ∧ _))
  | .conn (.send _ _ _) | .conn (.shutdown _) | .conn .forceClose | .conn (.startRead _)
  | .conn (.stopRead _) | .conn (.functor _) | .forceCloseWithDelay | .timer => .isFalse id

namespace Life

open IMServer.Reactor.Functor (lifecycle omitsUser_lifecycle)

/-- The invariant of the runs without a fault. -/
structure Inv (s : Life) : Prop extends Orderly s where
  wf : s.conn.outputBuffer.WF
  pending : s.conn.pending.filter lifecycle =
    if s.conn.state = .kConnecting then [.connectEstablished] else []

section Steps

variable {s s' : Life} {c : TcpConnection}

private theorem Inv.steady (h : s.Inv) (hc : s.conn.Steady lifecycle c) : (s.setConn c).Inv :=
  ⟨⟨by simpa [setConn, connections, hc.state] using h.connections, h.messages⟩, hc.wf,
    by simpa [setConn, hc.state, hc.pending] using h.pending⟩

/-- `shutdown`, `forceClose` and `forceCloseWithDelay` on an open connection. -/
theorem Inv.disconnecting (h : s.Inv) (ho : s.conn.closable = true)
    (hc : s.conn.Keeps lifecycle c) (hs : c.state = .kDisconnecting) (timers : Nat) :
    { s with conn := c, timers }.Inv ∧ Forward s.conn.state c.state := by
  have hor := TcpConnection.closable_iff.mp ho
  refine ⟨⟨⟨?_, h.messages⟩, hc.wf, ?_⟩, ?_⟩
  · have hcon := h.connections
    rcases hor with hst | hst <;> simpa [connections, hs, hst] using hcon
  · have hpen := h.pending
    rcases hor with hst | hst <;> simpa [hs, hst, hc.pending] using hpen
  · rw [hs]
    rcases hor with hst | hst <;> rw [hst]
    · exact .disconnecting
    · exact .stay _

/-- The connection is disconnected and the user is told. -/
theorem Inv.disconnected (h : s.Inv) (ho : s.conn.closable = true) (hc : s.conn.Keeps lifecycle c)
    (hs : c.state = .kDisconnected) :
    ((s.setConn c).callback (.connection .kDisconnected)).Inv := by
  have hor := TcpConnection.closable_iff.mp ho
  have hcon := h.connections
  have hpen := h.pending
  refine ⟨⟨?_, ?_⟩, hc.wf, ?_⟩
  · simp only [connections] at hcon
    rcases hor with hst | hst <;> simp [connections, callback, setConn, hs, hcon, hst]
  · simpa [callback, setConn] using h.messages
  · rcases hor with hst | hst <;> simpa [callback, setConn, hs, hst, hc.pending] using hpen

private theorem Inv.handleClose (h : s.Inv) (ho : s.conn.closable = true) :
    ∃ s', s.handleClose = some s' ∧ s'.Inv ∧ s'.conn.state = .kDisconnected := by
  simp only [Life.handleClose, TcpConnection.handleClose, ho, if_true, Option.bind_eq_bind,
    Option.bind_some]
  exact ⟨_, rfl, h.disconnected ho ⟨h.wf, rfl⟩ rfl, rfl⟩

/-- The assertion of `handleClose`. -/
theorem handleClose_eq_some (h : s.handleClose = some s') :
    s.conn.closable = true ∧ s'.conn.state = .kDisconnected := by
  simp only [Life.handleClose, Option.bind_eq_bind, Option.bind_eq_some_iff] at h
  obtain ⟨c, hc, h⟩ := h
  obtain ⟨ho, rfl⟩ := TcpConnection.handleClose_eq_some hc
  exact ⟨ho, Option.some.inj h ▸ rfl⟩

private theorem Inv.message (h : s.Inv) (hs : s.conn.state ≠ .kDisconnected) :
    (s.callback (.message s.conn.state)).Inv := by
  refine ⟨⟨?_, ?_⟩, h.wf, h.pending⟩
  · simpa [callback, connections] using h.connections
  · simpa [callback, Ne.symm hs] using h.messages

/-- The last part of `handleEvent`. -/
theorem Inv.handleOutput (h : s.Inv) (output : Bool) (k : WriteResult) :
    ∃ s', (if output then (s.conn.handleWrite k).map s.setConn else some s) = some s' ∧ s'.Inv ∧
      s'.conn.state = s.conn.state := by
  cases output
  · exact ⟨s, rfl, h, rfl⟩
  · obtain ⟨c, hw, hc⟩ := TcpConnection.steady_handleWrite omitsUser_lifecycle h.wf k
    exact ⟨s.setConn c, by simp [hw], h.steady hc, hc.state⟩

private theorem history_of_handleOutput {output : Bool} {k : WriteResult}
    (h : (if output then (s.conn.handleWrite k).map s.setConn else some s) = some s') :
    s'.history = s.history := by
  cases output
  · exact Option.some.inj h ▸ rfl
  · obtain ⟨c, -, rfl⟩ := Option.map_eq_some_iff.mp h
    rfl

/-- Reading from an open connection closes it at the end of the stream. -/
theorem Inv.handleRead (h : s.Inv) {n : ReadResult}
    (hs : n = .error ∨ s.conn.state ≠ .kDisconnected) (hc : n = .eof → s.conn.closable = true) :
    ∃ s', s.handleRead n = some s' ∧ s'.Inv ∧ Forward s.conn.state s'.conn.state := by
  cases n with
  | bytes m => exact ⟨_, rfl, h.message (hs.resolve_left nofun), .stay _⟩
  | eof =>
    obtain ⟨s', hs', hinv, hst⟩ := h.handleClose (hc rfl)
    exact ⟨s', hs', hinv, hst ▸ .disconnected (TcpConnection.closable_iff.mp (hc rfl))⟩
  | error => exact ⟨s, rfl, h, .stay _⟩

/-- Reading from a disconnected connection fails, or hands its bytes to the user. -/
theorem message_of_handleRead (hs : s.conn.state = .kDisconnected) {n : ReadResult}
    (hn : n ≠ .error) (h : s.handleRead n = some s') : .message .kDisconnected ∈ s'.history := by
  cases n with
  | bytes m =>
    obtain rfl := Option.some.inj h
    simp [callback, hs]
  | eof =>
    have ho := (handleClose_eq_some h).1
    simp [TcpConnection.closable, hs] at ho
  | error => exact absurd rfl hn

/-- An event without a fault moves the connection forward. -/
theorem Inv.handleEvent (h : s.Inv) {r : Revents} {n : ReadResult} {k : WriteResult}
    (hr : r.reported s.conn.channel = true) (hf : ¬ (LifeEvent.conn (.channel r n k)).Faulty s) :
    ∃ s', s.handleEvent r n k = some s' ∧ s'.Inv ∧ Forward s.conn.state s'.conn.state := by
  simp only [LifeEvent.Faulty, hr, true_and, not_or, not_and, Bool.not_eq_false,
    ConnEvent.Closes] at hf
  obtain ⟨hclose, hread, hboth⟩ := hf
  simp only [Life.handleEvent, Option.bind_eq_bind]
  by_cases hup : r.hup = true ∧ r.input = false
  · have ho := hclose (.inl hup)
    obtain ⟨s₁, h₁, hinv₁, hst₁⟩ := h.handleClose ho
    have h₁ : (if r.hup && !r.input then s.handleClose else some s) = some s₁ := by
      rw [if_pos (by simp [hup]), h₁]
    have hn : r.pri = true → n = .error := fun hpri => by
      by_contra hn
      exact hboth ⟨hup.1, hup.2, hpri, hn⟩
    have h₂ : (if r.input || r.pri then s₁.handleRead n else some s₁) = some s₁ := by
      cases hpri : r.pri
      · simp [hup.2]
      · simp [hn hpri, Life.handleRead]
    obtain ⟨s₃, h₃, hinv₃, hst₃⟩ := hinv₁.handleOutput r.output k
    refine ⟨s₃, by simp only [h₁, h₂, h₃, Option.bind_some], hinv₃, ?_⟩
    rw [hst₃, hst₁]
    exact .disconnected (TcpConnection.closable_iff.mp ho)
  · have h₁ : (if r.hup && !r.input then s.handleClose else some s) = some s :=
      if_neg (by simpa using hup)
    have h₂ : ∃ s₂, (if r.input || r.pri then s.handleRead n else some s) = some s₂ ∧ s₂.Inv ∧
        Forward s.conn.state s₂.conn.state := by
      split
      · next hin =>
        rw [Bool.or_eq_true] at hin
        refine h.handleRead ?_ fun hn => hclose (.inr ⟨hin, hn⟩)
        rw [or_iff_not_imp_left]
        exact fun hn hs => hn (by simpa using hread hs hin)
      · exact ⟨s, rfl, h, .stay _⟩
    obtain ⟨s₂, h₂, hinv₂, hfwd⟩ := h₂
    obtain ⟨s₃, h₃, hinv₃, hst₃⟩ := hinv₂.handleOutput r.output k
    exact ⟨s₃, by simp only [h₁, h₂, h₃, Option.bind_some], hinv₃, hst₃ ▸ hfwd⟩

/-- An event with a fault fails, or hands bytes to the user after the disconnection. -/
theorem message_of_handleEvent {r : Revents} {n : ReadResult} {k : WriteResult}
    (hf : (LifeEvent.conn (.channel r n k)).Faulty s) (h : s.handleEvent r n k = some s') :
    .message .kDisconnected ∈ s'.history := by
  obtain ⟨hr, hf⟩ := hf
  simp only [Life.handleEvent, Option.bind_eq_bind, Option.bind_eq_some_iff] at h
  obtain ⟨s₁, h₁, s₂, h₂, h₃⟩ := h
  rw [history_of_handleOutput h₃]
  by_cases hup : r.hup = true ∧ r.input = false
  · rw [if_pos (by simp [hup])] at h₁
    obtain ⟨ho, hst⟩ := handleClose_eq_some h₁
    rcases hf with ⟨-, hc⟩ | ⟨hd, -⟩ | ⟨-, -, hpri, hn⟩
    · rw [ho] at hc
      cases hc
    · simp [TcpConnection.closable, hd] at ho
    · rw [if_pos (by simp [hpri])] at h₂
      exact message_of_handleRead hst hn h₂
  · rw [if_neg (by simpa using hup)] at h₁
    obtain rfl := Option.some.inj h₁
    rcases hf with ⟨⟨-, hc⟩, hnc⟩ | ⟨hd, hin, hn⟩ | ⟨hh, hi, -, -⟩
    · obtain ⟨hin, rfl⟩ := hc.resolve_left hup
      rw [if_pos (by simpa using hin)] at h₂
      rw [(handleClose_eq_some h₂).1] at hnc
      cases hnc
    · rw [if_pos (by simpa using hin)] at h₂
      exact message_of_handleRead hd hn h₂
    · exact absurd ⟨hh, hi⟩ hup

private theorem Inv.connectEstablished (h : s.Inv) (hs : s.conn.state = .kConnecting)
    (hp : c.pending.filter lifecycle = []) (hc : c = { s.conn with pending := c.pending }) :
    ∃ s', (s.setConn c).connectEstablished = some s' ∧ s'.Inv ∧
      Forward s.conn.state s'.conn.state := by
  have hst : c.state = .kConnecting := by rw [hc]; exact hs
  have hcon := h.connections
  simp only [hs, Life.connections] at hcon
  simp only [Life.connectEstablished, TcpConnection.connectEstablished, setConn, hst, if_true,
    Option.bind_eq_bind, Option.bind_some]
  refine ⟨_, rfl, ⟨⟨?_, ?_⟩, ?_, ?_⟩, ?_⟩
  · simp [Life.connections, callback, hcon]
  · simpa [callback] using h.messages
  · rw [hc]
    exact h.wf
  · simpa [callback] using hp
  · rw [hs]
    exact .established

/-- A functor moves the connection forward. -/
theorem Inv.runFunctor (h : s.Inv) {rest : List Functor} {f : Functor}
    (hp : s.conn.pending = f :: rest) (k : WriteResult) :
    ∃ s', (s.setConn { s.conn with pending := rest }).runFunctor k f = some s' ∧ s'.Inv ∧
      Forward s.conn.state s'.conn.state := by
  have hpen := h.pending
  rw [hp] at hpen
  by_cases hlife : f.lifecycle = true
  · rw [List.filter_cons_of_pos hlife] at hpen
    split at hpen
    · next hs =>
      obtain ⟨rfl, hrest⟩ := List.cons.inj hpen
      exact h.connectEstablished hs hrest rfl
    · cases hpen
  · rw [List.filter_cons_of_neg hlife] at hpen
    have hpop : s.conn.Steady lifecycle { s.conn with pending := rest } :=
      ⟨⟨h.wf, by rw [hp, List.filter_cons_of_neg hlife]⟩, rfl⟩
    have h' := h.steady hpop
    -- every other functor but `forceCloseInLoop` is steady
    have of_steady : ∀ c', ({ s.conn with pending := rest } : TcpConnection).Steady lifecycle c' →
        (s.setConn c').Inv ∧ Forward s.conn.state (s.setConn c').conn.state := fun c' hc =>
      ⟨h.steady (hpop.trans hc), (hpop.trans hc).state ▸ .stay _⟩
    cases f with
    | connectEstablished => exact absurd rfl hlife
    | connectDestroyed => exact absurd rfl hlife
    | sendInLoop message =>
      obtain ⟨c', hc, hst⟩ := TcpConnection.steady_sendInLoop omitsUser_lifecycle h'.wf message k
      exact ⟨s.setConn c', by simp only [Life.runFunctor, hc]; rfl, of_steady c' hst⟩
    | shutdownInLoop => exact ⟨_, rfl, of_steady _ (TcpConnection.steady_shutdownInLoop h'.wf)⟩
    | startReadInLoop => exact ⟨_, rfl, of_steady _ (TcpConnection.steady_startReadInLoop h'.wf)⟩
    | stopReadInLoop => exact ⟨_, rfl, of_steady _ (TcpConnection.steady_stopReadInLoop h'.wf)⟩
    | writeComplete | highWaterMark _ => exact ⟨_, rfl, of_steady _ (.refl h'.wf)⟩
    | forceCloseInLoop =>
      simp only [Life.runFunctor, Life.forceCloseInLoop]
      split
      · next ho =>
        obtain ⟨s', hs', hinv, hst⟩ := h'.handleClose ho
        exact ⟨s', hs', hinv, hst ▸ .disconnected (TcpConnection.closable_iff.mp ho)⟩
      · exact ⟨_, rfl, h', .stay _⟩

private theorem Inv.forceClose (h : s.Inv) (timers : Nat) :
    { s with conn := s.conn.forceClose, timers }.Inv ∧
      Forward s.conn.state s.conn.forceClose.state := by
  unfold TcpConnection.forceClose
  split
  · next ho =>
    refine h.disconnecting ho ?_ rfl timers
    exact ⟨h.wf, (TcpConnection.steady_queueInLoop
      (c := { s.conn with state := .kDisconnecting }) h.wf rfl).pending⟩
  · exact ⟨⟨⟨h.connections, h.messages⟩, h.wf, h.pending⟩, .stay _⟩

private theorem Inv.shutdown (h : s.Inv) (inLoop : Bool) :
    (s.setConn (s.conn.shutdown inLoop)).Inv ∧
      Forward s.conn.state (s.conn.shutdown inLoop).state := by
  unfold TcpConnection.shutdown
  split
  · next hs =>
    have ho : s.conn.closable = true := TcpConnection.closable_iff.mpr (.inl hs)
    have hk : s.conn.Keeps lifecycle { s.conn with state := .kDisconnecting } := ⟨h.wf, rfl⟩
    cases inLoop
    · have hq := TcpConnection.steady_queueInLoop (p := lifecycle) (f := .shutdownInLoop) hk.wf rfl
      exact h.disconnecting ho (hk.trans hq.toKeeps) rfl s.timers
    · have hc := TcpConnection.steady_shutdownInLoop (p := lifecycle) hk.wf
      exact h.disconnecting ho (hk.trans hc.toKeeps) hc.state s.timers
  · exact ⟨h, .stay _⟩

private theorem Inv.connStep (h : s.Inv) {e : ConnEvent} (hf : ¬ (LifeEvent.conn e).Faulty s) :
    ∃ s', s.connStep e = some s' ∧ s'.Inv ∧ Forward s.conn.state s'.conn.state := by
  have of_steady : ∀ c, s.conn.Steady lifecycle c →
      (s.setConn c).Inv ∧ Forward s.conn.state (s.setConn c).conn.state := fun c hc =>
    ⟨h.steady hc, hc.state ▸ .stay _⟩
  cases e with
  | send inLoop message k =>
    obtain ⟨c, hc, hst⟩ : ∃ c, s.conn.send inLoop message k = some c ∧
        s.conn.Steady lifecycle c := by
      unfold TcpConnection.send
      split
      · cases inLoop
        · exact ⟨_, rfl, TcpConnection.steady_queueInLoop h.wf rfl⟩
        · exact TcpConnection.steady_sendInLoop omitsUser_lifecycle h.wf message k
      · exact ⟨_, rfl, .refl h.wf⟩
    exact ⟨s.setConn c, by simp [Life.connStep, hc], of_steady c hst⟩
  | shutdown inLoop => exact ⟨_, rfl, h.shutdown inLoop⟩
  | forceClose => exact ⟨_, rfl, h.forceClose s.timers⟩
  | startRead inLoop =>
    refine ⟨_, rfl, of_steady _ ?_⟩
    split
    · exact TcpConnection.steady_startReadInLoop h.wf
    · exact TcpConnection.steady_queueInLoop h.wf rfl
  | stopRead inLoop =>
    refine ⟨_, rfl, of_steady _ ?_⟩
    split
    · exact TcpConnection.steady_stopReadInLoop h.wf
    · exact TcpConnection.steady_queueInLoop h.wf rfl
  | functor k =>
    cases hp : s.conn.pending with
    | nil => exact ⟨s, by simp [Life.connStep, hp], h, .stay _⟩
    | cons f rest =>
      simp only [Life.connStep, hp]
      exact h.runFunctor hp k
  | channel r n k =>
    simp only [Life.connStep]
    split
    · next hr => exact h.handleEvent hr hf
    · exact ⟨s, rfl, h, .stay _⟩

private theorem remove_disableAll (ch : Channel) :
    ch.disableAll.remove = some { ch.disableAll with index := .kNew } := by
  refine if_pos ⟨rfl, ?_⟩
  cases h : ch.index <;> simp [Channel.disableAll, Channel.update, Channel.isNoneEvent, h]

/-- The destruction of a connected one, or of a channel that has no interest left. -/
theorem Inv.connectDestroyed (h : s.Inv) (hf : ¬ LifeEvent.connectDestroyed.Faulty s) :
    ∃ s', s.connectDestroyed = some s' ∧ s'.Inv ∧ Forward s.conn.state s'.conn.state := by
  unfold Life.connectDestroyed
  by_cases hs : s.conn.state = .kConnected
  · have ho : s.conn.closable = true := TcpConnection.closable_iff.mpr (.inl hs)
    have h' := h.disconnected (c := { s.conn with
      state := .kDisconnected, channel := s.conn.channel.disableAll }) ho ⟨h.wf, rfl⟩ rfl
    simp only [if_pos hs, callback, setConn, remove_disableAll, Option.bind_eq_bind,
      Option.bind_some]
    exact ⟨_, rfl, ⟨⟨h'.connections, h'.messages⟩, h'.wf, h'.pending⟩, .disconnected (.inl hs)⟩
  · simp only [LifeEvent.Faulty, not_and, not_or, Bool.not_eq_false] at hf
    have hremove : s.conn.channel.remove = some { s.conn.channel with index := .kNew } :=
      if_pos (hf hs)
    simp only [if_neg hs, hremove, Option.bind_eq_bind, Option.bind_some]
    exact ⟨_, rfl, ⟨⟨h.connections, h.messages⟩, h.wf, h.pending⟩, .stay _⟩

/-- A step without a fault does not fail, moves the state forward and keeps the invariant. -/
theorem Inv.step (h : s.Inv) {e : LifeEvent} (hf : s.destroyed = false → ¬ e.Faulty s) :
    ∃ s', s.step e = some s' ∧ s'.Inv ∧ Forward s.conn.state s'.conn.state := by
  unfold Life.step
  split
  · exact ⟨s, rfl, h, .stay _⟩
  · next hd =>
    have hf := hf (by simpa using hd)
    cases e with
    | conn e => exact h.connStep hf
    | forceCloseWithDelay =>
      refine ⟨_, rfl, ?_⟩
      unfold forceCloseWithDelay
      split
      · next ho =>
        exact h.disconnecting (c := { s.conn with state := .kDisconnecting }) ho ⟨h.wf, rfl⟩ rfl
          (s.timers + 1)
      · exact ⟨h, .stay _⟩
    | timer =>
      refine ⟨_, rfl, ?_⟩
      split
      · exact ⟨h, .stay _⟩
      · exact h.forceClose (s.timers - 1)
    | connectDestroyed => exact h.connectDestroyed hf

/-- A step with a fault fails, or hands bytes to the user after the disconnection. -/
theorem not_orderly_of_faulty {e : LifeEvent} (hd : s.destroyed = false) (hf : e.Faulty s)
    (h : s.step e = some s') : ¬ s'.Orderly := by
  simp only [Life.step, hd, Bool.false_eq_true, if_false] at h
  cases e with
  | conn e =>
    cases e with
    | channel r n k =>
      simp only [Life.connStep, hf.1, if_true] at h
      exact fun ho => ho.messages (message_of_handleEvent hf h)
    | _ => exact absurd hf id
  | connectDestroyed =>
    have hremove : s.conn.channel.remove = none := by
      refine if_neg ?_
      rintro ⟨hnone, hindex⟩
      rcases hf.2 with hn | hi
      · cases hnone.symm.trans hn
      · exact hindex hi
    simp [Life.connectDestroyed, hf.1, hremove] at h
  | _ => exact absurd hf id

end Steps

/-- A new connection, before the loop has run `connectEstablished`. -/
def start (name : String) (highWaterMark : Nat) (writeComplete high : Bool) : Life :=
  { conn := .fresh name highWaterMark writeComplete high }

private theorem inv_start (name : String) (mark : Nat) (complete high : Bool) :
    (start name mark complete high).Inv :=
  ⟨⟨rfl, nofun⟩, (Buffer.rep_new kInitialSize).wf, rfl⟩

/-- In every run of a connection, from its establishment to its destruction, no step fails, the
state moves forward only, `connectionCallback_` runs once on establishment and once on
disconnection, and `messageCallback_` never runs on a disconnected connection, exactly when no step
of the run has a fault. -/
theorem life_cycle_iff (name : String) (mark : Nat) (complete high : Bool)
    (events : List LifeEvent) :
    Legal step (fun s e => ∃ s', s.step e = some s' ∧ Forward s.conn.state s'.conn.state ∧
        s'.Orderly) (start name mark complete high) events ↔
      Legal step (fun s e => s.destroyed = false → ¬ e.Faulty s) (start name mark complete high)
        events := by
  refine legal_outcome_iff Inv (fun s e h hf => ?_) (fun s e s' _ hs ho hd hf => ?_) events
    (inv_start name mark complete high)
  · obtain ⟨s', hs, hinv, hfwd⟩ := h.step hf
    exact ⟨s', hs, hinv, hfwd, hinv.toOrderly⟩
  · exact not_orderly_of_faulty hd hf hs ho.2

/-- The connection is closed by force and told to read again. -/
def readAfterClose : List LifeEvent :=
  [.conn (.functor (.wrote 0)), .conn .forceClose, .conn (.functor (.wrote 0)),
    .conn (.startRead true)]

set_option maxRecDepth 8000 in
/-- The bytes that arrive then are handed to the user although the connection is disconnected, and
the end of the stream fails the assertion of `handleClose`. -/
theorem life_cycle_read_after_close :
    (∃ s, run step (start "im-1" 64 false false)
        (readAfterClose ++ [.conn (.channel { input := true } (.bytes 3) (.wrote 0))]) = some s ∧
      s.history = [.connection .kConnected, .connection .kDisconnected, .message .kDisconnected] ∧
      ¬ s.Orderly) ∧
    run step (start "im-1" 64 false false)
      (readAfterClose ++ [.conn (.channel { input := true } .eof (.wrote 0))]) = none := by
  refine ⟨⟨_, rfl, rfl, fun h => h.messages ?_⟩, rfl⟩
  exact List.mem_of_getElem? (i := 2) rfl

end Life

end IMServer.Reactor
