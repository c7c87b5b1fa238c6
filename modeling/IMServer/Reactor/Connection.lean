import IMServer.Business.Store
import IMServer.Net.Buffer

/-!
# TCP connections

`server/src/TcpConnection.cc`, with its channel (`Channel.h`, `Channel.cc`) and what the
poller keeps about it (`EPollPoller.cc:85–148`). A function is `none` when one of the source's
assertions fails. The results of `read` and `write` are arguments. The user's callbacks are
not part of a connection: what they call on it are events of their own. What is read into the
input buffer is the subject of `IMServer.Net.CodecStream`.
-/

namespace IMServer.Reactor

open IMServer.Base IMServer.Net IMServer.Business

/-! ### Channels -/

/-- The index of a channel in the poller; `EPollPoller.cc:17–19`. -/
inductive Index where
  | kNew
  | kAdded
  | kDeleted
  deriving DecidableEq, Repr

/-- The interest of a channel, and its index in the poller. -/
structure Channel where
  reading : Bool := false
  writing : Bool := false
  index : Index := .kNew
  deriving DecidableEq, Repr

namespace Channel

/-- `Channel.h:49`. -/
def isNoneEvent (c : Channel) : Bool := !c.reading && !c.writing

/-- `Channel::update`, `EPollPoller.cc:85–127`. -/
def update (c : Channel) : Channel :=
  { c with index := match c.index with
      | .kNew | .kDeleted => .kAdded
      | .kAdded => if c.isNoneEvent then .kDeleted else .kAdded }

def enableReading (c : Channel) : Channel := update { c with reading := true }

def disableReading (c : Channel) : Channel := update { c with reading := false }

def enableWriting (c : Channel) : Channel := update { c with writing := true }

def disableWriting (c : Channel) : Channel := update { c with writing := false }

def disableAll (c : Channel) : Channel := update { c with reading := false, writing := false }

/-- `Channel.cc:49–54`, `EPollPoller.cc:129–148`. -/
def remove (c : Channel) : Option Channel :=
  if c.isNoneEvent ∧ c.index ≠ .kNew then some { c with index := .kNew } else none

end Channel

/-! ### The socket -/

/-- The values of `errno` that the source distinguishes. -/
inductive Errno where
  | EWOULDBLOCK
  | EPIPE
  | ECONNRESET
  | other
  deriving DecidableEq, Repr

/-- The result of `write`: the kernel takes at most `n` bytes of what it is given. -/
inductive WriteResult where
  | wrote (n : Nat)
  | error (e : Errno)
  deriving DecidableEq, Repr

/-- The result of `read`. -/
inductive ReadResult where
  | bytes (n : Nat)
  | eof
  | error
  deriving DecidableEq, Repr

/-- What the kernel has taken, and whether its writing side is shut down. -/
structure Socket where
  accepted : List UInt8 := []
  writeShut : Bool := false
  deriving DecidableEq, Repr

/-- `sockets::write`: the socket after it, and the number of bytes taken. -/
def Socket.write (s : Socket) (data : List UInt8) : WriteResult → Socket × Except Errno Nat
  | .wrote n => ({ s with accepted := s.accepted ++ data.take n }, .ok (min n data.length))
  | .error e => (s, .error e)

/-! ### Connections -/

/-- What is queued in the loop of a connection on its behalf. -/
inductive Functor where
  | connectEstablished
  | sendInLoop (message : List UInt8)
  | shutdownInLoop
  | forceCloseInLoop
  | startReadInLoop
  | stopReadInLoop
  /-- The user's `writeCompleteCallback_`. -/
  | writeComplete
  /-- The user's `highWaterMarkCallback_`. -/
  | highWaterMark (len : Nat)
  | connectDestroyed
  deriving DecidableEq, Repr

/-- `TcpConnection.h:123–139`. -/
structure TcpConnection where
  name : String := ""
  state : ConnState := .kConnecting
  reading : Bool := true
  channel : Channel := {}
  outputBuffer : Buffer := .new kInitialSize
  highWaterMark : Nat := 64 * 1024 * 1024
  /-- Whether `writeCompleteCallback_` is set. -/
  writeCompleteCallback : Bool := false
  /-- Whether `highWaterMarkCallback_` is set. -/
  highWaterMarkCallback : Bool := false
  socket : Socket := {}
  /-- What is queued in the loop, oldest first. -/
  pending : List Functor := []
  deriving DecidableEq, Repr

namespace TcpConnection

def queueInLoop (c : TcpConnection) (f : Functor) : TcpConnection :=
  { c with pending := c.pending ++ [f] }

/-- Queue a callback of the user if it is set and its condition holds. -/
def queueIf (c : TcpConnection) (p : Bool) (f : Functor) : TcpConnection :=
  if p then c.queueInLoop f else c

/-- The state is one in which a connection can still be closed. -/
def closable (c : TcpConnection) : Bool := c.state = .kConnected || c.state = .kDisconnecting

/-- The attempt of `sendInLoop` to write at once: the connection, the number of bytes written,
and `faultError`; lines 141–164. -/
def writeDirect (c : TcpConnection) (data : List UInt8) (k : WriteResult) :
    TcpConnection × Nat × Bool :=
  if !c.channel.writing && c.outputBuffer.readableBytes = 0 then
    match c.socket.write data k with
    | (socket, .ok nwrote) =>
      ({ c with socket }.queueIf (data.length - nwrote = 0 && c.writeCompleteCallback)
        .writeComplete, nwrote, false)
    | (socket, .error e) => ({ c with socket }, 0, e = .EPIPE || e = .ECONNRESET)
  else (c, 0, false)

/-- Keep what could not be written; lines 169–180. -/
def keep (c : TcpConnection) (rest : List UInt8) : Option TcpConnection := do
  let oldLen := c.outputBuffer.readableBytes
  let high := c.highWaterMark ≤ oldLen + rest.length && oldLen < c.highWaterMark &&
    c.highWaterMarkCallback
  let outputBuffer ← c.outputBuffer.append rest
  let channel := if c.channel.writing then c.channel else c.channel.enableWriting
  some { c.queueIf high (.highWaterMark (oldLen + rest.length)) with outputBuffer, channel }

/-- `TcpConnection.cc:129–182`. -/
def sendInLoop (c : TcpConnection) (data : List UInt8) (k : WriteResult) :
    Option TcpConnection :=
  if c.state = .kDisconnected then some c
  else
    let (c, nwrote, faultError) := c.writeDirect data k
    if !faultError && 0 < data.length - nwrote then c.keep (data.drop nwrote) else some c

/-- `TcpConnection.cc:82–122`; the argument says whether the loop's thread calls it. -/
def send (c : TcpConnection) (inLoop : Bool) (message : List UInt8) (k : WriteResult) :
    Option TcpConnection :=
  if c.state = .kConnected then
    if inLoop then c.sendInLoop message k else some (c.queueInLoop (.sendInLoop message))
  else some c

/-- `TcpConnection.cc:195–203`. -/
def shutdownInLoop (c : TcpConnection) : TcpConnection :=
  if c.channel.writing then c else { c with socket := { c.socket with writeShut := true } }

/-- `TcpConnection.cc:184–193`. -/
def shutdown (c : TcpConnection) (inLoop : Bool) : TcpConnection :=
  if c.state = .kConnected then
    let c := { c with state := .kDisconnecting }
    if inLoop then c.shutdownInLoop else c.queueInLoop .shutdownInLoop
  else c

/-- `TcpConnection.cc:398–411`. The last statement names `guardThis` and does not call
`closeCallback_`. -/
def handleClose (c : TcpConnection) : Option TcpConnection :=
  if c.closable then some { c with state := .kDisconnected, channel := c.channel.disableAll }
  else none

/-- `TcpConnection.cc:229–237`. -/
def forceClose (c : TcpConnection) : TcpConnection :=
  if c.closable then { c with state := .kDisconnecting }.queueInLoop .forceCloseInLoop else c

/-- `TcpConnection.cc:251–259`. -/
def forceCloseInLoop (c : TcpConnection) : Option TcpConnection :=
  if c.closable then c.handleClose else some c

/-- `TcpConnection.cc:288–296`. -/
def startReadInLoop (c : TcpConnection) : TcpConnection :=
  if !c.reading || !c.channel.reading then
    { c with channel := c.channel.enableReading, reading := true }
  else c

/-- `TcpConnection.cc:303–311`. -/
def stopReadInLoop (c : TcpConnection) : TcpConnection :=
  if c.reading || c.channel.reading then
    { c with channel := c.channel.disableReading, reading := false }
  else c

/-- `TcpConnection.cc:313–322`. -/
def connectEstablished (c : TcpConnection) : Option TcpConnection :=
  if c.state = .kConnecting then
    some { c with state := .kConnected, channel := c.channel.enableReading }
  else none

/-- `TcpConnection.cc:324–335`. -/
def connectDestroyed (c : TcpConnection) : Option TcpConnection := do
  let c := if c.state = .kConnected then
    { c with state := .kDisconnected, channel := c.channel.disableAll } else c
  let channel ← c.channel.remove
  some { c with channel }

/-- `TcpConnection.cc:337–356`. -/
def handleRead (c : TcpConnection) : ReadResult → Option TcpConnection
  | .bytes _ => some c
  | .eof => c.handleClose
  | .error => some c

/-- The output buffer has become empty; lines 371–379. -/
def written (c : TcpConnection) : TcpConnection :=
  let c := { c with channel := c.channel.disableWriting }.queueIf c.writeCompleteCallback
    .writeComplete
  if c.state = .kDisconnecting then c.shutdownInLoop else c

/-- `TcpConnection.cc:358–396`. -/
def handleWrite (c : TcpConnection) (k : WriteResult) : Option TcpConnection :=
  if c.channel.writing then
    match c.socket.write c.outputBuffer.readable k with
    | (socket, .ok n) =>
      if 0 < n then do
        let outputBuffer ← c.outputBuffer.retrieve n
        let c := { c with socket, outputBuffer }
        if c.outputBuffer.readableBytes = 0 then some c.written else some c
      else some { c with socket }
    | (socket, .error _) => some { c with socket }
  else some c

end TcpConnection

/-! ### Events -/

/-- What epoll reports; `EPOLLRDHUP` is never asked for. -/
structure Revents where
  hup : Bool := false
  err : Bool := false
  input : Bool := false
  pri : Bool := false
  output : Bool := false
  deriving DecidableEq, Repr

/-- What is asked for can be reported, and a hang-up or an error always, while the channel is
in the epoll set. -/
def Revents.reported (r : Revents) (ch : Channel) : Bool :=
  ch.index = .kAdded && (!(r.input || r.pri) || ch.reading) && (!r.output || ch.writing)

/-- `Channel.cc:73–105`, with the callbacks of a connection; `handleError` only logs. -/
def TcpConnection.handleEvent (c : TcpConnection) (r : Revents) (n : ReadResult)
    (k : WriteResult) : Option TcpConnection := do
  let c ← (if r.hup && !r.input then c.handleClose else some c)
  let c ← (if r.input || r.pri then c.handleRead n else some c)
  if r.output then c.handleWrite k else some c

/-- One step of a connection. -/
inductive ConnEvent where
  | send (inLoop : Bool) (message : List UInt8) (k : WriteResult)
  | shutdown (inLoop : Bool)
  | forceClose
  | startRead (inLoop : Bool)
  | stopRead (inLoop : Bool)
  /-- The loop runs the oldest functor of the connection. -/
  | functor (k : WriteResult)
  | channel (r : Revents) (n : ReadResult) (k : WriteResult)
  deriving DecidableEq, Repr

namespace TcpConnection

def runFunctor (c : TcpConnection) (k : WriteResult) : Functor → Option TcpConnection
  | .connectEstablished => c.connectEstablished
  | .sendInLoop message => c.sendInLoop message k
  | .shutdownInLoop => some c.shutdownInLoop
  | .forceCloseInLoop => c.forceCloseInLoop
  | .startReadInLoop => some c.startReadInLoop
  | .stopReadInLoop => some c.stopReadInLoop
  | .writeComplete | .highWaterMark _ => some c
  | .connectDestroyed => c.connectDestroyed

/-- A step that cannot happen leaves the connection as it is. -/
def step (c : TcpConnection) : ConnEvent → Option TcpConnection
  | .send inLoop message k => c.send inLoop message k
  | .shutdown inLoop => some (c.shutdown inLoop)
  | .forceClose => some c.forceClose
  | .startRead inLoop =>
    some (if inLoop then c.startReadInLoop else c.queueInLoop .startReadInLoop)
  | .stopRead inLoop =>
    some (if inLoop then c.stopReadInLoop else c.queueInLoop .stopReadInLoop)
  | .functor k =>
    match c.pending with
    | [] => some c
    | f :: rest => { c with pending := rest }.runFunctor k f
  | .channel r n k => if r.reported c.channel then c.handleEvent r n k else some c

end TcpConnection

/-! ### What queueing leaves alone -/

namespace TcpConnection

variable (c : TcpConnection) (p : Bool) (f : Functor)

/-- Queueing keeps the state. -/
@[simp]
theorem queueIf_state : (c.queueIf p f).state = c.state := by cases p <;> rfl

/-- Queueing keeps the channel. -/
@[simp]
theorem queueIf_channel : (c.queueIf p f).channel = c.channel := by cases p <;> rfl

/-- Queueing keeps the socket. -/
@[simp]
theorem queueIf_socket : (c.queueIf p f).socket = c.socket := by cases p <;> rfl

/-- Queueing keeps the output. -/
@[simp]
theorem queueIf_outputBuffer : (c.queueIf p f).outputBuffer = c.outputBuffer := by
  cases p <;> rfl

end TcpConnection

/-- The interest in writing is dropped. -/
@[simp]
theorem Channel.writing_disableWriting (c : Channel) : c.disableWriting.writing = false := rfl

/-! ### What closes a connection -/

/-- The step executes `handleClose`. -/
def ConnEvent.Closes (c : TcpConnection) : ConnEvent → Prop
  | .functor _ => c.pending.head? = some .forceCloseInLoop ∧ c.closable = true
  | .channel r n _ => r.reported c.channel = true ∧
    (r.hup = true ∧ r.input = false ∨ (r.input = true ∨ r.pri = true) ∧ n = .eof)
  | _ => False

instance (c : TcpConnection) : (e : ConnEvent) → Decidable (e.Closes c)
  | .functor _ => inferInstanceAs (Decidable (_ ∧ _))
  | .channel _ _ _ => inferInstanceAs (Decidable (_ ∧ _))
  | .send _ _ _ | .shutdown _ | .forceClose | .startRead _ | .stopRead _ => .isFalse id

namespace TcpConnection

/-- The connection is open after a function exactly when it was before, and the function has
not queued `connectDestroyed`. -/
structure Quiet (c c' : TcpConnection) : Prop where
  name : c'.name = c.name
  state : c'.state = .kDisconnected ↔ c.state = .kDisconnected
  pending : .connectDestroyed ∈ c'.pending → .connectDestroyed ∈ c.pending

section Quiet

variable {c c' c'' : TcpConnection}

/-- Nothing happens. -/
theorem Quiet.refl (c : TcpConnection) : c.Quiet c := ⟨rfl, Iff.rfl, id⟩

private theorem Quiet.trans (h : c.Quiet c') (h' : c'.Quiet c'') : c.Quiet c'' :=
  ⟨h'.name.trans h.name, h'.state.trans h.state, h.pending ∘ h'.pending⟩

private theorem quiet_queueInLoop {f : Functor} (hf : f ≠ .connectDestroyed) :
    c.Quiet (c.queueInLoop f) :=
  ⟨rfl, Iff.rfl, fun h => by simpa [queueInLoop, hf.symm] using h⟩

private theorem quiet_queueIf (p : Bool) {f : Functor} (hf : f ≠ .connectDestroyed) :
    c.Quiet (c.queueIf p f) := by
  cases p
  · exact .refl c
  · exact quiet_queueInLoop hf

private theorem quiet_shutdownInLoop : c.Quiet c.shutdownInLoop := by
  unfold shutdownInLoop
  split
  · exact .refl c
  · exact ⟨rfl, Iff.rfl, id⟩

private theorem quiet_startReadInLoop : c.Quiet c.startReadInLoop := by
  unfold startReadInLoop
  split
  · exact ⟨rfl, Iff.rfl, id⟩
  · exact .refl c

private theorem quiet_stopReadInLoop : c.Quiet c.stopReadInLoop := by
  unfold stopReadInLoop
  split
  · exact ⟨rfl, Iff.rfl, id⟩
  · exact .refl c

private theorem quiet_shutdown (inLoop : Bool) : c.Quiet (c.shutdown inLoop) := by
  unfold shutdown
  split
  · next hs =>
    have h : c.Quiet { c with state := .kDisconnecting } := ⟨rfl, by simp [hs], id⟩
    cases inLoop
    · exact h.trans (quiet_queueInLoop nofun)
    · exact h.trans quiet_shutdownInLoop
  · exact .refl c

/-- `handleClose` asserts one of two states. -/
theorem closable_iff : c.closable = true ↔ c.state = .kConnected ∨ c.state = .kDisconnecting := by
  simp [closable]

private theorem quiet_forceClose : c.Quiet c.forceClose := by
  unfold forceClose
  split
  · next hs =>
    have h : c.Quiet { c with state := .kDisconnecting } :=
      ⟨rfl, by rcases closable_iff.mp hs with h | h <;> simp [h], id⟩
    exact h.trans (quiet_queueInLoop nofun)
  · exact .refl c

private theorem quiet_writeDirect (data : List UInt8) (k : WriteResult) :
    c.Quiet (c.writeDirect data k).1 := by
  unfold writeDirect
  split
  · split
    · next socket nwrote _ =>
      have h : c.Quiet { c with socket } := ⟨rfl, Iff.rfl, id⟩
      exact h.trans (quiet_queueIf _ nofun)
    · exact ⟨rfl, Iff.rfl, id⟩
  · exact .refl c

private theorem quiet_keep {rest : List UInt8} (h : c.keep rest = some c') : c.Quiet c' := by
  simp only [keep, Option.bind_eq_bind, Option.bind_eq_some_iff, Option.some.injEq] at h
  obtain ⟨buf, -, rfl⟩ := h
  obtain ⟨hname, hstate, hpending⟩ := quiet_queueIf (c := c)
    (c.highWaterMark ≤ c.outputBuffer.readableBytes + rest.length &&
      c.outputBuffer.readableBytes < c.highWaterMark && c.highWaterMarkCallback)
    (f := .highWaterMark (c.outputBuffer.readableBytes + rest.length)) nofun
  exact ⟨hname, hstate, hpending⟩

private theorem quiet_sendInLoop {data : List UInt8} {k : WriteResult}
    (h : c.sendInLoop data k = some c') : c.Quiet c' := by
  have hd := quiet_writeDirect (c := c) data k
  unfold sendInLoop at h
  split at h
  · exact Option.some.inj h ▸ .refl c
  · dsimp only at h
    split at h
    · exact hd.trans (quiet_keep h)
    · exact Option.some.inj h ▸ hd

private theorem quiet_send {inLoop : Bool} {message : List UInt8} {k : WriteResult}
    (h : c.send inLoop message k = some c') : c.Quiet c' := by
  unfold send at h
  split at h
  · split at h
    · exact quiet_sendInLoop h
    · exact Option.some.inj h ▸ quiet_queueInLoop nofun
  · exact Option.some.inj h ▸ .refl c

private theorem quiet_written : c.Quiet c.written := by
  have h : c.Quiet { c with channel := c.channel.disableWriting } := ⟨rfl, Iff.rfl, id⟩
  have h' := h.trans (quiet_queueIf c.writeCompleteCallback (f := .writeComplete) nofun)
  unfold written
  dsimp only
  split
  · exact h'.trans quiet_shutdownInLoop
  · exact h'

/-- A write changes no state. -/
theorem quiet_handleWrite {k : WriteResult} (h : c.handleWrite k = some c') : c.Quiet c' := by
  unfold handleWrite at h
  split at h
  · split at h
    · next socket n _ =>
      split at h
      · simp only [Option.bind_eq_bind, Option.bind_eq_some_iff] at h
        obtain ⟨outputBuffer, -, h⟩ := h
        have hq : c.Quiet { c with socket, outputBuffer } := ⟨rfl, Iff.rfl, id⟩
        split at h
        · exact Option.some.inj h ▸ hq.trans quiet_written
        · exact Option.some.inj h ▸ hq
      · exact Option.some.inj h ▸ ⟨rfl, Iff.rfl, id⟩
    · exact Option.some.inj h ▸ ⟨rfl, Iff.rfl, id⟩
  · exact Option.some.inj h ▸ .refl c

private theorem quiet_connectEstablished (h : c.connectEstablished = some c') : c.Quiet c' := by
  unfold connectEstablished at h
  split at h
  · next hs => exact Option.some.inj h ▸ ⟨rfl, by simp [hs], id⟩
  · cases h

/-- What a close does. -/
theorem handleClose_eq_some (h : c.handleClose = some c') :
    c.closable = true ∧
      c' = { c with state := .kDisconnected, channel := c.channel.disableAll } := by
  unfold handleClose at h
  split at h
  · next hs => exact ⟨hs, (Option.some.inj h).symm⟩
  · cases h

/-- Reading closes the connection at the end of the stream, and only there. -/
theorem handleRead_spec {n : ReadResult} (h : c.handleRead n = some c') :
    n = .eof ∧ c.handleClose = some c' ∨ n ≠ .eof ∧ c' = c := by
  cases n with
  | bytes _ => exact .inr ⟨nofun, (Option.some.inj h).symm⟩
  | eof => exact .inl ⟨rfl, h⟩
  | error => exact .inr ⟨nofun, (Option.some.inj h).symm⟩

/-- An event closes the connection when it hangs up without input, or when the input has
ended. -/
theorem handleEvent_spec {r : Revents} {n : ReadResult} {k : WriteResult}
    (h : c.handleEvent r n k = some c') :
    (∃ c₁, c.handleClose = some c₁ ∧ c₁.Quiet c' ∧
      (r.hup = true ∧ r.input = false ∨ (r.input = true ∨ r.pri = true) ∧ n = .eof)) ∨
    c.Quiet c' ∧
      ¬ (r.hup = true ∧ r.input = false ∨ (r.input = true ∨ r.pri = true) ∧ n = .eof) := by
  simp only [handleEvent, Option.bind_eq_bind, Option.bind_eq_some_iff] at h
  obtain ⟨c₁, h₁, c₂, h₂, h₃⟩ := h
  have hq : c₂.Quiet c' := by
    split at h₃
    · exact quiet_handleWrite h₃
    · exact Option.some.inj h₃ ▸ .refl c₂
  by_cases hup : r.hup = true ∧ r.input = false
  · rw [if_pos (by simp [hup])] at h₁
    refine .inl ⟨c₁, h₁, ?_, .inl hup⟩
    split at h₂
    · obtain ⟨-, hclose⟩ | ⟨-, rfl⟩ := handleRead_spec h₂
      · -- it has been closed already
        obtain ⟨-, rfl⟩ := handleClose_eq_some h₁
        cases (handleClose_eq_some hclose).1
      · exact hq
    · exact Option.some.inj h₂ ▸ hq
  · rw [if_neg (by simpa using hup)] at h₁
    obtain rfl := Option.some.inj h₁
    by_cases hin : r.input = true ∨ r.pri = true
    · rw [if_pos (by simpa using hin)] at h₂
      obtain ⟨hn, hclose⟩ | ⟨hn, rfl⟩ := handleRead_spec h₂
      · exact .inl ⟨c₂, hclose, hq, .inr ⟨hin, hn⟩⟩
      · exact .inr ⟨hq, by simp [hup, hn]⟩
    · rw [if_neg (by simpa using hin)] at h₂
      exact .inr ⟨Option.some.inj h₂ ▸ hq, by simp [hup, hin]⟩

/-- A functor other than `connectDestroyed` closes the connection when it is
`forceCloseInLoop` and the connection is open, and only then. -/
theorem runFunctor_spec {k : WriteResult} {f : Functor} (hf : f ≠ .connectDestroyed)
    (h : c.runFunctor k f = some c') :
    f = .forceCloseInLoop ∧ c.handleClose = some c' ∨
      c.Quiet c' ∧ ¬ (f = .forceCloseInLoop ∧ c.closable = true) := by
  cases f with
  | connectEstablished => exact .inr ⟨quiet_connectEstablished h, nofun⟩
  | sendInLoop message => exact .inr ⟨quiet_sendInLoop h, nofun⟩
  | shutdownInLoop => exact .inr ⟨Option.some.inj h ▸ quiet_shutdownInLoop, nofun⟩
  | forceCloseInLoop =>
    simp only [runFunctor, forceCloseInLoop] at h
    split at h
    · exact .inl ⟨rfl, h⟩
    · next hs => exact .inr ⟨Option.some.inj h ▸ .refl c, fun hc => hs hc.2⟩
  | startReadInLoop => exact .inr ⟨Option.some.inj h ▸ quiet_startReadInLoop, nofun⟩
  | stopReadInLoop => exact .inr ⟨Option.some.inj h ▸ quiet_stopReadInLoop, nofun⟩
  | writeComplete => exact .inr ⟨Option.some.inj h ▸ .refl c, nofun⟩
  | highWaterMark _ => exact .inr ⟨Option.some.inj h ▸ .refl c, nofun⟩
  | connectDestroyed => exact absurd rfl hf

/-- A step closes the connection exactly when it executes `handleClose`; nothing queues
`connectDestroyed`. -/
theorem step_spec {e : ConnEvent} (h : c.step e = some c')
    (hd : .connectDestroyed ∉ c.pending) :
    c'.name = c.name ∧ .connectDestroyed ∉ c'.pending ∧
      (c'.state = .kDisconnected ↔ c.state = .kDisconnected ∨ e.Closes c) := by
  have of_quiet : c.Quiet c' → ¬ e.Closes c → c'.name = c.name ∧
      .connectDestroyed ∉ c'.pending ∧
      (c'.state = .kDisconnected ↔ c.state = .kDisconnected ∨ e.Closes c) :=
    fun hq hc => ⟨hq.name, mt hq.pending hd, by rw [hq.state, or_iff_left hc]⟩
  cases e with
  | send inLoop message k => exact of_quiet (quiet_send h) id
  | shutdown inLoop => exact of_quiet (Option.some.inj h ▸ quiet_shutdown inLoop) id
  | forceClose => exact of_quiet (Option.some.inj h ▸ quiet_forceClose) id
  | startRead inLoop =>
    refine of_quiet (Option.some.inj h ▸ ?_) id
    split
    · exact quiet_startReadInLoop
    · exact quiet_queueInLoop nofun
  | stopRead inLoop =>
    refine of_quiet (Option.some.inj h ▸ ?_) id
    split
    · exact quiet_stopReadInLoop
    · exact quiet_queueInLoop nofun
  | functor k =>
    simp only [step] at h
    split at h
    · next hp => exact of_quiet (Option.some.inj h ▸ .refl c) (by simp [ConnEvent.Closes, hp])
    · next f rest hp =>
      rw [hp, List.mem_cons, not_or] at hd
      have hcloses : (ConnEvent.functor k).Closes c ↔
          f = .forceCloseInLoop ∧ c.closable = true := by simp [ConnEvent.Closes, hp]
      obtain ⟨rfl, hclose⟩ | ⟨hq, hn⟩ := runFunctor_spec (Ne.symm hd.1) h
      · obtain ⟨hs, rfl⟩ := handleClose_eq_some hclose
        exact ⟨rfl, hd.2, iff_of_true rfl (.inr (hcloses.mpr ⟨rfl, hs⟩))⟩
      · refine ⟨hq.name, mt hq.pending hd.2, hq.state.trans ?_⟩
        rw [or_iff_left (mt hcloses.mp hn)]
  | channel r n k =>
    simp only [step] at h
    split at h
    · next hr =>
      obtain ⟨c₁, hclose, hq, hn⟩ | ⟨hq, hn⟩ := handleEvent_spec h
      · obtain ⟨-, rfl⟩ := handleClose_eq_some hclose
        exact ⟨hq.name, mt hq.pending hd, iff_of_true (hq.state.mpr rfl) (.inr ⟨hr, hn⟩)⟩
      · exact of_quiet hq fun hc => hn hc.2
    · next hr => exact of_quiet (Option.some.inj h ▸ .refl c) fun hc => hr hc.1

end Quiet

end TcpConnection

end IMServer.Reactor
