import IMServer.Base.Run
import IMServer.Reactor.Connection

/-!
# The output stream of a connection

What the kernel has taken from a connection, followed by what waits in its output buffer, is
what its calls of `sendInLoop` were given (`server/src/TcpConnection.cc:82–182`, `358–396`),
whatever the kernel takes at each `write`, as long as the connection is open.
-/

namespace IMServer.Reactor

open IMServer.Base IMServer.Net IMServer.Business

/-- A result of `write` other than the two errors after which `sendInLoop` gives up. -/
def WriteResult.Benign (k : WriteResult) : Prop := k ≠ .error .EPIPE ∧ k ≠ .error .ECONNRESET

instance (k : WriteResult) : Decidable k.Benign := inferInstanceAs (Decidable (_ ∧ _))

/-- The result of `write` that an event brings. -/
def ConnEvent.Benign : ConnEvent → Prop
  | .send _ _ k | .functor k | .channel _ _ k => k.Benign
  | _ => True

instance : (e : ConnEvent) → Decidable e.Benign
  | .send _ _ k | .functor k | .channel _ _ k => inferInstanceAs (Decidable k.Benign)
  | .shutdown _ | .forceClose | .startRead _ | .stopRead _ => .isTrue trivial

/-- The data a functor gives to `sendInLoop`, if it calls it. -/
def Functor.sent : Functor → List (List UInt8)
  | .sendInLoop message => [message]
  | _ => []

namespace TcpConnection

/-- The kernel has taken, and the output buffer holds, what the calls of `sendInLoop` were
given; the channel waits to write exactly while the buffer holds something. -/
structure Streams (c : TcpConnection) (executed : List (List UInt8)) : Prop where
  wf : c.outputBuffer.WF
  bytes : c.socket.accepted ++ c.outputBuffer.readable = executed.flatten
  writing : c.channel.writing = true ↔ c.outputBuffer.readable ≠ []

section Functions

variable {c c' : TcpConnection} {executed : List (List UInt8)}

/-- A function that leaves the output alone. -/
theorem Streams.congr (h : c.Streams executed) (hb : c'.outputBuffer = c.outputBuffer)
    (hs : c'.socket.accepted = c.socket.accepted) (hw : c'.channel.writing = c.channel.writing) :
    c'.Streams executed :=
  ⟨by rw [hb]; exact h.wf, by rw [hb, hs]; exact h.bytes, by rw [hb, hw]; exact h.writing⟩

/-- A function that sends nothing. -/
theorem Streams.append_nil (h : c.Streams executed) : c.Streams (executed ++ []) := by
  rw [List.append_nil]
  exact h

private theorem Streams.queueInLoop (h : c.Streams executed) (f : Functor) :
    (c.queueInLoop f).Streams executed := h.congr rfl rfl rfl

private theorem Streams.queueIf (h : c.Streams executed) (p : Bool) (f : Functor) :
    (c.queueIf p f).Streams executed := by
  cases p
  · exact h
  · exact h.queueInLoop f

private theorem Streams.shutdownInLoop (h : c.Streams executed) :
    c.shutdownInLoop.Streams executed := by
  unfold TcpConnection.shutdownInLoop
  split
  · exact h
  · exact h.congr rfl rfl rfl

private theorem Streams.startReadInLoop (h : c.Streams executed) :
    c.startReadInLoop.Streams executed := by
  unfold TcpConnection.startReadInLoop
  split
  · exact h.congr rfl rfl rfl
  · exact h

private theorem Streams.stopReadInLoop (h : c.Streams executed) :
    c.stopReadInLoop.Streams executed := by
  unfold TcpConnection.stopReadInLoop
  split
  · exact h.congr rfl rfl rfl
  · exact h

private theorem Streams.shutdown (h : c.Streams executed) (inLoop : Bool) :
    (c.shutdown inLoop).Streams executed := by
  have h' : { c with state := .kDisconnecting }.Streams executed := h.congr rfl rfl rfl
  unfold TcpConnection.shutdown
  split
  · cases inLoop
    · exact h'.queueInLoop _
    · exact h'.shutdownInLoop
  · exact h

private theorem Streams.forceClose (h : c.Streams executed) : c.forceClose.Streams executed := by
  unfold TcpConnection.forceClose
  split
  · exact h.congr rfl rfl rfl
  · exact h

/-- The direct write takes an initial part of the data, and nothing while something waits in
the output buffer. -/
theorem writeDirect_spec (data : List UInt8) {k : WriteResult} (hk : k.Benign) :
    ∃ c₁ n, c.writeDirect data k = (c₁, n, false) ∧ n ≤ data.length ∧
      c₁.outputBuffer = c.outputBuffer ∧ c₁.channel = c.channel ∧
      c₁.socket.accepted = c.socket.accepted ++ data.take n ∧
      (n = 0 ∨ c.outputBuffer.readableBytes = 0) := by
  unfold writeDirect
  split
  · next hd =>
    simp only [Bool.and_eq_true, decide_eq_true_eq] at hd
    cases k with
    | wrote m =>
      refine ⟨_, _, rfl, Nat.min_le_right .., ?_, ?_, ?_, .inr hd.2⟩
      · exact queueIf_outputBuffer ..
      · exact queueIf_channel ..
      · rw [← List.take_eq_take_min, queueIf_socket]
    | error e =>
      have he : (decide (e = .EPIPE) || decide (e = .ECONNRESET)) = false := by
        simpa [WriteResult.Benign] using hk
      simp only [Socket.write, he]
      exact ⟨_, _, rfl, Nat.zero_le _, rfl, rfl, by simp, .inl rfl⟩
  · exact ⟨_, _, rfl, Nat.zero_le _, rfl, rfl, by simp, .inl rfl⟩

/-- What is kept is appended to the output buffer, and the channel waits to write. -/
theorem keep_spec (hwf : c.outputBuffer.WF) (rest : List UInt8) :
    ∃ c', c.keep rest = some c' ∧
      c'.outputBuffer.Rep (c.outputBuffer.readable ++ rest) ∧ c'.channel.writing = true ∧
      c'.socket.accepted = c.socket.accepted := by
  obtain ⟨b', hb, hrep⟩ := Buffer.append_spec ⟨hwf, rfl⟩ rest
  simp only [keep, hb, Option.bind_eq_bind, Option.bind_some]
  refine ⟨_, rfl, hrep, ?_, ?_⟩
  · split
    · next h => exact h
    · rfl
  · rw [queueIf_socket]

/-- `sendInLoop` on an open connection adds its data to the stream. -/
theorem Streams.sendInLoop (h : c.Streams executed) (hs : c.state ≠ .kDisconnected)
    (data : List UInt8) {k : WriteResult} (hk : k.Benign) :
    ∃ c', c.sendInLoop data k = some c' ∧ c'.Streams (executed ++ [data]) := by
  obtain ⟨c₁, n, hd, hn, hbuf, hch, hacc, hor⟩ := writeDirect_spec (c := c) data hk
  have hempty : n = 0 ∨ c.outputBuffer.readable = [] := by
    refine hor.imp_right fun hr => List.eq_nil_of_length_eq_zero ?_
    rw [Buffer.length_readable h.wf, hr]
  have hstream : c₁.socket.accepted ++ (c.outputBuffer.readable ++ data.drop n) =
      (executed ++ [data]).flatten := by
    rw [hacc, List.flatten_append, List.flatten_singleton, ← h.bytes]
    rcases hempty with rfl | hr
    · simp
    · simp [hr]
  simp only [TcpConnection.sendInLoop, if_neg hs, hd, Bool.not_false, Bool.true_and,
    decide_eq_true_eq]
  by_cases hrest : 0 < data.length - n
  · rw [if_pos hrest]
    have hwf₁ : c₁.outputBuffer.WF := by rw [hbuf]; exact h.wf
    obtain ⟨c', hkeep, hrep, hwriting, hsocket⟩ := keep_spec hwf₁ (data.drop n)
    rw [hbuf] at hrep
    refine ⟨c', hkeep, hrep.wf, ?_, ?_⟩
    · rw [hrep.readable_eq, hsocket]
      exact hstream
    · rw [hrep.readable_eq]
      refine iff_of_true hwriting fun hnil => ?_
      have hlen := congrArg List.length hnil
      simp only [List.length_append, List.length_drop, List.length_nil] at hlen
      omega
  · rw [if_neg hrest]
    rw [List.drop_of_length_le (by omega), List.append_nil] at hstream
    exact ⟨c₁, rfl, by rw [hbuf]; exact h.wf, by rw [hbuf]; exact hstream,
      by rw [hbuf, hch]; exact h.writing⟩

/-- When the last byte has been written, the channel stops waiting to write. -/
theorem Streams.written (hwf : c.outputBuffer.WF) (hr : c.outputBuffer.readable = [])
    (hb : c.socket.accepted = executed.flatten) : c.written.Streams executed := by
  have h : { c with channel := c.channel.disableWriting }.Streams executed :=
    ⟨hwf, by rw [hr, hb, List.append_nil], by simp [Channel.disableWriting, Channel.update, hr]⟩
  have h' := h.queueIf c.writeCompleteCallback .writeComplete
  unfold TcpConnection.written
  dsimp only
  split
  · exact h'.shutdownInLoop
  · exact h'

/-- `handleWrite` moves an initial part of the output buffer to the kernel. -/
theorem Streams.handleWrite (h : c.Streams executed) (k : WriteResult) :
    ∃ c', c.handleWrite k = some c' ∧ c'.Streams executed := by
  unfold TcpConnection.handleWrite
  split
  · next hw =>
    cases k with
    | error e => exact ⟨_, rfl, h⟩
    | wrote m =>
      simp only [Socket.write]
      obtain ⟨b', hb, hrep⟩ := Buffer.retrieve_spec ⟨h.wf, rfl⟩
        (Nat.min_le_right m c.outputBuffer.readable.length)
      rw [List.take_eq_take_min]
      have hbytes : c.socket.accepted ++
          c.outputBuffer.readable.take (min m c.outputBuffer.readable.length) ++
          b'.readable = executed.flatten := by
        rw [hrep.readable_eq, List.append_assoc, List.take_append_drop, h.bytes]
      split
      · simp only [hb, Option.bind_eq_bind, Option.bind_some]
        split
        · next hz =>
          have hnil : b'.readable = [] := by
            refine List.eq_nil_of_length_eq_zero ?_
            rw [Buffer.length_readable hrep.wf, hz]
          refine ⟨_, rfl, .written hrep.wf hnil ?_⟩
          rw [hnil, List.append_nil] at hbytes
          exact hbytes
        · next hz =>
          refine ⟨_, rfl, hrep.wf, hbytes, iff_of_true hw fun hnil => hz ?_⟩
          rw [← Buffer.length_readable hrep.wf, hnil, List.length_nil]
      · next hm =>
        -- nothing was taken
        rw [Nat.eq_zero_of_not_pos hm, List.take_zero]
        exact ⟨_, rfl, h.congr rfl (List.append_nil _) rfl⟩
  · exact ⟨c, rfl, h⟩

end Functions

/-- The data of the call of `sendInLoop` that a step executes, if it executes one. -/
def executedBy (c : TcpConnection) : ConnEvent → List (List UInt8)
  | .send inLoop message _ => if c.state = .kConnected ∧ inLoop = true then [message] else []
  | .functor _ => c.pending.head?.elim [] Functor.sent
  | _ => []

/-- A connection with the data of the calls of `sendInLoop` executed so far. -/
def streamStep (s : TcpConnection × List (List UInt8)) (e : ConnEvent) :
    Option (TcpConnection × List (List UInt8)) :=
  (s.1.step e).map fun c => (c, s.2 ++ s.1.executedBy e)

section Steps

variable {c c' : TcpConnection} {executed : List (List UInt8)}

private theorem Streams.send (h : c.Streams executed) {inLoop : Bool} {message : List UInt8}
    {k : WriteResult} (hk : k.Benign) (hs : c.send inLoop message k = some c') :
    c'.Streams (executed ++ c.executedBy (.send inLoop message k)) := by
  simp only [TcpConnection.send] at hs
  simp only [executedBy]
  by_cases hc : c.state = .kConnected
  · rw [if_pos hc] at hs
    cases inLoop
    · rw [if_neg (by simp), List.append_nil]
      exact Option.some.inj hs ▸ h.queueInLoop _
    · rw [if_pos ⟨hc, rfl⟩]
      obtain ⟨c₁, h₁, hst⟩ := h.sendInLoop (by simp [hc]) message hk
      exact Option.some.inj (h₁.symm.trans hs) ▸ hst
  · rw [if_neg hc] at hs
    rw [if_neg fun hi => hc hi.1, List.append_nil]
    exact Option.some.inj hs ▸ h

/-- A functor that does not close the connection adds to the stream what it sends. -/
theorem Streams.runFunctor (h : c.Streams executed) (ho : c.state ≠ .kDisconnected)
    {k : WriteResult} (hk : k.Benign) {f : Functor} (hf : f ≠ .connectDestroyed)
    (hr : c.runFunctor k f = some c') (ho' : c'.state ≠ .kDisconnected) :
    c'.Streams (executed ++ f.sent) := by
  cases f with
  | sendInLoop message =>
    obtain ⟨c₁, h₁, hst⟩ := h.sendInLoop ho message hk
    exact Option.some.inj (h₁.symm.trans hr) ▸ hst
  | connectDestroyed => exact absurd rfl hf
  | forceCloseInLoop =>
    refine Streams.append_nil ?_
    simp only [TcpConnection.runFunctor, forceCloseInLoop] at hr
    split at hr
    · exact absurd (by rw [(handleClose_eq_some hr).2]) ho'
    · exact Option.some.inj hr ▸ h
  | connectEstablished =>
    refine Streams.append_nil ?_
    simp only [TcpConnection.runFunctor, connectEstablished] at hr
    split at hr
    · exact Option.some.inj hr ▸ h.congr rfl rfl rfl
    · cases hr
  | shutdownInLoop =>
    refine Streams.append_nil ?_
    exact Option.some.inj hr ▸ h.shutdownInLoop
  | startReadInLoop =>
    refine Streams.append_nil ?_
    exact Option.some.inj hr ▸ h.startReadInLoop
  | stopReadInLoop =>
    refine Streams.append_nil ?_
    exact Option.some.inj hr ▸ h.stopReadInLoop
  | writeComplete | highWaterMark _ =>
    refine Streams.append_nil ?_
    exact Option.some.inj hr ▸ h

/-- An event that does not close the connection moves bytes to the kernel at most. -/
theorem Streams.handleEvent (h : c.Streams executed) {r : Revents} {n : ReadResult}
    {k : WriteResult} (hr : c.handleEvent r n k = some c')
    (ho' : c'.state ≠ .kDisconnected) : c'.Streams executed := by
  obtain ⟨c₁, hclose, hq, -⟩ | ⟨-, hn⟩ := handleEvent_spec hr
  · obtain ⟨-, rfl⟩ := handleClose_eq_some hclose
    exact absurd (hq.state.mpr rfl) ho'
  rw [not_or] at hn
  simp only [TcpConnection.handleEvent, Option.bind_eq_bind, Option.bind_eq_some_iff] at hr
  obtain ⟨c₁, h₁, c₂, h₂, h₃⟩ := hr
  rw [if_neg (by simpa using hn.1)] at h₁
  obtain rfl := Option.some.inj h₁
  have heq : c₂ = c := by
    split at h₂
    · next hi =>
      obtain ⟨heof, -⟩ | ⟨-, heq⟩ := handleRead_spec h₂
      · exact absurd ⟨by simpa using hi, heof⟩ hn.2
      · exact heq
    · exact (Option.some.inj h₂).symm
  subst heq
  split at h₃
  · obtain ⟨c₃, hw, hst⟩ := h.handleWrite k
    exact Option.some.inj (hw.symm.trans h₃) ▸ hst
  · exact Option.some.inj h₃ ▸ h

/-- A step that leaves the connection open adds to the stream what it executes. -/
theorem Streams.step (h : c.Streams executed) (ho : c.state ≠ .kDisconnected)
    (hd : .connectDestroyed ∉ c.pending) {e : ConnEvent} (he : e.Benign)
    (hs : c.step e = some c') (ho' : c'.state ≠ .kDisconnected) :
    c'.Streams (executed ++ c.executedBy e) := by
  cases e with
  | send inLoop message k => exact h.send he hs
  | shutdown inLoop =>
    refine Streams.append_nil ?_
    exact Option.some.inj hs ▸ h.shutdown inLoop
  | forceClose =>
    refine Streams.append_nil ?_
    exact Option.some.inj hs ▸ h.forceClose
  | startRead inLoop =>
    refine Streams.append_nil (Option.some.inj hs ▸ ?_)
    split
    · exact h.startReadInLoop
    · exact h.queueInLoop _
  | stopRead inLoop =>
    refine Streams.append_nil (Option.some.inj hs ▸ ?_)
    split
    · exact h.stopReadInLoop
    · exact h.queueInLoop _
  | functor k =>
    simp only [TcpConnection.step] at hs
    split at hs
    · next hp =>
      rw [executedBy, hp, List.head?_nil, Option.elim_none, List.append_nil]
      exact Option.some.inj hs ▸ h
    · next f rest hp =>
      rw [hp, List.mem_cons, not_or] at hd
      rw [executedBy, hp, List.head?_cons, Option.elim_some]
      have hpop : { c with pending := rest }.Streams executed := h.congr rfl rfl rfl
      exact hpop.runFunctor ho he (Ne.symm hd.1) hs ho'
  | channel r n k =>
    refine Streams.append_nil ?_
    simp only [TcpConnection.step] at hs
    split at hs
    · exact h.handleEvent hs ho'
    · exact Option.some.inj hs ▸ h

end Steps

/-- What every run keeps. -/
structure StreamInv (s : TcpConnection × List (List UInt8)) : Prop where
  pending : .connectDestroyed ∉ s.1.pending
  streams : s.1.state ≠ .kDisconnected → s.1.Streams s.2

private theorem StreamInv.step {s s' : TcpConnection × List (List UInt8)} {e : ConnEvent}
    (h : StreamInv s) (he : e.Benign) (hs : streamStep s e = some s') : StreamInv s' := by
  simp only [streamStep, Option.map_eq_some_iff] at hs
  obtain ⟨c', hc, rfl⟩ := hs
  obtain ⟨-, hpending, hstate⟩ := step_spec hc h.pending
  refine ⟨hpending, fun ho' => ?_⟩
  have ho : s.1.state ≠ .kDisconnected := fun hd => ho' (hstate.mpr (.inl hd))
  exact (h.streams ho).step ho h.pending he hc ho'

/-- A connection as `newConnection` makes it, with what the user has set on it. -/
def fresh (name : String) (highWaterMark : Nat)
    (writeCompleteCallback highWaterMarkCallback : Bool) : TcpConnection :=
  { name, highWaterMark, writeCompleteCallback, highWaterMarkCallback,
    pending := [.connectEstablished] }

/-- Nothing has been sent. -/
theorem streamInv_fresh (name : String) (mark : Nat) (complete high : Bool) :
    StreamInv (fresh name mark complete high, []) :=
  have hrep := Buffer.rep_new kInitialSize
  ⟨by simp [fresh], fun _ => ⟨hrep.wf, hrep.readable_eq, by simp [fresh, hrep.readable_eq]⟩⟩

/-- In every state of every run in which the connection is open, the bytes taken by the kernel
followed by the content of the output buffer are the data of the executed calls of `sendInLoop`
in order, and the channel waits to write exactly while the buffer is not empty; neither
`sendInLoop` nor `handleWrite` fails there. -/
theorem output_stream_intact (name : String) (mark : Nat) (complete high : Bool)
    (events : List ConnEvent) (hb : ∀ e ∈ events, e.Benign) (c : TcpConnection)
    (executed : List (List UInt8))
    (h : run streamStep (fresh name mark complete high, []) events = some (c, executed))
    (ho : c.state ≠ .kDisconnected) :
    c.socket.accepted ++ c.outputBuffer.readable = executed.flatten ∧
      (c.channel.writing = true ↔ c.outputBuffer.readable ≠ []) ∧
      ∀ data k, k.Benign → (c.sendInLoop data k).isSome ∧ (c.handleWrite k).isSome := by
  have hinv := run_some_invariant StreamInv (fun s e s' hs he hstep => hs.step he hstep) events hb
    (streamInv_fresh name mark complete high) h
  have hst := hinv.streams ho
  refine ⟨hst.bytes, hst.writing, fun data k hk => ?_⟩
  obtain ⟨_, h₁, -⟩ := hst.sendInLoop ho data hk
  obtain ⟨_, h₂, -⟩ := hst.handleWrite k
  exact ⟨by rw [h₁]; rfl, by rw [h₂]; rfl⟩

/-- A message is sent in the loop and partly taken, a second one is queued by another thread
and kept behind the rest, and the kernel then takes five bytes. -/
def partialWrites : List ConnEvent :=
  [.functor (.wrote 0), .send true [1, 2, 3] (.wrote 1), .send false [4, 5, 6, 7] (.wrote 0),
    .functor (.error .EWOULDBLOCK), .channel { output := true } .error (.wrote 5)]

set_option maxRecDepth 8000 in
/-- Two sends of which the kernel takes a part. -/
theorem output_stream_partial :
    ∃ c, run streamStep (fresh "im-1" 4 true true, []) partialWrites =
        some (c, [[1, 2, 3], [4, 5, 6, 7]]) ∧ c.state = .kConnected ∧
      c.socket.accepted = [1, 2, 3, 4, 5, 6] ∧ c.outputBuffer.readable = [7] ∧
      (c.channel.writing = true ↔ c.outputBuffer.readable ≠ []) :=
  ⟨_, rfl, rfl, rfl, rfl,
    (output_stream_intact "im-1" 4 true true partialWrites (by decide) _ _ rfl nofun).2.1⟩

end TcpConnection

end IMServer.Reactor
