import IMServer.Reactor.InputBound
import IMServer.Reactor.LifeCycle

/-!
# Messages from one end of a connection to the other

`ProtobufCodec::send` at one end (`server/src/codec.h:62–69`, `TcpConnection.cc:82–182`, `358–396`)
and `ProtobufCodec::onMessage` at the other (`codec.cc:107–139`, `TcpConnection.cc:337–356`). The
network is a stream: what the kernel of the sender has taken arrives in order, in pieces of any
size. Threads other than the loop's queue what they send, so the loop's own messages may overtake
theirs; beyond that nothing is lost, repeated or reordered.
-/

namespace IMServer.Reactor

open IMServer.Base IMServer.Net IMServer.Business

/-- A functor that carries data to send. -/
def Functor.carries : Functor → Bool
  | .sendInLoop _ => true
  | _ => false

private theorem Functor.omitsUser_carries : OmitsUser carries := ⟨rfl, fun _ => rfl⟩

/-- The event is a call of `send`. -/
def ConnEvent.isSend : ConnEvent → Bool
  | .send _ _ _ => true
  | _ => false

namespace TcpConnection

/-! ### The queue of data -/

section Queue

variable {c c' : TcpConnection}

/-- The data queued by calls of `send` from other threads, call by call. -/
def outbox (c : TcpConnection) : List (List UInt8) := c.pending.flatMap Functor.sent

private theorem flatMap_sent_carries (fs : List Functor) :
    (fs.filter Functor.carries).flatMap Functor.sent = fs.flatMap Functor.sent := by
  induction fs with
  | nil => rfl
  | cons f fs ih => cases f <;> simp [List.filter_cons, Functor.carries, Functor.sent, ih]

private theorem Keeps.outbox (h : c.Keeps Functor.carries c') : c'.outbox = c.outbox := by
  unfold TcpConnection.outbox
  rw [← flatMap_sent_carries c'.pending, h.pending, flatMap_sent_carries]

private theorem keeps_queueInLoop (hwf : c.outputBuffer.WF) {f : Functor} (hf : f.carries = false) :
    c.Keeps Functor.carries (c.queueInLoop f) := (steady_queueInLoop hwf hf).toKeeps

private theorem keeps_shutdown (hwf : c.outputBuffer.WF) (inLoop : Bool) :
    c.Keeps Functor.carries (c.shutdown inLoop) := by
  have h : c.Keeps Functor.carries { c with state := .kDisconnecting } := ⟨hwf, rfl⟩
  unfold shutdown
  split
  · cases inLoop
    · exact h.trans (keeps_queueInLoop h.wf rfl)
    · exact h.trans (steady_shutdownInLoop h.wf).toKeeps
  · exact ⟨hwf, rfl⟩

private theorem keeps_forceClose (hwf : c.outputBuffer.WF) :
    c.Keeps Functor.carries c.forceClose := by
  have h : c.Keeps Functor.carries { c with state := .kDisconnecting } := ⟨hwf, rfl⟩
  unfold forceClose
  split
  · exact h.trans (keeps_queueInLoop h.wf rfl)
  · exact ⟨hwf, rfl⟩

private theorem keeps_handleClose (hwf : c.outputBuffer.WF) (h : c.handleClose = some c') :
    c.Keeps Functor.carries c' := by
  rw [(handleClose_eq_some h).2]
  exact ⟨hwf, rfl⟩

private theorem keeps_handleEvent (hwf : c.outputBuffer.WF) {r : Revents} {n : ReadResult}
    {k : WriteResult} (h : c.handleEvent r n k = some c') : c.Keeps Functor.carries c' := by
  simp only [handleEvent, Option.bind_eq_bind, Option.bind_eq_some_iff] at h
  obtain ⟨c₁, h₁, c₂, h₂, h₃⟩ := h
  have hk₁ : c.Keeps Functor.carries c₁ := by
    split at h₁
    · exact keeps_handleClose hwf h₁
    · exact Option.some.inj h₁ ▸ ⟨hwf, rfl⟩
  have hk₂ : c₁.Keeps Functor.carries c₂ := by
    split at h₂
    · obtain ⟨-, hclose⟩ | ⟨-, rfl⟩ := handleRead_spec h₂
      · exact keeps_handleClose hk₁.wf hclose
      · exact ⟨hk₁.wf, rfl⟩
    · exact Option.some.inj h₂ ▸ ⟨hk₁.wf, rfl⟩
  refine (hk₁.trans hk₂).trans ?_
  split at h₃
  · obtain ⟨c₃, hw, hs⟩ := steady_handleWrite Functor.omitsUser_carries hk₂.wf k
    exact Option.some.inj (hw.symm.trans h₃) ▸ hs.toKeeps
  · exact Option.some.inj h₃ ▸ ⟨hk₂.wf, rfl⟩

private theorem keeps_runFunctor (hwf : c.outputBuffer.WF) {k : WriteResult} {f : Functor}
    (hf : f ≠ .connectDestroyed) (h : c.runFunctor k f = some c') :
    c.Keeps Functor.carries c' := by
  cases f with
  | sendInLoop message =>
    obtain ⟨c₁, hr, hs⟩ := steady_sendInLoop Functor.omitsUser_carries hwf message k
    exact Option.some.inj (hr.symm.trans h) ▸ hs.toKeeps
  | connectDestroyed => exact absurd rfl hf
  | connectEstablished =>
    simp only [runFunctor, connectEstablished] at h
    split at h
    · exact Option.some.inj h ▸ ⟨hwf, rfl⟩
    · cases h
  | forceCloseInLoop =>
    simp only [runFunctor, forceCloseInLoop] at h
    split at h
    · exact keeps_handleClose hwf h
    · exact Option.some.inj h ▸ ⟨hwf, rfl⟩
  | shutdownInLoop => exact Option.some.inj h ▸ (steady_shutdownInLoop hwf).toKeeps
  | startReadInLoop => exact Option.some.inj h ▸ (steady_startReadInLoop hwf).toKeeps
  | stopReadInLoop => exact Option.some.inj h ▸ (steady_stopReadInLoop hwf).toKeeps
  | writeComplete | highWaterMark _ => exact Option.some.inj h ▸ ⟨hwf, rfl⟩

/-- A step other than a call of `send` takes from the queue what it executes, and adds nothing. -/
theorem outbox_step (hwf : c.outputBuffer.WF) (hd : .connectDestroyed ∉ c.pending) {e : ConnEvent}
    (he : e.isSend = false) (h : c.step e = some c') :
    c'.outputBuffer.WF ∧ c.executedBy e = c.outbox.take (c.executedBy e).length ∧
      c'.outbox = c.outbox.drop (c.executedBy e).length := by
  have of_keeps : c.executedBy e = [] → c.Keeps Functor.carries c' → c'.outputBuffer.WF ∧
      c.executedBy e = c.outbox.take (c.executedBy e).length ∧
      c'.outbox = c.outbox.drop (c.executedBy e).length := by
    intro hx hk
    rw [hx]
    exact ⟨hk.wf, rfl, hk.outbox⟩
  cases e with
  | send inLoop message k => cases he
  | shutdown inLoop => exact of_keeps rfl (Option.some.inj h ▸ keeps_shutdown hwf inLoop)
  | forceClose => exact of_keeps rfl (Option.some.inj h ▸ keeps_forceClose hwf)
  | startRead inLoop =>
    refine of_keeps rfl (Option.some.inj h ▸ ?_)
    split
    · exact (steady_startReadInLoop hwf).toKeeps
    · exact keeps_queueInLoop hwf rfl
  | stopRead inLoop =>
    refine of_keeps rfl (Option.some.inj h ▸ ?_)
    split
    · exact (steady_stopReadInLoop hwf).toKeeps
    · exact keeps_queueInLoop hwf rfl
  | functor k =>
    simp only [step] at h
    split at h
    · next hp =>
      exact of_keeps (by rw [executedBy, hp]; rfl) (Option.some.inj h ▸ ⟨hwf, rfl⟩)
    · next f rest hp =>
      rw [hp, List.mem_cons, not_or] at hd
      have hk := keeps_runFunctor (c := { c with pending := rest }) hwf (Ne.symm hd.1) h
      have hx : c.executedBy (.functor k) = f.sent := by rw [executedBy, hp]; rfl
      have ho : c.outbox = f.sent ++ rest.flatMap Functor.sent := by
        rw [outbox, hp, List.flatMap_cons]
      rw [hx, ho, List.take_left, List.drop_left]
      exact ⟨hk.wf, rfl, hk.outbox⟩
  | channel r n k =>
    refine of_keeps rfl ?_
    simp only [step] at h
    split at h
    · exact keeps_handleEvent hwf h
    · exact Option.some.inj h ▸ ⟨hwf, rfl⟩

/-- A call of `send` from another thread is queued. -/
theorem outbox_send (hwf : c.outputBuffer.WF) {inLoop : Bool} {message : List UInt8}
    {k : WriteResult} (h : c.send inLoop message k = some c') :
    c'.outputBuffer.WF ∧ c'.outbox =
      c.outbox ++ if c.state = .kConnected ∧ inLoop = false then [message] else [] := by
  unfold send at h
  by_cases hc : c.state = .kConnected
  · rw [if_pos hc] at h
    cases inLoop
    · rw [if_pos ⟨hc, rfl⟩]
      obtain rfl := Option.some.inj h
      exact ⟨hwf, by simp [outbox, queueInLoop, Functor.sent]⟩
    · rw [if_neg (by simp), List.append_nil]
      obtain ⟨c₁, hr, hs⟩ := steady_sendInLoop Functor.omitsUser_carries hwf message k
      obtain rfl := Option.some.inj (hr.symm.trans h)
      exact ⟨hs.wf, hs.toKeeps.outbox⟩
  · rw [if_neg hc] at h
    rw [if_neg fun hi => hc hi.1, List.append_nil]
    obtain rfl := Option.some.inj h
    exact ⟨hwf, rfl⟩

end Queue

/-! ### A closed connection is silent -/

/-- Nothing was given to the kernel, and the channel does not wait to write. -/
structure Mute (c c' : TcpConnection) : Prop where
  accepted : c'.socket.accepted = c.socket.accepted
  writing : c'.channel.writing = false

section Mute

variable {c c' c'' : TcpConnection}

private theorem Mute.trans (h : c.Mute c') (h' : c'.Mute c'') : c.Mute c'' :=
  ⟨h'.accepted.trans h.accepted, h'.writing⟩

private theorem mute_handleClose (h : c.handleClose = some c') : c.Mute c' := by
  rw [(handleClose_eq_some h).2]
  exact ⟨rfl, rfl⟩

private theorem mute_handleWrite (hw : c.channel.writing = false) {k : WriteResult}
    (h : c.handleWrite k = some c') : c.Mute c' := by
  unfold handleWrite at h
  rw [if_neg (by simp [hw])] at h
  exact Option.some.inj h ▸ ⟨rfl, hw⟩

/-- An event that leaves the connection closed has written nothing. -/
theorem mute_handleEvent (hcl : c.state = .kDisconnected → c.channel.writing = false)
    {r : Revents} {n : ReadResult} {k : WriteResult} (h : c.handleEvent r n k = some c')
    (hc' : c'.state = .kDisconnected) : c.Mute c' := by
  simp only [handleEvent, Option.bind_eq_bind, Option.bind_eq_some_iff] at h
  obtain ⟨c₁, h₁, c₂, h₂, h₃⟩ := h
  have hm₁ : c₁ = c ∨ c.Mute c₁ := by
    split at h₁
    · exact .inr (mute_handleClose h₁)
    · exact .inl (Option.some.inj h₁).symm
  have hm₂ : c₂ = c ∨ c.Mute c₂ := by
    split at h₂
    · obtain ⟨-, hclose⟩ | ⟨-, rfl⟩ := handleRead_spec h₂
      · rcases hm₁ with rfl | hm₁
        · exact .inr (mute_handleClose hclose)
        · exact .inr (hm₁.trans (mute_handleClose hclose))
      · exact hm₁
    · exact Option.some.inj h₂ ▸ hm₁
  have hq : c₂.Quiet c' := by
    split at h₃
    · exact quiet_handleWrite h₃
    · exact Option.some.inj h₃ ▸ .refl c₂
  have hm : c.Mute c₂ := by
    rcases hm₂ with rfl | hm₂
    · exact ⟨rfl, hcl (hq.state.mp hc')⟩
    · exact hm₂
  split at h₃
  · exact hm.trans (mute_handleWrite hm.writing h₃)
  · exact Option.some.inj h₃ ▸ hm

private theorem mute_runFunctor (hcl : c.state = .kDisconnected → c.channel.writing = false)
    {k : WriteResult} {f : Functor} (hf : f ≠ .connectDestroyed)
    (h : c.runFunctor k f = some c') (hc' : c'.state = .kDisconnected) : c.Mute c' := by
  obtain ⟨-, hclose⟩ | ⟨hq, -⟩ := runFunctor_spec hf h
  · exact mute_handleClose hclose
  have hs := hq.state.mp hc'
  have hw := hcl hs
  cases f with
  | connectDestroyed => exact absurd rfl hf
  | connectEstablished => simp [runFunctor, connectEstablished, hs] at h
  | sendInLoop message =>
    simp only [runFunctor, sendInLoop, if_pos hs] at h
    exact Option.some.inj h ▸ ⟨rfl, hw⟩
  | forceCloseInLoop =>
    simp only [runFunctor, forceCloseInLoop, closable, hs, reduceCtorEq, decide_false,
      Bool.or_self, Bool.false_eq_true, if_false] at h
    exact Option.some.inj h ▸ ⟨rfl, hw⟩
  | shutdownInLoop =>
    refine Option.some.inj h ▸ ?_
    unfold shutdownInLoop
    split <;> exact ⟨rfl, hw⟩
  | startReadInLoop =>
    refine Option.some.inj h ▸ ?_
    unfold startReadInLoop
    split <;> exact ⟨rfl, hw⟩
  | stopReadInLoop =>
    refine Option.some.inj h ▸ ?_
    unfold stopReadInLoop
    split <;> exact ⟨rfl, hw⟩
  | writeComplete | highWaterMark _ => exact Option.some.inj h ▸ ⟨rfl, hw⟩

/-- A step that leaves the connection closed has given nothing to the kernel. -/
theorem mute_step (hcl : c.state = .kDisconnected → c.channel.writing = false)
    (hd : .connectDestroyed ∉ c.pending) {e : ConnEvent} (h : c.step e = some c')
    (hc' : c'.state = .kDisconnected) : c.Mute c' := by
  have hs := (step_spec h hd).2.2.mp hc'
  cases e with
  | send inLoop message k =>
    have hs := hs.resolve_right id
    simp only [step, send, hs, reduceCtorEq, if_false] at h
    exact Option.some.inj h ▸ ⟨rfl, hcl hs⟩
  | shutdown inLoop =>
    have hs := hs.resolve_right id
    simp only [step, shutdown, hs, reduceCtorEq, if_false] at h
    exact Option.some.inj h ▸ ⟨rfl, hcl hs⟩
  | forceClose =>
    have hs := hs.resolve_right id
    simp only [step, forceClose, closable, hs, reduceCtorEq, decide_false, Bool.or_self,
      Bool.false_eq_true, if_false] at h
    exact Option.some.inj h ▸ ⟨rfl, hcl hs⟩
  | startRead inLoop =>
    have hw := hcl (hs.resolve_right id)
    refine Option.some.inj h ▸ ?_
    split
    · unfold startReadInLoop
      split <;> exact ⟨rfl, hw⟩
    · exact ⟨rfl, hw⟩
  | stopRead inLoop =>
    have hw := hcl (hs.resolve_right id)
    refine Option.some.inj h ▸ ?_
    split
    · unfold stopReadInLoop
      split <;> exact ⟨rfl, hw⟩
    · exact ⟨rfl, hw⟩
  | functor k =>
    simp only [step] at h
    split at h
    · next hp =>
      obtain rfl := Option.some.inj h
      exact ⟨rfl, hcl hc'⟩
    · next f rest hp =>
      rw [hp, List.mem_cons, not_or] at hd
      have hm := mute_runFunctor (c := { c with pending := rest }) hcl (Ne.symm hd.1) h hc'
      exact ⟨hm.accepted, hm.writing⟩
  | channel r n k =>
    simp only [step] at h
    split at h
    · exact mute_handleEvent hcl h hc'
    · obtain rfl := Option.some.inj h
      exact ⟨rfl, hcl hc'⟩

end Mute

/-! ### The kernel only takes more -/

section Grows

variable {c c' : TcpConnection}

private theorem accepted_writeDirect (data : List UInt8) (k : WriteResult) :
    c.socket.accepted <+: (c.writeDirect data k).1.socket.accepted := by
  unfold writeDirect
  split
  · cases k with
    | wrote n =>
      rw [Socket.write, queueIf_socket]
      exact List.prefix_append _ _
    | error e => exact List.prefix_rfl
  · exact List.prefix_rfl

private theorem accepted_sendInLoop {data : List UInt8} {k : WriteResult}
    (h : c.sendInLoop data k = some c') : c.socket.accepted <+: c'.socket.accepted := by
  have hd := accepted_writeDirect (c := c) data k
  unfold sendInLoop at h
  split at h
  · exact Option.some.inj h ▸ List.prefix_rfl
  · dsimp only at h
    split at h
    · simp only [keep, Option.bind_eq_bind, Option.bind_eq_some_iff, Option.some.injEq] at h
      obtain ⟨b, -, rfl⟩ := h
      rw [queueIf_socket]
      exact hd
    · exact Option.some.inj h ▸ hd

private theorem accepted_shutdownInLoop : c.shutdownInLoop.socket.accepted = c.socket.accepted := by
  unfold shutdownInLoop
  split <;> rfl

private theorem accepted_written : c.written.socket.accepted = c.socket.accepted := by
  unfold written
  dsimp only
  split
  · rw [accepted_shutdownInLoop, queueIf_socket]
  · rw [queueIf_socket]

private theorem accepted_handleWrite {k : WriteResult} (h : c.handleWrite k = some c') :
    c.socket.accepted <+: c'.socket.accepted := by
  unfold handleWrite at h
  split at h
  · cases k with
    | error e => exact Option.some.inj h ▸ List.prefix_rfl
    | wrote n =>
      simp only [Socket.write] at h
      split at h
      · simp only [Option.bind_eq_bind, Option.bind_eq_some_iff] at h
        obtain ⟨b, -, h⟩ := h
        split at h
        · obtain rfl := Option.some.inj h
          rw [accepted_written]
          exact List.prefix_append _ _
        · exact Option.some.inj h ▸ List.prefix_append _ _
      · exact Option.some.inj h ▸ List.prefix_append _ _
  · exact Option.some.inj h ▸ List.prefix_rfl

private theorem accepted_handleClose (h : c.handleClose = some c') :
    c'.socket.accepted = c.socket.accepted := (mute_handleClose h).accepted

private theorem accepted_handleEvent {r : Revents} {n : ReadResult} {k : WriteResult}
    (h : c.handleEvent r n k = some c') : c.socket.accepted <+: c'.socket.accepted := by
  simp only [handleEvent, Option.bind_eq_bind, Option.bind_eq_some_iff] at h
  obtain ⟨c₁, h₁, c₂, h₂, h₃⟩ := h
  have ha₁ : c₁.socket.accepted = c.socket.accepted := by
    split at h₁
    · exact accepted_handleClose h₁
    · exact Option.some.inj h₁ ▸ rfl
  have ha₂ : c₂.socket.accepted = c₁.socket.accepted := by
    split at h₂
    · obtain ⟨-, hclose⟩ | ⟨-, rfl⟩ := handleRead_spec h₂
      · exact accepted_handleClose hclose
      · rfl
    · exact Option.some.inj h₂ ▸ rfl
  rw [← ha₁, ← ha₂]
  split at h₃
  · exact accepted_handleWrite h₃
  · exact Option.some.inj h₃ ▸ List.prefix_rfl

private theorem accepted_runFunctor {k : WriteResult} {f : Functor} (hf : f ≠ .connectDestroyed)
    (h : c.runFunctor k f = some c') : c.socket.accepted <+: c'.socket.accepted := by
  cases f with
  | connectDestroyed => exact absurd rfl hf
  | sendInLoop message => exact accepted_sendInLoop h
  | connectEstablished =>
    simp only [runFunctor, connectEstablished] at h
    split at h
    · exact Option.some.inj h ▸ List.prefix_rfl
    · cases h
  | forceCloseInLoop =>
    simp only [runFunctor, forceCloseInLoop] at h
    split at h
    · rw [accepted_handleClose h]
    · exact Option.some.inj h ▸ List.prefix_rfl
  | shutdownInLoop =>
    obtain rfl := Option.some.inj h
    rw [accepted_shutdownInLoop]
  | startReadInLoop =>
    refine Option.some.inj h ▸ ?_
    unfold startReadInLoop
    split <;> exact List.prefix_rfl
  | stopReadInLoop =>
    refine Option.some.inj h ▸ ?_
    unfold stopReadInLoop
    split <;> exact List.prefix_rfl
  | writeComplete | highWaterMark _ => exact Option.some.inj h ▸ List.prefix_rfl

/-- What the kernel has taken is the beginning of what it has taken after a step. -/
theorem accepted_step (hd : .connectDestroyed ∉ c.pending) {e : ConnEvent}
    (h : c.step e = some c') : c.socket.accepted <+: c'.socket.accepted := by
  cases e with
  | send inLoop message k =>
    simp only [step, send] at h
    split at h
    · split at h
      · exact accepted_sendInLoop h
      · exact Option.some.inj h ▸ List.prefix_rfl
    · exact Option.some.inj h ▸ List.prefix_rfl
  | shutdown inLoop =>
    obtain rfl := Option.some.inj h
    unfold shutdown
    split
    · cases inLoop
      · exact List.prefix_rfl
      · exact (@accepted_shutdownInLoop { c with state := .kDisconnecting }) ▸ List.prefix_rfl
    · exact List.prefix_rfl
  | forceClose =>
    refine Option.some.inj h ▸ ?_
    unfold forceClose
    split <;> exact List.prefix_rfl
  | startRead inLoop =>
    refine Option.some.inj h ▸ ?_
    split
    · exact accepted_runFunctor (k := .wrote 0) (f := .startReadInLoop) (fun h => by cases h) rfl
    · exact List.prefix_rfl
  | stopRead inLoop =>
    refine Option.some.inj h ▸ ?_
    split
    · exact accepted_runFunctor (k := .wrote 0) (f := .stopReadInLoop) (fun h => by cases h) rfl
    · exact List.prefix_rfl
  | functor k =>
    simp only [step] at h
    split at h
    · exact Option.some.inj h ▸ List.prefix_rfl
    · next f rest hp =>
      rw [hp, List.mem_cons, not_or] at hd
      exact accepted_runFunctor (c := { c with pending := rest }) (Ne.symm hd.1) h
  | channel r n k =>
    simp only [step] at h
    split at h
    · exact accepted_handleEvent h
    · exact Option.some.inj h ▸ List.prefix_rfl

end Grows

/-! ### The sending end -/

/-- The data a step gives to `sendInLoop` while the connection is open; on a closed one
`sendInLoop` gives up. -/
def carriedOut (c : TcpConnection) (e : ConnEvent) : List (List UInt8) :=
  if c.state = .kDisconnected then [] else c.executedBy e

/-- What the kernel has taken is the beginning of the data carried out, also after the close. -/
structure Sends (c : TcpConnection) (executed : List (List UInt8)) : Prop where
  pending : .connectDestroyed ∉ c.pending
  streams : c.state ≠ .kDisconnected → c.Streams executed
  closed : c.state = .kDisconnected → c.channel.writing = false
  taken : c.socket.accepted <+: executed.flatten

private theorem Sends.step
    {c c' : TcpConnection} {executed : List (List UInt8)} (h : c.Sends executed)
    {e : ConnEvent} (he : e.Benign) (hs : c.step e = some c') :
    c'.Sends (executed ++ c.carriedOut e) := by
  obtain ⟨-, hpending, hstate⟩ := step_spec hs h.pending
  by_cases hc' : c'.state = .kDisconnected
  · have hm := mute_step h.closed h.pending hs hc'
    refine ⟨hpending, fun ho => absurd hc' ho, fun _ => hm.writing, ?_⟩
    rw [hm.accepted, List.flatten_append]
    exact h.taken.trans (List.prefix_append _ _)
  · have ho : c.state ≠ .kDisconnected := fun hd => hc' (hstate.mpr (.inl hd))
    have hst := (h.streams ho).step ho h.pending he hs hc'
    rw [carriedOut, if_neg ho]
    exact ⟨hpending, fun _ => hst, fun hd => absurd hd hc', ⟨_, hst.bytes⟩⟩

end TcpConnection

/-! ### The two ends -/

/-- The connection at each end, and the history of the messages. -/
structure Link (Msg : Type) where
  sender : TcpConnection
  receiver : Inbound
  /-- How many of the bytes the sender's kernel took have been read at the other end. -/
  arrived : Nat := 0
  /-- The messages sent on the connected sender, and whether the loop's thread sent them. -/
  posted : List (Bool × Msg) := []
  /-- The messages given to `sendInLoop`, in the order of its calls. -/
  executed : List (Bool × Msg) := []
  /-- The messages of other threads that are still queued. -/
  queued : List Msg := []
  /-- The calls of `messageCallback_` and `errorCallback_` at the receiver. -/
  received : List (Signal Msg ErrorCode) := []

/-- What happens at the two ends and between them. -/
inductive LinkEvent (Msg : Type) where
  /-- `ProtobufCodec::send` at the sender. -/
  | send (inLoop : Bool) (message : Msg) (k : WriteResult)
  | sender (e : ConnEvent)
  | receiver (e : ConnEvent)
  /-- The receiver reads at most this many of the bytes under way. -/
  | arrive (n : Nat)

namespace Link

variable {Msg : Type} (pb : Protobuf Msg)

/-- `codec.h:62–69`, with `TcpConnection.cc:103–122`. -/
def codecSend (c : TcpConnection) (inLoop : Bool) (message : Msg) (k : WriteResult) :
    Option TcpConnection := do
  let buf ← fillEmptyBuffer pb (.new kInitialSize) message
  c.send inLoop buf.readable k

/-- The history after a call of `send`, which does nothing unless the sender is connected. -/
def post (l : Link Msg) (inLoop : Bool) (message : Msg) : Link Msg :=
  if l.sender.state = .kConnected then
    let l := { l with posted := l.posted ++ [(inLoop, message)] }
    if inLoop then { l with executed := l.executed ++ [(true, message)] }
    else { l with queued := l.queued ++ [message] }
  else l

/-- The history after the loop has taken the oldest queued message, if it has. -/
def unqueue (l : Link Msg) (n : Nat) : Link Msg :=
  { l with
    executed := if l.sender.state = .kDisconnected then l.executed
      else l.executed ++ (l.queued.take n).map (Prod.mk false)
    queued := l.queued.drop n }

/-- The bytes of one read: what is under way, within the room `readFd` offers. -/
def underway (l : Link Msg) (n : Nat) : List UInt8 :=
  (l.sender.socket.accepted.drop l.arrived).take
    (min n (l.receiver.inputBuffer.writableBytes + kExtrabuf))

/-- `TcpConnection.cc:337–346` at the receiver, with what `onMessage` calls. -/
def arrive (l : Link Msg) (n : Nat) : Option (Link Msg) :=
  if l.underway n = [] ∨ ¬ Inbound.Readable l.receiver.conn then some l
  else do
    let buf ← l.receiver.inputBuffer.readFd (some (l.underway n))
    let (signals, _) ← onMessage pb buf
    let receiver ← l.receiver.handleRead pb (l.underway n)
    some { l with
      receiver, arrived := l.arrived + (l.underway n).length, received := l.received ++ signals }

/-- One step at either end. -/
def step (l : Link Msg) : LinkEvent Msg → Option (Link Msg)
  | .send inLoop message k => do
    let sender ← codecSend pb l.sender inLoop message k
    some { l.post inLoop message with sender }
  | .sender e => do
    let sender ← l.sender.step e
    some { l.unqueue (l.sender.executedBy e).length with sender }
  | .receiver e => do
    let conn ← l.receiver.conn.step e
    some { l with receiver := { l.receiver with conn } }
  | .arrive n => l.arrive pb n

/-- Messages that can be encoded are sent, through the codec only, and no `write` fails for
good. -/
def Allowed : LinkEvent Msg → Prop
  | .send _ message k => Transmissible pb message ∧ k.Benign
  | .sender e => e.isSend = false ∧ e.Benign
  | .receiver _ | .arrive _ => True

/-- The messages of one kind of thread. -/
def ofThread (inLoop : Bool) (xs : List (Bool × Msg)) : List (Bool × Msg) :=
  xs.filter fun x => x.1 == inLoop

/-- The bytes read so far have been drained: the calls they made, and what is left of them. -/
structure Receives (accepted : List UInt8) (arrived : Nat)
    (received : List (Signal Msg ErrorCode)) (buf : Buffer) : Prop where
  arrived_le : arrived ≤ accepted.length
  received_eq : received = ((frameDecoder pb).drain (accepted.take arrived)).1
  rest : buf.Rep ((frameDecoder pb).drain (accepted.take arrived)).2

/-- What every run keeps. -/
structure Inv (l : Link Msg) : Prop where
  wf : l.sender.outputBuffer.WF
  sends : l.sender.Sends (l.executed.map fun x => frame pb x.2)
  outbox : l.sender.outbox = l.queued.map (frame pb)
  transmissible : ∀ x ∈ l.posted, Transmissible pb x.2
  direct : ofThread true l.executed = ofThread true l.posted
  others : ofThread false l.executed <+: ofThread false l.posted
  others_open : l.sender.state ≠ .kDisconnected →
    ofThread false l.executed ++ l.queued.map (Prod.mk false) = ofThread false l.posted
  receives : Receives pb l.sender.socket.accepted l.arrived l.received l.receiver.inputBuffer

section Step

variable {pb} {l l' : Link Msg}

/-- Messages in two parts. -/
@[simp]
theorem ofThread_append (b : Bool) (xs ys : List (Bool × Msg)) :
    ofThread b (xs ++ ys) = ofThread b xs ++ ofThread b ys := List.filter_append ..

private theorem ofThread_map_mk (b : Bool) (ms : List Msg) :
    ofThread b (ms.map (Prod.mk b)) = ms.map (Prod.mk b) := by
  simp [ofThread, List.filter_eq_self]

private theorem ofThread_others (ms : List Msg) : ofThread true (ms.map (Prod.mk false)) = [] := by
  simp [ofThread, List.filter_eq_nil_iff]

/-- The messages given to `sendInLoop` were sent. -/
theorem Inv.executed_subset (h : l.Inv pb) {x : Bool × Msg} (hx : x ∈ l.executed) :
    x ∈ l.posted := by
  obtain ⟨b, m⟩ := x
  have hm : (b, m) ∈ ofThread b l.executed := List.mem_filter.mpr ⟨hx, by simp⟩
  cases b
  · exact (List.mem_filter.mp (h.others.subset hm)).1
  · rw [h.direct] at hm
    exact (List.mem_filter.mp hm).1

/-- The receiving end does not notice when the kernel of the sender takes more. -/
theorem Receives.mono {accepted accepted' : List UInt8} {arrived : Nat}
    {received : List (Signal Msg ErrorCode)} {buf : Buffer}
    (h : Receives pb accepted arrived received buf) (hx : accepted <+: accepted') :
    Receives pb accepted' arrived received buf := by
  obtain ⟨ys, rfl⟩ := hx
  have ha := h.arrived_le
  have ht : (accepted ++ ys).take arrived = accepted.take arrived :=
    List.take_append_of_le_length ha
  refine ⟨by rw [List.length_append]; omega, ?_, ?_⟩
  · rw [ht]
    exact h.received_eq
  · rw [ht]
    exact h.rest

/-- A call of `ProtobufCodec::send` is a call of `send` with the frame of the message. -/
theorem codecSend_eq {m : Msg} (hm : Transmissible pb m) (c : TcpConnection) (inLoop : Bool)
    (k : WriteResult) : codecSend pb c inLoop m k = c.step (.send inLoop (frame pb m) k) := by
  obtain ⟨b, hb, hr⟩ := fillEmptyBuffer_spec pb (Buffer.rep_new kInitialSize) rfl hm.length_le
  simp only [codecSend, hb, Option.bind_eq_bind, Option.bind_some, hr.readable_eq]
  rfl

private theorem Inv.send (h : l.Inv pb) {inLoop : Bool} {m : Msg} {k : WriteResult}
    (hm : Transmissible pb m) (hk : k.Benign)
    (hs : l.step pb (.send inLoop m k) = some l') : l'.Inv pb := by
  simp only [step, codecSend_eq hm, Option.bind_eq_bind, Option.bind_eq_some_iff,
    Option.some.injEq] at hs
  obtain ⟨c', hc', rfl⟩ := hs
  obtain ⟨hwf, hout⟩ := TcpConnection.outbox_send h.wf hc'
  have hsends := h.sends.step (e := .send inLoop (frame pb m) k) hk hc'
  obtain ⟨-, -, hstate⟩ := TcpConnection.step_spec hc' h.sends.pending
  have hopen : c'.state ≠ .kDisconnected → l.sender.state ≠ .kDisconnected :=
    fun ho hd => ho (hstate.mpr (.inl hd))
  have hrec := h.receives.mono (TcpConnection.accepted_step h.sends.pending hc')
  simp only [TcpConnection.carriedOut, TcpConnection.executedBy] at hsends
  rw [h.outbox] at hout
  have hpost : ∀ x ∈ l.posted ++ [(inLoop, m)], Transmissible pb x.2 := by
    intro x hx
    rcases List.mem_append.mp hx with hx | hx
    · exact h.transmissible x hx
    · rw [List.mem_singleton.mp hx]
      exact hm
  by_cases hc : l.sender.state = .kConnected
  · rw [if_neg (by simp [hc])] at hsends
    cases inLoop with
    | true =>
      simp only [hc, and_self, if_true, Bool.true_eq_false, and_false, if_false,
        List.append_nil] at hsends hout
      simp only [post, hc, if_true]
      refine ⟨hwf, ?_, hout, hpost, ?_, ?_, fun ho => ?_, hrec⟩
      · simpa using hsends
      · simp only [ofThread_append, h.direct]
      · simpa [ofThread] using h.others
      · simpa [ofThread] using h.others_open (hopen ho)
    | false =>
      simp only [hc, and_self, if_true, Bool.false_eq_true, and_false, if_false,
        List.append_nil] at hsends hout
      simp only [post, hc, if_true, Bool.false_eq_true, if_false]
      refine ⟨hwf, hsends, ?_, hpost, ?_, ?_, fun ho => ?_, hrec⟩
      · rw [hout, List.map_append]
        rfl
      · simpa [ofThread] using h.direct
      · rw [ofThread_append]
        exact h.others.trans (List.prefix_append _ _)
      · rw [ofThread_append, List.map_append, ← List.append_assoc, h.others_open (hopen ho)]
        rfl
  · simp only [hc, false_and, if_false, ite_self, List.append_nil] at hsends hout
    simp only [post, hc, if_false]
    refine ⟨hwf, hsends, hout, h.transmissible, h.direct, h.others,
      fun ho => h.others_open (hopen ho), hrec⟩

private theorem Inv.sender (h : l.Inv pb) {e : ConnEvent} (hsend : e.isSend = false) (he : e.Benign)
    (hs : l.step pb (.sender e) = some l') : l'.Inv pb := by
  simp only [step, Option.bind_eq_bind, Option.bind_eq_some_iff, Option.some.injEq] at hs
  obtain ⟨c', hc', rfl⟩ := hs
  obtain ⟨hwf, htaken, hout⟩ := TcpConnection.outbox_step h.wf h.sends.pending hsend hc'
  have hsends := h.sends.step he hc'
  obtain ⟨-, -, hstate⟩ := TcpConnection.step_spec hc' h.sends.pending
  have hrec := h.receives.mono (TcpConnection.accepted_step h.sends.pending hc')
  generalize (l.sender.executedBy e).length = n at htaken hout
  rw [h.outbox, ← List.map_take] at htaken
  rw [h.outbox, ← List.map_drop] at hout
  rw [TcpConnection.carriedOut] at hsends
  refine ⟨hwf, ?_, hout, h.transmissible, ?_, ?_, fun ho => ?_, hrec⟩
  · simp only [unqueue]
    split at hsends
    · next hd => simpa [hd] using hsends
    · next hd =>
      rw [htaken] at hsends
      simpa [hd, Function.comp_def] using hsends
  · simp only [unqueue]
    split
    · exact h.direct
    · rw [ofThread_append, ofThread_others, List.append_nil]
      exact h.direct
  · simp only [unqueue]
    split
    · exact h.others
    · next hd =>
      rw [ofThread_append, ofThread_map_mk, ← h.others_open hd]
      exact (List.prefix_append_right_inj _).mpr ((List.take_prefix n _).map _)
  · have hd : l.sender.state ≠ .kDisconnected := fun hd => ho (hstate.mpr (.inl hd))
    simp only [unqueue, if_neg hd]
    rw [ofThread_append, ofThread_map_mk, List.append_assoc, ← List.map_append,
      List.take_append_drop]
    exact h.others_open hd

private theorem Inv.transmissible_executed (h : l.Inv pb) :
    ∀ m ∈ l.executed.map Prod.snd, Transmissible pb m := by
  intro m hm
  obtain ⟨x, hx, rfl⟩ := List.mem_map.mp hm
  exact h.transmissible x (h.executed_subset hx)

/-- What has been received is the beginning of the messages given to `sendInLoop`. -/
theorem Inv.received_prefix (h : l.Inv pb) :
    ∃ got, l.received = got.map .item ∧ got <+: l.executed.map Prod.snd := by
  have hx : l.sender.socket.accepted.take l.arrived <+:
      ((l.executed.map Prod.snd).map (frame pb)).flatten := by
    refine (List.take_prefix _ _).trans ?_
    rw [List.map_map]
    exact h.sends.taken
  rw [h.receives.received_eq]
  exact drain_of_prefix pb h.transmissible_executed hx

/-- A read continues the drain of the bytes that have arrived. -/
theorem Inv.arrive (h : l.Inv pb) (n : Nat) : ∃ l', l.arrive pb n = some l' ∧ l'.Inv pb := by
  unfold Link.arrive
  split
  · exact ⟨l, rfl, h⟩
  have hroom : (l.underway n).length ≤ l.receiver.inputBuffer.writableBytes + kExtrabuf := by
    rw [underway, List.length_take]
    omega
  obtain ⟨b₁, h₁, hr₁⟩ := Buffer.readFd_spec h.receives.rest (some (l.underway n))
    (by intro data hd; cases hd; exact hroom)
  rw [Option.getD_some] at hr₁
  obtain ⟨b₂, h₂, hr₂⟩ := onMessage_spec pb hr₁
  simp only [Inbound.handleRead, h₁, h₂, Option.bind_eq_bind, Option.bind_some]
  refine ⟨_, rfl, h.wf, h.sends, h.outbox, h.transmissible, h.direct, h.others, h.others_open, ?_⟩
  obtain ⟨got, hgot, -⟩ := h.received_prefix
  have hn : firstError ((frameDecoder pb).drain
      (l.sender.socket.accepted.take l.arrived)).1 = none := by
    rw [← h.receives.received_eq, hgot]
    exact firstError_map_item got
  have ht : l.sender.socket.accepted.take (l.arrived + (l.underway n).length) =
      l.sender.socket.accepted.take l.arrived ++ l.underway n := by
    rw [List.take_add]
    congr 1
    rw [underway, List.length_take, ← List.take_eq_take_min]
  have hd := (frameDecoder pb).drain_append _ (l.underway n) hn
  refine ⟨?_, ?_, ?_⟩
  · have ha := h.receives.arrived_le
    have hl : (l.underway n).length ≤ l.sender.socket.accepted.length - l.arrived := by
      rw [underway, List.length_take, List.length_drop]
      omega
    dsimp only
    omega
  · rw [ht, hd, h.receives.received_eq]
  · rw [ht, hd]
    exact hr₂

private theorem Inv.step (h : l.Inv pb) {e : LinkEvent Msg} (he : Allowed pb e)
    (hs : l.step pb e = some l') : l'.Inv pb := by
  cases e with
  | send inLoop message k => exact h.send he.1 he.2 hs
  | sender e => exact h.sender he.1 he.2 hs
  | receiver e =>
    simp only [Link.step, Option.bind_eq_bind, Option.bind_eq_some_iff, Option.some.injEq] at hs
    obtain ⟨conn, -, rfl⟩ := hs
    exact ⟨h.wf, h.sends, h.outbox, h.transmissible, h.direct, h.others, h.others_open,
      h.receives⟩
  | arrive n =>
    obtain ⟨l₁, h₁, hinv⟩ := h.arrive n
    exact Option.some.inj (h₁.symm.trans hs) ▸ hinv

end Step

/-- Two new connections with nothing between them. -/
def fresh (sender receiver : TcpConnection) : Link Msg :=
  { sender, receiver := { conn := receiver } }

variable {pb} in
private theorem inv_fresh
    (name : String) (mark : Nat) (complete high : Bool) (receiver : TcpConnection) :
    (fresh (TcpConnection.fresh name mark complete high) receiver).Inv pb := by
  have hrep := Buffer.rep_new kInitialSize
  have hs := TcpConnection.streamInv_fresh name mark complete high
  have hopen : (TcpConnection.fresh name mark complete high).state ≠ .kDisconnected := nofun
  have hd : (frameDecoder pb).drain [] = ([], []) := (frameDecoder pb).drain_wait rfl
  refine ⟨hrep.wf, ⟨hs.pending, hs.streams, fun h => absurd h hopen, List.prefix_rfl⟩, rfl, nofun,
    rfl, List.prefix_rfl, fun _ => rfl, ⟨Nat.le_refl 0, ?_, ?_⟩⟩
  · exact (congrArg Prod.fst hd).symm
  · exact (congrArg Prod.snd hd).symm ▸ hrep

/-- Whatever the two ends do and however the stream is cut, the receiver's codec reports no error
and calls `messageCallback_` with a beginning of the messages whose sends were carried out, in that
order; those of the loop's thread and those of the other threads each come as they were sent,
without a gap. Once the queue and the output buffer of an open sender are empty and every byte has
arrived, all of them have been received. A read never fails. -/
theorem messages_arrive_in_order (name : String) (mark : Nat) (complete high : Bool)
    (receiver : TcpConnection) (events : List (LinkEvent Msg)) (he : ∀ e ∈ events, Allowed pb e)
    (l : Link Msg) (h : run (step pb)
      (fresh (TcpConnection.fresh name mark complete high) receiver) events = some l) :
    (∃ order, order <+: l.executed ∧ l.received = order.map (fun x => .item x.2) ∧
      ∀ inLoop, ofThread inLoop order <+: ofThread inLoop l.posted) ∧
    (l.sender.state ≠ .kDisconnected → l.sender.outbox = [] →
      l.sender.outputBuffer.readable = [] → l.arrived = l.sender.socket.accepted.length →
      l.received = l.executed.map (fun x => .item x.2) ∧
        ∀ inLoop, ofThread inLoop l.executed = ofThread inLoop l.posted) ∧
    ∀ n, (l.step pb (.arrive n)).isSome := by
  have hinv : l.Inv pb := run_some_invariant (Inv pb) (fun s e s' hs he hstep => hs.step he hstep)
    events he (inv_fresh name mark complete high receiver) h
  refine ⟨?_, fun ho hq hb ha => ?_, fun n => ?_⟩
  · obtain ⟨got, hgot, hp⟩ := hinv.received_prefix
    have htake : got = (l.executed.take got.length).map Prod.snd := by
      rw [List.map_take]
      exact List.prefix_iff_eq_take.mp hp
    refine ⟨l.executed.take got.length, List.take_prefix _ _, ?_, fun inLoop => ?_⟩
    · rw [hgot, htake, List.map_map, ← htake]
      rfl
    · have hx : ofThread inLoop (l.executed.take got.length) <+: ofThread inLoop l.executed :=
        (List.take_prefix _ _).filter _
      cases inLoop
      · exact hx.trans hinv.others
      · exact hinv.direct ▸ hx
  · -- everything has been written and read, so the whole stream of frames has been drained
    have hbytes := (hinv.sends.streams ho).bytes
    rw [hb, List.append_nil] at hbytes
    have hqueued : l.queued = [] := List.map_eq_nil_iff.mp (hinv.outbox ▸ hq)
    have hd := drain_frames pb hinv.transmissible_executed
    rw [List.map_map] at hd
    refine ⟨?_, fun inLoop => ?_⟩
    · rw [hinv.receives.received_eq, ha, List.take_length, hbytes]
      exact (congrArg Prod.fst hd).trans (List.map_map ..)
    · cases inLoop
      · have hothers := hinv.others_open ho
        rwa [hqueued, List.map_nil, List.append_nil] at hothers
      · exact hinv.direct
  · obtain ⟨l', hl', -⟩ := hinv.arrive n
    rw [step, hl']
    rfl

/-- A message of the loop's thread is partly written, one of another thread is kept behind it, and
the kernel then takes the rest. -/
def twoMessages : List (LinkEvent (List UInt8)) :=
  [.sender (.functor (.wrote 0)), .receiver (.functor (.wrote 0)), .send true [1, 2] (.wrote 3),
    .send false [] (.wrote 0), .sender (.functor (.error .EWOULDBLOCK)),
    .sender (.channel { output := true } .error (.wrote 100))]

private theorem allowed_twoMessages : ∀ e ∈ twoMessages, Allowed plainText e := by
  have ht : ∀ m : List UInt8, m.length ≤ 2 → Transmissible plainText m := by
    intro m hm
    refine ⟨⟨(), rfl, rfl⟩, ?_⟩
    simp only [plainText, kHeaderLen, kMaxMessageLen, List.length_singleton]
    omega
  simp only [twoMessages, List.forall_mem_cons]
  exact ⟨⟨rfl, by decide⟩, trivial, ⟨ht _ (by decide), by decide⟩, ⟨ht _ (by decide), by decide⟩,
    ⟨rfl, by decide⟩, ⟨rfl, by decide⟩, List.forall_mem_nil _⟩

set_option maxRecDepth 8000 in
/-- Two messages. -/
theorem messages_arrive_in_order_two :
    ∃ l, run (step plainText) (fresh (TcpConnection.fresh "im-1" 4 true true)
        (TcpConnection.fresh "im-2" 4 true true)) (twoMessages ++ [.arrive 20]) = some l ∧
      (∃ order, order <+: l.executed ∧ l.received = order.map (fun x => .item x.2) ∧
        ∀ inLoop, ofThread inLoop order <+: ofThread inLoop l.posted) ∧
      ∀ n, (l.step plainText (.arrive n)).isSome := by
  have he : ∀ e ∈ twoMessages ++ [.arrive 20], Allowed plainText e := by
    intro e he
    rcases List.mem_append.mp he with he | he
    · exact allowed_twoMessages e he
    · rw [List.mem_singleton.mp he]
      trivial
  have hrun : ∃ l, run (step plainText) (fresh (TcpConnection.fresh "im-1" 4 true true)
      (TcpConnection.fresh "im-2" 4 true true)) twoMessages = some l := ⟨_, rfl⟩
  obtain ⟨l₀, h₀⟩ := hrun
  have hread := (messages_arrive_in_order plainText "im-1" 4 true true _ twoMessages
    allowed_twoMessages l₀ h₀).2.2 20
  obtain ⟨l, hl⟩ := Option.isSome_iff_exists.mp hread
  have h : run (step plainText) (fresh (TcpConnection.fresh "im-1" 4 true true)
      (TcpConnection.fresh "im-2" 4 true true)) (twoMessages ++ [.arrive 20]) = some l := by
    rw [run_append, h₀, Option.bind_some, run, hl]
    rfl
  obtain ⟨horder, -, hnext⟩ := messages_arrive_in_order plainText "im-1" 4 true true _ _ he l h
  exact ⟨l, h, horder, hnext⟩

end Link

end IMServer.Reactor
