import IMServer.Reactor.LifeCycle

/-!
# Graceful shutdown

What waits to be sent when `socket_->shutdownWrite()` is executed
(`server/src/TcpConnection.cc:103–203`, `358–396`). A call of `send` from another thread only
queues `sendInLoop`, a call of `shutdown` in the loop's thread looks at the channel at once, and
`handleWrite` shuts the socket down as soon as the output buffer is empty: both leave behind what
is still queued.
-/

namespace IMServer.Reactor

open IMServer.Base IMServer.Net IMServer.Business

/-- A functor that is not a callback of the user. -/
def Functor.own : Functor → Bool
  | .writeComplete | .highWaterMark _ => false
  | _ => true

private theorem Functor.omitsUser_own : OmitsUser own := ⟨rfl, fun _ => rfl⟩

/-- The events between which data waits: calls of `send` from any thread and of `shutdown` in the
loop's thread, the pending functors, and `handleWrite`, with results of `write` other than the two
errors after which the data is given up. -/
def ConnEvent.Sending : ConnEvent → Prop
  | .send _ _ k | .functor k => k.Benign
  | .shutdown inLoop => inLoop = true
  | .channel r _ k => r = { output := true } ∧ k.Benign
  | _ => False

instance : (e : ConnEvent) → Decidable e.Sending
  | .send _ _ k | .functor k => inferInstanceAs (Decidable k.Benign)
  | .shutdown _ => inferInstanceAs (Decidable (_ = _))
  | .channel _ _ _ => inferInstanceAs (Decidable (_ ∧ _))
  | .forceClose | .startRead _ | .stopRead _ => .isFalse id

namespace TcpConnection

/-- The data queued by calls of `send` from other threads. -/
def queued (c : TcpConnection) : List UInt8 := (c.pending.flatMap Functor.sent).flatten

/-- The data of calls of `send` that the kernel has not taken. -/
def unsent (c : TcpConnection) : List UInt8 := c.outputBuffer.readable ++ c.queued

/-- The connection as if its socket had not been shut down. -/
def reopened (c : TcpConnection) : TcpConnection :=
  { c with socket := { c.socket with writeShut := false } }

/-- The step executes `socket_->shutdownWrite()`: the socket is shut down after it even if it was
not before. -/
def Shuts (c : TcpConnection) (e : ConnEvent) : Prop :=
  ∃ c', c.reopened.step e = some c' ∧ c'.socket.writeShut = true

/-- `write` takes the whole content of the output buffer. -/
def Empties (c : TcpConnection) : WriteResult → Prop
  | .wrote n => c.outputBuffer.readableBytes ≤ n
  | .error _ => False

instance (c : TcpConnection) : (k : WriteResult) → Decidable (c.Empties k)
  | .wrote _ => inferInstanceAs (Decidable (_ ≤ _))
  | .error _ => .isFalse id

end TcpConnection

/-- The socket is shut down while a call of `send` from another thread is still queued: by a call of
`shutdown` that finds the channel idle, or when the output buffer has become empty after one. -/
def ConnEvent.Hasty (c : TcpConnection) : ConnEvent → Prop
  | .shutdown _ => c.state = .kConnected ∧ c.channel.writing = false ∧ c.queued ≠ []
  | .channel r _ k => r.reported c.channel = true ∧ c.state = .kDisconnecting ∧ c.Empties k ∧
    c.queued ≠ []
  | _ => False

instance (c : TcpConnection) : (e : ConnEvent) → Decidable (e.Hasty c)
  | .shutdown _ | .channel _ _ _ => inferInstanceAs (Decidable (_ ∧ _))
  | .send _ _ _ | .functor _ | .forceClose | .startRead _ | .stopRead _ => .isFalse id

namespace TcpConnection

section Queue

variable {c c' : TcpConnection}

private theorem flatMap_sent_filter (fs : List Functor) :
    (fs.filter Functor.own).flatMap Functor.sent = fs.flatMap Functor.sent := by
  induction fs with
  | nil => rfl
  | cons f fs ih => cases f <;> simp [List.filter_cons, Functor.own, Functor.sent, ih]

/-- What the functions that send and write queue carries no data. -/
theorem Keeps.queued (h : c.Keeps Functor.own c') : c'.queued = c.queued := by
  unfold TcpConnection.queued
  rw [← flatMap_sent_filter c'.pending, h.pending, flatMap_sent_filter]

end Queue

/-! ### When the socket is shut down -/

section Shut

variable {c c' : TcpConnection}

private theorem writeShut_writeDirect (data : List UInt8) (k : WriteResult) :
    (c.writeDirect data k).1.socket.writeShut = c.socket.writeShut := by
  unfold writeDirect
  split
  · cases k with
    | wrote n => rw [Socket.write, queueIf_socket]
    | error e => rfl
  · rfl

private theorem writeShut_keep {rest : List UInt8} (h : c.keep rest = some c') :
    c'.socket.writeShut = c.socket.writeShut := by
  simp only [keep, Option.bind_eq_bind, Option.bind_eq_some_iff, Option.some.injEq] at h
  obtain ⟨b, -, rfl⟩ := h
  rw [queueIf_socket]

/-- Sending does not shut the socket down. -/
theorem writeShut_sendInLoop {data : List UInt8} {k : WriteResult}
    (h : c.sendInLoop data k = some c') : c'.socket.writeShut = c.socket.writeShut := by
  have hd := writeShut_writeDirect (c := c) data k
  unfold sendInLoop at h
  split at h
  · exact Option.some.inj h ▸ rfl
  · dsimp only at h
    split at h
    · exact (writeShut_keep h).trans hd
    · exact Option.some.inj h ▸ hd

/-- When the output buffer has become empty the socket is shut down if `shutdown` was called. -/
theorem writeShut_written : c.written.socket.writeShut = true ↔
    c.socket.writeShut = true ∨ c.state = .kDisconnecting := by
  by_cases hs : c.state = .kDisconnecting <;> simp [written, shutdownInLoop, hs]

private theorem outputBuffer_written : c.written.outputBuffer = c.outputBuffer := by
  by_cases hs : c.state = .kDisconnecting <;> simp [written, shutdownInLoop, hs]

/-- `handleWrite` empties the output buffer when `write` takes all of it, and shuts the socket down
then if `shutdown` was called. -/
theorem handleWrite_shuts (hwf : c.outputBuffer.WF) (hr : c.outputBuffer.readable ≠ [])
    (hw : c.channel.writing = true) {k : WriteResult} (h : c.handleWrite k = some c') :
    (c'.socket.writeShut = true ↔
      c.socket.writeShut = true ∨ c.state = .kDisconnecting ∧ c.Empties k) ∧
    (c.Empties k → c'.outputBuffer.readable = []) := by
  have hlen := Buffer.length_readable hwf
  have hpos : 0 < c.outputBuffer.readable.length := List.length_pos_iff.mpr hr
  cases k with
  | error e =>
    simp only [handleWrite, hw, if_true, Socket.write] at h
    obtain rfl := Option.some.inj h
    simp [Empties]
  | wrote m =>
    obtain ⟨b, hb, hrep⟩ := Buffer.retrieve_spec ⟨hwf, rfl⟩
      (Nat.min_le_right m c.outputBuffer.readable.length)
    have hblen := Buffer.length_readable hrep.wf
    rw [hrep.readable_eq, List.length_drop] at hblen
    simp only [handleWrite, hw, if_true, Socket.write, hb, Option.bind_eq_bind,
      Option.bind_some] at h
    have hempty : b.readableBytes = 0 ↔ c.Empties (.wrote m) := by
      simp only [Empties]
      omega
    split at h
    · split at h
      · next hz =>
        obtain rfl := Option.some.inj h
        have he := hempty.mp hz
        refine ⟨by simp [writeShut_written, he], fun _ => ?_⟩
        rw [outputBuffer_written]
        refine List.eq_nil_of_length_eq_zero ?_
        rw [Buffer.length_readable hrep.wf, hz]
      · next hz =>
        obtain rfl := Option.some.inj h
        have he := mt hempty.mpr hz
        exact ⟨by simp [he], fun h => absurd h he⟩
    · next hn =>
      obtain rfl := Option.some.inj h
      have he : ¬ c.Empties (.wrote m) := by
        simp only [Empties]
        omega
      exact ⟨by simp [he], fun h => absurd h he⟩

end Shut

/-! ### Runs -/

/-- What is queued besides the callbacks of the user: the establishment at first, and the data of
other threads after it. -/
def Queues (c : TcpConnection) : Prop :=
  ∃ messages : List (List UInt8), c.pending.filter Functor.own =
    if c.state = .kConnecting then [.connectEstablished] else messages.map .sendInLoop

/-- What every run of sending events keeps. -/
structure Draining (c : TcpConnection) : Prop where
  stream : ∃ executed, c.Streams executed
  connected : c.state ≠ .kDisconnected
  queues : c.Queues

section Draining

variable {c c' : TcpConnection}

private theorem Queues.steady (h : c.Queues) (hc : c.Steady Functor.own c') : c'.Queues := by
  obtain ⟨messages, h⟩ := h
  exact ⟨messages, by rw [hc.pending, hc.state, h]⟩

private theorem not_mem_of_queues (h : c.Queues) {f : Functor} (hf : f.own = true)
    (h₁ : f ≠ .connectEstablished) (h₂ : ∀ m, f ≠ .sendInLoop m) : f ∉ c.pending := by
  obtain ⟨messages, h⟩ := h
  intro hm
  have hm := List.mem_filter.mpr ⟨hm, hf⟩
  rw [h] at hm
  split at hm
  · exact h₁ (List.mem_singleton.mp hm)
  · obtain ⟨m, -, rfl⟩ := List.mem_map.mp hm
    exact h₂ m rfl

/-- The oldest functor establishes the connection, sends data of another thread, or is a callback
of the user. -/
theorem Queues.head (h : c.Queues) {f : Functor} {rest : List Functor}
    (hp : c.pending = f :: rest) :
    (f = .connectEstablished ∧ c.state = .kConnecting ∧ rest.filter Functor.own = []) ∨
      ((∃ m, f = .sendInLoop m) ∨ f.own = false) ∧ { c with pending := rest }.Queues := by
  obtain ⟨messages, h⟩ := h
  rw [hp] at h
  by_cases hf : f.own = true
  · rw [List.filter_cons_of_pos hf] at h
    split at h
    · next hs =>
      obtain ⟨rfl, hr⟩ := List.cons.inj h
      exact .inl ⟨rfl, hs, hr⟩
    · next hs =>
      cases messages with
      | nil => cases h
      | cons m ms =>
        obtain ⟨rfl, hr⟩ := List.cons.inj h
        exact .inr ⟨.inl ⟨m, rfl⟩, ms, by rw [if_neg hs]; exact hr⟩
  · rw [List.filter_cons_of_neg hf] at h
    exact .inr ⟨.inr (by simpa using hf), messages, h⟩

/-- A functor does not fail and does not shut the socket down. -/
theorem Queues.runFunctor (h : c.Queues) (hwf : c.outputBuffer.WF) {f : Functor}
    {rest : List Functor} (hp : c.pending = f :: rest) (k : WriteResult) :
    ∃ c', { c with pending := rest }.runFunctor k f = some c' ∧ c'.Queues ∧
      c'.socket.writeShut = c.socket.writeShut := by
  rcases h.head hp with ⟨rfl, hs, hr⟩ | ⟨⟨m, rfl⟩ | hf, hq⟩
  · refine ⟨_, if_pos hs, ⟨[], ?_⟩, rfl⟩
    exact hr
  · obtain ⟨c', hc, hst⟩ := steady_sendInLoop (c := { c with pending := rest })
      Functor.omitsUser_own hwf m k
    have hshut := writeShut_sendInLoop hc
    exact ⟨c', hc, hq.steady hst, hshut⟩
  · cases f with
    | writeComplete | highWaterMark _ => exact ⟨_, rfl, hq, rfl⟩
    | _ => cases hf

/-- A sending event does not fail. -/
theorem Draining.step_some (h : c.Draining) {e : ConnEvent} (he : e.Sending) :
    ∃ c', c.step e = some c' ∧ c'.Queues := by
  obtain ⟨executed, hst⟩ := h.stream
  cases e with
  | send inLoop message k =>
    simp only [step, TcpConnection.send]
    split
    · next hs =>
      cases inLoop
      · obtain ⟨messages, hq⟩ := h.queues
        refine ⟨_, rfl, messages ++ [message], ?_⟩
        simp only [hs, reduceCtorEq, if_false] at hq
        simp [queueInLoop, hs, hq, Functor.own, List.filter_cons]
      · obtain ⟨c', hc, hs⟩ := steady_sendInLoop Functor.omitsUser_own hst.wf message k
        exact ⟨c', hc, h.queues.steady hs⟩
    · exact ⟨c, rfl, h.queues⟩
  | shutdown inLoop =>
    obtain rfl : inLoop = true := he
    refine ⟨_, rfl, ?_⟩
    unfold TcpConnection.shutdown
    split
    · next hs =>
      have hq : { c with state := .kDisconnecting }.Queues := by
        obtain ⟨messages, hq⟩ := h.queues
        exact ⟨messages, by simpa [hs] using hq⟩
      exact hq.steady (steady_shutdownInLoop hst.wf)
    · exact h.queues
  | functor k =>
    cases hp : c.pending with
    | nil => exact ⟨c, by simp [step, hp], h.queues⟩
    | cons f rest =>
      obtain ⟨c', hc, hq, -⟩ := h.queues.runFunctor hst.wf hp k
      exact ⟨c', by simpa [step, hp] using hc, hq⟩
  | channel r n k =>
    obtain ⟨rfl, -⟩ := he
    simp only [step]
    split
    · obtain ⟨c', hc, hs⟩ := steady_handleWrite Functor.omitsUser_own hst.wf k
      exact ⟨c', by simpa [handleEvent] using hc, h.queues.steady hs⟩
    · exact ⟨c, rfl, h.queues⟩
  | _ => exact absurd he id

/-- A sending event keeps the stream. -/
theorem Draining.step (h : c.Draining) {e : ConnEvent} (he : e.Sending) :
    ∃ c', c.step e = some c' ∧ c'.Draining := by
  obtain ⟨c', hs, hq⟩ := h.step_some he
  obtain ⟨executed, hst⟩ := h.stream
  have hd : Functor.connectDestroyed ∉ c.pending := not_mem_of_queues h.queues rfl nofun nofun
  have hcl : ¬ e.Closes c := by
    cases e with
    | functor k =>
      rintro ⟨hhead, -⟩
      have hf : Functor.forceCloseInLoop ∉ c.pending := not_mem_of_queues h.queues rfl nofun nofun
      exact hf (List.mem_of_head? hhead)
    | channel r n k =>
      obtain ⟨rfl, -⟩ := he
      simp [ConnEvent.Closes]
    | _ => exact id
  have hb : e.Benign := by
    cases e with
    | send _ _ k | functor k => exact he
    | channel r n k => exact he.2
    | _ => trivial
  have ho : c'.state ≠ .kDisconnected := by
    intro hc
    exact ((step_spec hs hd).2.2.mp hc).elim h.connected hcl
  exact ⟨c', hs, ⟨_, hst.step h.connected hd hb hs ho⟩, ho, hq⟩

/-- `shutdown` in the loop's thread shuts the socket down when the channel is idle. -/
theorem shuts_shutdown_iff :
    c.Shuts (.shutdown true) ↔ c.state = .kConnected ∧ c.channel.writing = false := by
  simp only [Shuts, TcpConnection.step, Option.some.injEq, exists_eq_left']
  by_cases hs : c.state = .kConnected <;> cases hw : c.channel.writing <;>
    simp [TcpConnection.shutdown, TcpConnection.shutdownInLoop, reopened, hs, hw]

private theorem unsent_shutdown (c : TcpConnection) : (c.shutdown true).unsent = c.unsent := by
  by_cases hs : c.state = .kConnected <;> cases hw : c.channel.writing <;>
    simp [TcpConnection.shutdown, TcpConnection.shutdownInLoop, unsent, TcpConnection.queued, hs,
      hw]

private theorem not_shuts_send {inLoop : Bool} {message : List UInt8} {k : WriteResult} :
    ¬ c.Shuts (.send inLoop message k) := by
  rintro ⟨d, hd, hshut⟩
  simp only [TcpConnection.step, TcpConnection.send] at hd
  split at hd
  · split at hd
    · rw [writeShut_sendInLoop hd] at hshut
      cases hshut
    · obtain rfl := Option.some.inj hd
      cases hshut
  · obtain rfl := Option.some.inj hd
    cases hshut

/-- No functor of a connection that only sends shuts the socket down. -/
theorem Draining.not_shuts_functor (h : c.Draining) {k : WriteResult} :
    ¬ c.Shuts (.functor k) := by
  rintro ⟨d, hd, hshut⟩
  obtain ⟨executed, hst⟩ := h.stream
  cases hp : c.pending with
  | nil =>
    simp only [TcpConnection.step, reopened, hp] at hd
    obtain rfl := Option.some.inj hd
    cases hshut
  | cons f rest =>
    have hq : c.reopened.Queues := h.queues
    obtain ⟨d', hd', -, hkept⟩ := hq.runFunctor (c := c.reopened) hst.wf hp k
    simp only [TcpConnection.step, reopened, hp] at hd
    obtain rfl := Option.some.inj (hd'.symm.trans hd)
    rw [hkept] at hshut
    cases hshut

private theorem writing_of_reported (hr : Revents.reported { output := true } c.channel = true) :
    c.channel.writing = true := by
  simp only [Revents.reported, Bool.and_eq_true] at hr
  simpa using hr.2

/-- An event of the channel shuts the socket down when `handleWrite` empties the output buffer
after `shutdown`. -/
theorem shuts_channel_iff {executed : List (List UInt8)} (hst : c.Streams executed)
    {n : ReadResult} {k : WriteResult} :
    c.Shuts (.channel { output := true } n k) ↔
      (Revents.reported { output := true } c.channel = true) ∧ c.state = .kDisconnecting ∧
        c.Empties k := by
  by_cases hr : Revents.reported { output := true } c.channel = true
  · have hw := writing_of_reported hr
    obtain ⟨d, hd, -⟩ := steady_handleWrite (c := c.reopened) Functor.omitsUser_own hst.wf k
    have hshut := (handleWrite_shuts (c := c.reopened) hst.wf (hst.writing.mp hw) hw hd).1
    have hstep : c.reopened.step (.channel { output := true } n k) = some d := by
      refine (if_pos hr).trans ?_
      simpa [handleEvent] using hd
    simp only [Shuts, hstep, Option.some.injEq, exists_eq_left', hshut, hr, true_and]
    exact or_iff_right Bool.false_ne_true
  · refine iff_of_false ?_ fun h => hr h.1
    rintro ⟨d, hd, hshut⟩
    have hstep : c.reopened.step (.channel { output := true } n k) = some c.reopened := if_neg hr
    obtain rfl := Option.some.inj (hstep.symm.trans hd)
    cases hshut

/-- A sending event loses no data by shutting the socket down exactly when it is not hasty. -/
theorem Draining.shuts_iff (h : c.Draining) {e : ConnEvent} (he : e.Sending)
    (hs : c.step e = some c') : (c.Shuts e → c'.unsent = []) ↔ ¬ e.Hasty c := by
  obtain ⟨executed, hst⟩ := h.stream
  cases e with
  | send inLoop message k => exact iff_of_true (fun hshut => absurd hshut not_shuts_send) id
  | functor k => exact iff_of_true (fun hshut => absurd hshut h.not_shuts_functor) id
  | shutdown inLoop =>
    obtain rfl : inLoop = true := he
    obtain rfl := Option.some.inj hs
    rw [shuts_shutdown_iff, unsent_shutdown]
    simp only [ConnEvent.Hasty, not_and, not_not, and_imp]
    refine forall₂_congr fun _ hw => ?_
    -- an idle channel has nothing in its output buffer
    have hr : c.outputBuffer.readable = [] := by
      by_contra hr
      have := hst.writing.mpr hr
      simp [hw] at this
    rw [unsent, hr, List.nil_append]
  | channel r n k =>
    obtain ⟨rfl, -⟩ := he
    rw [shuts_channel_iff hst]
    simp only [ConnEvent.Hasty, not_and, not_not, and_imp]
    refine forall₃_congr fun hr _ hk => ?_
    have hw := writing_of_reported hr
    have hd : c.handleWrite k = some c' := by
      simpa [TcpConnection.step, hr, handleEvent] using hs
    obtain ⟨d, hd', hsteady⟩ := steady_handleWrite Functor.omitsUser_own hst.wf k
    obtain rfl := Option.some.inj (hd'.symm.trans hd)
    have hempty := (handleWrite_shuts hst.wf (hst.writing.mp hw) hw hd).2 hk
    rw [unsent, hempty, List.nil_append, hsteady.queued]
  | _ => exact absurd he id

end Draining

private theorem draining_fresh (name : String) (mark : Nat) (complete high : Bool) :
    (fresh name mark complete high).Draining :=
  ⟨⟨[], (streamInv_fresh name mark complete high).streams nofun⟩, nofun, [], rfl⟩

/-- In every run of sending events, no step fails and `shutdownWrite` is never executed while data
of a call of `send` is queued or in the output buffer, exactly when no step is hasty. -/
theorem graceful_shutdown_iff (name : String) (mark : Nat) (complete high : Bool)
    (events : List ConnEvent) (he : ∀ e ∈ events, e.Sending) :
    Legal step (fun c e => ∃ c', c.step e = some c' ∧ (c.Shuts e → c'.unsent = []))
        (fresh name mark complete high) events ↔
      Legal step (fun c e => ¬ e.Hasty c) (fresh name mark complete high) events := by
  refine legal_congr Draining (fun c e h he => ?_) events he
    (draining_fresh name mark complete high)
  obtain ⟨c', hs, hd⟩ := h.step he
  refine ⟨⟨?_, fun hn => ⟨c', hs, (h.shuts_iff he hs).mpr hn⟩⟩, fun _ c'' hs' => ?_⟩
  · rintro ⟨c'', hs', hn⟩
    exact (h.shuts_iff he hs').mp hn
  · exact Option.some.inj (hs.symm.trans hs') ▸ hd

/-- Another thread sends while the connection is connected, and the loop's thread calls
`shutdown` before it runs its functors. -/
def hastyShutdown : List ConnEvent :=
  [.functor (.wrote 0), .send false [104, 105] (.wrote 0), .shutdown true]

set_option maxRecDepth 8000 in
/-- A shutdown overtakes a send that is queued. -/
theorem shutdown_before_queued_send :
    ∃ c c', run step (fresh "im-1" 64 false false) (hastyShutdown.take 2) = some c ∧
      c.state = .kConnected ∧ c.step (.shutdown true) = some c' ∧ c.Shuts (.shutdown true) ∧
      c'.socket.writeShut = true ∧ c'.unsent = [104, 105] ∧
      ¬ Legal step (fun c e => ¬ e.Hasty c) (fresh "im-1" 64 false false) hastyShutdown :=
  ⟨_, _, rfl, rfl, rfl, ⟨_, rfl, rfl⟩, rfl, rfl, by decide⟩

set_option maxRecDepth 8000 in
/-- The loop runs the queued call before `shutdown`, and writes what is left after it. -/
theorem shutdown_after_queued_send :
    Legal step (fun c e => ∃ c', c.step e = some c' ∧ (c.Shuts e → c'.unsent = []))
      (fresh "im-1" 64 false false)
      [.functor (.wrote 0), .send false [104, 105] (.wrote 0), .functor (.wrote 1), .shutdown true,
        .channel { output := true } .error (.wrote 1)] :=
  (graceful_shutdown_iff "im-1" 64 false false _ (by decide)).mpr (by decide)

end TcpConnection

end IMServer.Reactor
