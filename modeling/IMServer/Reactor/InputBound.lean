import IMServer.Base.Run
import IMServer.Net.CodecStream
import IMServer.Reactor.Connection

/-!
# The bytes a peer can leave unread

A connection with its input buffer, read by `ProtobufCodec::onMessage` with the default error
callback (`codec.cc:86–139`, `TcpConnection.cc:337–356`). The error callback shuts down the
writing side only (`TcpConnection.cc:184–203`): the channel goes on reading, the rejected frame
stays at the front of the buffer, and whatever the peer sends after it is kept.
-/

namespace IMServer.Reactor

open IMServer.Base IMServer.Net

/-- `codec.cc:86–96`; `onMessage` runs in the loop's thread. -/
def defaultErrorCallback (c : TcpConnection) : TcpConnection :=
  if c.state = .kConnected then c.shutdown true else c

/-- `messageCallback_` is the user's: what it calls on the connection are events of their own. -/
def onSignal {Msg : Type} (c : TcpConnection) : Signal Msg ErrorCode → TcpConnection
  | .item _ => c
  | .error _ => defaultErrorCallback c

/-- A connection and its `inputBuffer_`; `TcpConnection.h:136`. -/
structure Inbound where
  conn : TcpConnection
  inputBuffer : Buffer := .new kInitialSize

namespace Inbound

variable {Msg : Type} (pb : Protobuf Msg)

/-- `TcpConnection.cc:337–346`: `readv` has delivered at least one byte. -/
def handleRead (s : Inbound) (data : List UInt8) : Option Inbound := do
  let inputBuffer ← s.inputBuffer.readFd (some data)
  let (signals, inputBuffer) ← onMessage pb inputBuffer
  some { conn := signals.foldl onSignal s.conn, inputBuffer }

/-- A connection is read while its channel asks for input. -/
def Readable (c : TcpConnection) : Prop := ({ input := true } : Revents).reported c.channel = true

instance (c : TcpConnection) : Decidable (Readable c) :=
  inferInstanceAs (Decidable (_ = true))

/-- One read event; one that is not reported leaves the connection as it is. -/
def step (s : Inbound) (data : List UInt8) : Option Inbound :=
  if Readable s.conn then s.handleRead pb data else some s

/-- What `readv` can deliver: some bytes, within the room it is offered. -/
def Delivers (s : Inbound) (data : List UInt8) : Prop :=
  data ≠ [] ∧ data.length ≤ s.inputBuffer.writableBytes + kExtrabuf

/-- Fewer bytes are unread than the longest frame has. -/
def Bounded (s : Inbound) : Prop := s.inputBuffer.readableBytes < kHeaderLen + kMaxMessageLen

/-- The read happens and leaves the unread bytes bounded. -/
def ReadBounded (s : Inbound) (data : List UInt8) : Prop :=
  ∃ s', s.step pb data = some s' ∧ s'.Bounded

/-! ### An error does not stop the reading -/

/-- The error callback keeps the channel. -/
@[simp]
theorem defaultErrorCallback_channel (c : TcpConnection) :
    (defaultErrorCallback c).channel = c.channel := by
  simp only [defaultErrorCallback, TcpConnection.shutdown, TcpConnection.shutdownInLoop]
  split_ifs <;> rfl

/-- So does a decoded message. -/
@[simp]
theorem onSignal_channel (c : TcpConnection) (x : Signal Msg ErrorCode) :
    (onSignal c x).channel = c.channel := by
  cases x with
  | item a => rfl
  | error e => exact defaultErrorCallback_channel c

private theorem foldl_onSignal_channel (xs : List (Signal Msg ErrorCode)) (c : TcpConnection) :
    (xs.foldl onSignal c).channel = c.channel := by
  induction xs generalizing c with
  | nil => rfl
  | cons x xs ih => rw [List.foldl_cons, ih, onSignal_channel]

/-! ### A read drains the bytes held and the bytes delivered -/

private theorem step_spec {s : Inbound} {r data : List UInt8} (hc : Readable s.conn)
    (hr : s.inputBuffer.Rep r) (hd : s.Delivers data) :
    ∃ s', s.step pb data = some s' ∧ Readable s'.conn ∧
      s'.inputBuffer.Rep ((frameDecoder pb).drain (r ++ data)).2 := by
  obtain ⟨b₁, h₁, hr₁⟩ := Buffer.readFd_spec hr (some data)
    (by intro d h; cases h; exact hd.2)
  rw [Option.getD_some] at hr₁
  obtain ⟨b₂, h₂, hr₂⟩ := onMessage_spec pb hr₁
  refine ⟨⟨((frameDecoder pb).drain (r ++ data)).1.foldl onSignal s.conn, b₂⟩, ?_, ?_, hr₂⟩
  · simp only [step, if_pos hc, handleRead, h₁, h₂, Option.bind_eq_bind, Option.bind_some]
  · rw [Readable, foldl_onSignal_channel]
    exact hc

private theorem length_lt_of_frameOfLen_wait {len : Int} {xs : List UInt8}
    (h : frameOfLen pb len xs = .wait) : xs.length < kHeaderLen + kMaxMessageLen := by
  unfold frameOfLen at h
  split at h
  · cases h
  · next hlen =>
    split at h
    · next hpart =>
      simp only [kHeaderLen] at hpart ⊢
      omega
    · next hfull =>
      -- the whole frame is there, and a complete body is never waited for
      have hbody : kMinMessageLen ≤ ((xs.drop kHeaderLen).take len.toNat).length := by
        simp only [kMinMessageLen, kHeaderLen, List.length_take, List.length_drop] at *
        omega
      obtain ⟨res, hres⟩ := parse_isSome pb hbody
      rw [hres] at h
      cases res <;> cases h

/-- A head that waits for the rest of its frame is shorter than the longest frame. -/
theorem length_lt_of_wait {xs : List UInt8} (h : (frameDecoder pb).head xs = .wait) :
    xs.length < kHeaderLen + kMaxMessageLen := by
  rw [head_frameDecoder, frameHead] at h
  split at h
  · next hmin =>
    simp only [kMinMessageLen, kHeaderLen, kMaxMessageLen] at hmin ⊢
    omega
  · exact length_lt_of_frameOfLen_wait pb h

/-! ### Runs of reads -/

private theorem legal_cons_iff {s s' : Inbound} {data : List UInt8} {chunks : List (List UInt8)}
    (hs : s.step pb data = some s') :
    Legal (step pb) (ReadBounded pb) s (data :: chunks) ↔
      s'.Bounded ∧ Legal (step pb) (ReadBounded pb) s' chunks := by
  simp only [Legal, hs, ReadBounded, Option.some.injEq, exists_eq_left']

/-- Behind a rejected frame a read only adds its bytes. -/
theorem step_of_fail {s : Inbound} {r data : List UInt8} {e : ErrorCode} (hc : Readable s.conn)
    (hr : s.inputBuffer.Rep r) (hf : (frameDecoder pb).head r = .fail e) (hd : s.Delivers data) :
    ∃ s', s.step pb data = some s' ∧ Readable s'.conn ∧ s'.inputBuffer.Rep (r ++ data) ∧
      (frameDecoder pb).head (r ++ data) = .fail e := by
  have hf' := (frameDecoder pb).fail_append data hf
  obtain ⟨s', hs, hc', hr'⟩ := step_spec pb hc hr hd
  rw [(frameDecoder pb).drain_fail hf'] at hr'
  exact ⟨s', hs, hc', hr', hf'⟩

/-- Behind a rejected frame the bytes pile up: the reads stay bounded as long as their sum
does. -/
theorem reads_bounded_of_fail {s : Inbound} {r : List UInt8} {e : ErrorCode}
    {chunks : List (List UInt8)} (hc : Readable s.conn) (hr : s.inputBuffer.Rep r)
    (hf : (frameDecoder pb).head r = .fail e) (hd : Legal (step pb) Delivers s chunks) :
    s.Bounded ∧ Legal (step pb) (ReadBounded pb) s chunks ↔
      (r ++ chunks.flatten).length < kHeaderLen + kMaxMessageLen := by
  induction chunks generalizing s r with
  | nil =>
    rw [Bounded, hr.length_eq, List.flatten_nil, List.append_nil]
    exact and_iff_left trivial
  | cons data chunks ih =>
    obtain ⟨s', hs, hc', hr', hf'⟩ := step_of_fail pb hc hr hf hd.1
    rw [legal_cons_iff pb hs, ih hc' hr' hf' (hd.tail hs), List.flatten_cons,
      ← List.append_assoc, Bounded, hr.length_eq]
    simp only [List.length_append]
    omega

/-- Before any error, the reads stay bounded as long as what follows a rejected frame does. -/
theorem reads_bounded_of_wait {s : Inbound} {r : List UInt8} {chunks : List (List UInt8)}
    (hc : Readable s.conn) (hr : s.inputBuffer.Rep r) (hw : (frameDecoder pb).head r = .wait)
    (hd : Legal (step pb) Delivers s chunks) :
    Legal (step pb) (ReadBounded pb) s chunks ↔
      (firstError ((frameDecoder pb).drain (r ++ chunks.flatten)).1 ≠ none →
        ((frameDecoder pb).drain (r ++ chunks.flatten)).2.length <
          kHeaderLen + kMaxMessageLen) := by
  induction chunks generalizing s r with
  | nil =>
    rw [List.flatten_nil, List.append_nil, (frameDecoder pb).drain_wait hw]
    exact iff_of_true trivial fun _ => length_lt_of_wait pb hw
  | cons data chunks ih =>
    obtain ⟨s', hs, hc', hr'⟩ := step_spec pb hc hr hd.1
    rw [legal_cons_iff pb hs, List.flatten_cons, ← List.append_assoc]
    rcases (frameDecoder pb).head_drain (r ++ data) with ⟨hn, hw'⟩ | ⟨e, he, hf⟩
    · rw [ih hc' hr' hw' (hd.tail hs), (frameDecoder pb).drain_append _ _ hn,
        firstError_append, hn, Option.none_or, Bounded, hr'.length_eq]
      exact and_iff_right (length_lt_of_wait pb hw')
    · rw [reads_bounded_of_fail pb hc' hr' hf (hd.tail hs),
        (frameDecoder pb).drain_append_of_error _ _ he, he]
      exact ⟨fun h _ => h, fun h => h (Option.some_ne_none e)⟩

/-- Reads of at most `extrabuf` are always delivered. -/
theorem delivers_of_short {chunks : List (List UInt8)}
    (h : ∀ data ∈ chunks, data ≠ [] ∧ data.length ≤ kExtrabuf) (s : Inbound) :
    Legal (step pb) Delivers s chunks :=
  (Legal.of_forall h s).mono fun _ _ hd => ⟨hd.1, hd.2.trans (Nat.le_add_left _ _)⟩

/-- Zeros are a frame of length 0. -/
theorem head_zeros {n : Nat} (h : kMinMessageLen + kHeaderLen ≤ n) :
    (frameDecoder pb).head (List.replicate n 0) = .fail .kInvalidLength := by
  have hz : (List.replicate n (0 : UInt8)).take 4 = List.replicate 4 0 := by
    rw [List.take_replicate, Nat.min_eq_left]
    simp only [kMinMessageLen, kHeaderLen] at h
    omega
  rw [head_frameDecoder, frameHead, List.length_replicate, if_neg (by omega), hz, frameOfLen]
  exact if_pos (by decide)

/-- An established connection. -/
def established : TcpConnection :=
  { state := .kConnected, channel := { reading := true, index := .kAdded } }

/-- However the stream of a peer is cut into reads, the unread bytes stay below the longest
frame after every read exactly if no frame of the stream is rejected, or fewer bytes than that
arrive from the first rejected frame on. -/
theorem reads_bounded_iff {c : TcpConnection} (hc : Readable c) {chunks : List (List UInt8)}
    (hd : Legal (step pb) Delivers { conn := c } chunks) :
    Legal (step pb) (ReadBounded pb) { conn := c } chunks ↔
      (firstError ((frameDecoder pb).drain chunks.flatten).1 ≠ none →
        ((frameDecoder pb).drain chunks.flatten).2.length < kHeaderLen + kMaxMessageLen) :=
  reads_bounded_of_wait pb hc (Buffer.rep_new kInitialSize) rfl hd

/-- Zeros that arrive in three reads, the first of them too short to be rejected. -/
def zerosInPieces : List (List UInt8) :=
  [List.replicate 5 0, List.replicate 9 0, List.replicate 6 0]

/-- Zero bytes. -/
theorem reads_bounded_zeros : Readable established ∧
    Legal (step plainText) Delivers { conn := established } zerosInPieces ∧
    Legal (step plainText) (ReadBounded plainText) { conn := established } zerosInPieces := by
  have hc : Readable established := by decide
  have hd : Legal (step plainText) Delivers { conn := established } zerosInPieces :=
    delivers_of_short plainText (by simp [zerosInPieces, kExtrabuf]) _
  have hflat : zerosInPieces.flatten = List.replicate 20 0 := by decide
  have hf := head_zeros plainText (n := 20) (by decide)
  refine ⟨hc, hd, (reads_bounded_iff plainText hc hd).mpr fun _ => ?_⟩
  rw [hflat, (frameDecoder plainText).drain_fail hf]
  simp [kHeaderLen, kMaxMessageLen]

/-! ### A peer that goes on after its error -/

/-- Behind a rejected frame nothing that is delivered is ever taken off the buffer. -/
theorem run_of_fail {s : Inbound} {r : List UInt8} {e : ErrorCode} {chunks : List (List UInt8)}
    (hc : Readable s.conn) (hr : s.inputBuffer.Rep r) (hf : (frameDecoder pb).head r = .fail e)
    (hd : Legal (step pb) Delivers s chunks) :
    ∃ s', run (step pb) s chunks = some s' ∧ s'.inputBuffer.Rep (r ++ chunks.flatten) := by
  induction chunks generalizing s r with
  | nil => exact ⟨s, rfl, by simpa using hr⟩
  | cons data chunks ih =>
    obtain ⟨s₁, h₁, hc₁, hr₁, hf₁⟩ := step_of_fail pb hc hr hf hd.1
    obtain ⟨s₂, h₂, hr₂⟩ := ih hc₁ hr₁ hf₁ (hd.tail h₁)
    refine ⟨s₂, ?_, ?_⟩
    · rw [run, h₁, Option.bind_some, h₂]
    · rwa [List.flatten_cons, ← List.append_assoc]

/-- Reads that each fill `extrabuf` with zeros. -/
def zeroReads (n : Nat) : List (List UInt8) := List.replicate n (List.replicate kExtrabuf 0)

private theorem delivers_zeroReads (n : Nat) (s : Inbound) :
    Legal (step pb) Delivers s (zeroReads n) := by
  apply delivers_of_short
  intro data hm
  rw [List.eq_of_mem_replicate hm, List.length_replicate]
  exact ⟨List.replicate_succ_ne_nil, le_refl kExtrabuf⟩

/-- A peer that sends zeros and no end of them has every one of its bytes kept. -/
theorem run_zeroReads {c : TcpConnection} (hc : Readable c) (n : Nat) :
    ∃ s, run (step pb) { conn := c } (zeroReads n) = some s ∧
      s.inputBuffer.readableBytes = n * kExtrabuf := by
  cases n with
  | zero => exact ⟨{ conn := c }, rfl, by rw [(Buffer.rep_new _).length_eq]; simp⟩
  | succ n =>
    have hd := delivers_zeroReads pb (n + 1) { conn := c }
    obtain ⟨s₁, h₁, hc₁, hr₁⟩ := step_spec pb (s := { conn := c }) hc (Buffer.rep_new _) hd.1
    have hf : (frameDecoder pb).head ([] ++ List.replicate kExtrabuf 0) = .fail .kInvalidLength :=
      head_zeros pb (by decide)
    rw [(frameDecoder pb).drain_fail hf] at hr₁
    obtain ⟨s₂, h₂, hr₂⟩ := run_of_fail pb hc₁ hr₁ hf (hd.tail h₁)
    refine ⟨s₂, ?_, ?_⟩
    · rw [zeroReads, List.replicate_succ, run, h₁, Option.bind_some]
      exact h₂
    · rw [hr₂.length_eq, List.length_append, List.flatten_replicate_replicate]
      simp only [List.nil_append, List.length_replicate]
      ring

/-- 1025 reads of zeros exceed the longest frame. -/
theorem zeros_exceed_longest_frame : Readable established ∧
    Legal (step plainText) Delivers { conn := established } (zeroReads 1025) ∧
    ∃ s, run (step plainText) { conn := established } (zeroReads 1025) = some s ∧
      ¬ s.Bounded := by
  have hc : Readable established := by decide
  obtain ⟨s, hs, hn⟩ := run_zeroReads plainText hc 1025
  refine ⟨hc, delivers_zeroReads plainText 1025 _, s, hs, ?_⟩
  rw [Bounded, hn]
  simp only [kExtrabuf, kHeaderLen, kMaxMessageLen]
  omega

end Inbound
end IMServer.Reactor
