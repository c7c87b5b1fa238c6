import IMServer.Net.FrameBody

/-!
# Decoding a byte stream

The loop of `onMessage` over the buffer is an incremental decoder over the stream of
bytes: the buffer holds exactly the bytes the decoder has not taken yet. What the calls
report therefore does not depend on how the stream was cut, and the frames of the encoder
come back as the messages they were made of.
-/

namespace IMServer.Net

open IMServer.Base

section Stream

variable {Msg : Type} (pb : Protobuf Msg)

/-! ### The frame decoder -/

/-- A frame body of at least the minimal length is read without leaving it. -/
theorem parse_isSome {buf : List UInt8} (h : kMinMessageLen ≤ buf.length) :
    ∃ r, parse pb buf = some r := by
  simp only [kMinMessageLen, kHeaderLen] at h
  have hg : kHeaderLen ≤ buf.length := by simp only [kHeaderLen]; omega
  obtain ⟨sum, hsum⟩ : ∃ v, asInt32 buf (buf.length - kHeaderLen) = some v :=
    ⟨_, asInt32_eq (by simp only [kHeaderLen]; omega)⟩
  obtain ⟨nameLen, hname⟩ : ∃ v, asInt32 buf 0 = some v := ⟨_, asInt32_eq (by omega)⟩
  simp -implicitDefEqProofs only [parse, hg, guard_true, hsum, hname, Option.pure_def,
    Option.bind_eq_bind, Option.bind_some]
  split
  · split
    · next hn =>
      obtain ⟨hlo, hhi⟩ := hn
      simp only [kHeaderLen] at hhi
      rw [slice_eq (by simp only [kHeaderLen]; omega)]
      simp only [Option.bind_some]
      split
      · rw [slice_eq (by simp only [kHeaderLen]; omega)]
        simp only [Option.bind_some]
        split <;> exact ⟨_, rfl⟩
      · exact ⟨_, rfl⟩
    · exact ⟨_, rfl⟩
  · exact ⟨_, rfl⟩

/-- What a turn of the loop makes of the buffered bytes, once their length field is read. -/
@[irreducible]
def frameOfLen (len : Int) (xs : List UInt8) : Progress Msg ErrorCode :=
  if (kMaxMessageLen : Int) < len ∨ len < kMinMessageLen then .fail .kInvalidLength
  else if xs.length < (len + kHeaderLen).toNat then .wait
  else
    match parse pb ((xs.drop kHeaderLen).take len.toNat) with
    | some (.ok m) => .item m (kHeaderLen + len).toNat
    | some (.error e) => .fail e
    | none => .wait

/-- What a turn of the loop makes of the buffered bytes. -/
def frameHead (xs : List UInt8) : Progress Msg ErrorCode :=
  if xs.length < kMinMessageLen + kHeaderLen then .wait
  else frameOfLen pb (wrap 32 (beNat (xs.take 4))) xs

private theorem frameOfLen_append {len : Int} {xs : List UInt8} (ys : List UInt8)
    (h : frameOfLen pb len xs ≠ .wait) :
    frameOfLen pb len (xs ++ ys) = frameOfLen pb len xs := by
  unfold frameOfLen at h
  split at h
  · next hbad => simp only [frameOfLen, hbad, if_true]
  · next hbad =>
    split at h
    · exact absurd rfl h
    · next hfull =>
      have hfull' : ¬ (xs ++ ys).length < (len + kHeaderLen).toNat := by
        rw [List.length_append]
        omega
      have hbody : ((xs ++ ys).drop kHeaderLen).take len.toNat =
          (xs.drop kHeaderLen).take len.toNat := by
        simp only [kHeaderLen, kMinMessageLen] at hfull hbad ⊢
        rw [List.drop_append_of_le_length (by omega)]
        apply List.take_append_of_le_length
        rw [List.length_drop]
        omega
      simp only [frameOfLen, hbad, hfull, hfull', hbody, if_false]

/-- A head that has decided has seen its length field, and its frame if it is complete. -/
private theorem frameHead_append {xs : List UInt8} (ys : List UInt8)
    (h : frameHead pb xs ≠ .wait) : frameHead pb (xs ++ ys) = frameHead pb xs := by
  unfold frameHead at h ⊢
  split at h
  · exact absurd rfl h
  · next hmin =>
    simp only [kMinMessageLen, kHeaderLen] at hmin
    rw [if_neg, if_neg, List.take_append_of_le_length (by omega)]
    · exact frameOfLen_append pb ys h
    · simpa only [kMinMessageLen, kHeaderLen] using hmin
    · rw [List.length_append]
      simp only [kMinMessageLen, kHeaderLen]
      omega

private theorem frameOfLen_item {len : Int} {xs : List UInt8} {m : Msg} {n : Nat}
    (h : frameOfLen pb len xs = .item m n) : 0 < n ∧ n ≤ xs.length := by
  unfold frameOfLen at h
  split at h
  · cases h
  · next hbad =>
    split at h
    · cases h
    · next hfull =>
      split at h
      · cases h
        simp only [kMinMessageLen, kHeaderLen] at hbad hfull ⊢
        omega
      · cases h
      · cases h

private theorem frameHead_item {xs : List UInt8} {m : Msg} {n : Nat}
    (h : frameHead pb xs = .item m n) : 0 < n ∧ n ≤ xs.length := by
  unfold frameHead at h
  split at h
  · cases h
  · exact frameOfLen_item pb h

/-- The frame decoder: a decision on the head is final. -/
def frameDecoder : Decoder UInt8 Msg ErrorCode where
  head := frameHead pb
  item_bounds := frameHead_item pb
  item_append ys h := by rw [frameHead_append pb ys (by rw [h]; simp), h]
  fail_append ys h := by rw [frameHead_append pb ys (by rw [h]; simp), h]

/-- The decoder of frames. -/
theorem head_frameDecoder : (frameDecoder pb).head = frameHead pb := rfl

/-! ### The loop is the decoder -/

private theorem peekInt32_rep {b : Buffer} {r : List UInt8} (h : b.Rep r) (hr : 4 ≤ r.length) :
    b.peekInt32 = some (wrap 32 (beNat (r.take 4))) := by
  have hg : 4 ≤ b.readableBytes := by rw [h.length_eq]; exact hr
  simp [Buffer.peekInt32, hg, h.readable_eq]

/-- What a turn of the loop has to do when the decoder says `p` of the readable bytes `r`. -/
def TurnIs (b : Buffer) (r : List UInt8) : Progress Msg ErrorCode → Prop
  | .wait => onMessageTurn pb b = some (.stop none)
  | .fail e => onMessageTurn pb b = some (.stop (some e))
  | .item m n => ∃ b', onMessageTurn pb b = some (.next m b') ∧ b'.Rep (r.drop n)

private theorem turnIs_frameOfLen {b : Buffer} {r : List UInt8} (h : b.Rep r) {len : Int}
    (hmin : kMinMessageLen + kHeaderLen ≤ b.readableBytes) (hp : b.peekInt32 = some len) :
    TurnIs pb b r (frameOfLen pb len r) := by
  have hl := h.length_eq
  by_cases hbad : (kMaxMessageLen : Int) < len ∨ len < kMinMessageLen
  · rw [frameOfLen, if_pos hbad, TurnIs, onMessageTurn, if_pos hmin, hp]
    exact if_pos hbad
  · rw [frameOfLen, if_neg hbad]
    by_cases hfull : r.length < (len + kHeaderLen).toNat
    · rw [if_pos hfull, TurnIs, onMessageTurn, if_pos hmin, hp, Option.bind_eq_bind,
        Option.bind_some, if_neg hbad, if_neg (by omega)]
    · rw [if_neg hfull]
      have hn : (kHeaderLen + len).toNat ≤ r.length := by omega
      have hbody : kMinMessageLen ≤ ((r.drop kHeaderLen).take len.toNat).length := by
        simp only [kMinMessageLen, kHeaderLen, List.length_take, List.length_drop] at *
        omega
      obtain ⟨res, hres⟩ := parse_isSome pb hbody
      cases res with
      | error e =>
        simp only [hres, TurnIs]
        rw [onMessageTurn, if_pos hmin, hp, Option.bind_eq_bind, Option.bind_some, if_neg hbad,
          if_pos (by omega), h.readable_eq, hres]
        rfl
      | ok m =>
        obtain ⟨b', hb, hr'⟩ := Buffer.retrieve_spec h hn
        simp only [hres, TurnIs]
        refine ⟨b', ?_, hr'⟩
        rw [onMessageTurn, if_pos hmin, hp, Option.bind_eq_bind, Option.bind_some, if_neg hbad,
          if_pos (by omega), h.readable_eq, hres, Option.bind_eq_bind, Option.bind_some]
        simp only [hb]
        rfl

/-- One turn of the loop does what the decoder says of the readable bytes. -/
theorem onMessageTurn_spec {b : Buffer} {r : List UInt8} (h : b.Rep r) :
    TurnIs pb b r (frameHead pb r) := by
  have hl := h.length_eq
  by_cases hmin : r.length < kMinMessageLen + kHeaderLen
  · rw [frameHead, if_pos hmin, TurnIs, onMessageTurn, if_neg (by omega)]
  · have hr : 4 ≤ r.length := by simp only [kMinMessageLen, kHeaderLen] at hmin; omega
    rw [frameHead, if_neg hmin]
    exact turnIs_frameOfLen pb h (by omega) (peekInt32_rep h hr)

/-- A call of `onMessage` drains the readable bytes. -/
theorem onMessage_spec {b : Buffer} {r : List UInt8} (h : b.Rep r) :
    ∃ b', onMessage pb b = some (((frameDecoder pb).drain r).1, b') ∧
      b'.Rep ((frameDecoder pb).drain r).2 := by
  induction r using (frameDecoder pb).drain_induction generalizing b with
  | wait r hw =>
    have ht := onMessageTurn_spec pb h
    rw [show frameHead pb r = .wait from hw, TurnIs] at ht
    rw [(frameDecoder pb).drain_wait hw, onMessage]
    split <;> simp_all
  | fail r e hf =>
    have ht := onMessageTurn_spec pb h
    rw [show frameHead pb r = .fail e from hf, TurnIs] at ht
    rw [(frameDecoder pb).drain_fail hf, onMessage]
    split <;> simp_all
  | item r m n hi ih =>
    have ht := onMessageTurn_spec pb h
    rw [show frameHead pb r = .item m n from hi, TurnIs] at ht
    obtain ⟨b₁, ht, hr₁⟩ := ht
    obtain ⟨b₂, hb₂, hr₂⟩ := ih hr₁
    rw [(frameDecoder pb).drain_item hi, onMessage]
    split <;> simp_all

/-- Receiving chunks is feeding them to the decoder. -/
theorem receive_spec (chunks : List (List UInt8)) {b : Buffer} {r : List UInt8} (h : b.Rep r) :
    ∃ b', receive pb b chunks = some (((frameDecoder pb).feed r chunks).1, b') ∧
      b'.Rep ((frameDecoder pb).feed r chunks).2 := by
  induction chunks generalizing b r with
  | nil => exact ⟨b, rfl, h⟩
  | cons chunk chunks ih =>
    obtain ⟨b₁, h₁, hr₁⟩ := Buffer.append_spec h chunk
    obtain ⟨b₂, h₂, hr₂⟩ := onMessage_spec pb hr₁
    obtain ⟨b₃, h₃, hr₃⟩ := ih hr₂
    exact ⟨b₃, by simp [receive, h₁, h₂, h₃, Decoder.feed], hr₃⟩

/-! ### The frames of the encoder -/

/-- The bytes the checksum covers: name length, name with its terminator, payload. -/
def frameNamed (m : Msg) : List UInt8 :=
  beBytes 4 ((pb.typeName m).length + 1) ++ (pb.typeName m ++ [0]) ++ pb.serialize m

/-- The bytes the length field covers. -/
def frameBody (m : Msg) : List UInt8 :=
  frameNamed pb m ++ beBytes 4 (unsigned 32 (wrap 32 (pb.adler32 (frameNamed pb m))))

/-- The layout of `codec.h:9–16`. -/
def frame (m : Msg) : List UInt8 := beBytes 4 (frameBody pb m).length ++ frameBody pb m

private theorem length_frameNamed (m : Msg) :
    (frameNamed pb m).length = (pb.typeName m).length + (pb.serialize m).length + 5 := by
  simp only [frameNamed, List.length_append, length_beBytes, List.length_singleton]
  omega

/-- The name, its length and zero byte, the message and the checksum. -/
theorem length_frameBody (m : Msg) : (frameBody pb m).length =
    (pb.typeName m).length + (pb.serialize m).length + 9 := by
  simp only [frameBody, List.length_append, length_frameNamed, length_beBytes]

/-- A number below 2³¹ is its own 32-bit word. -/
private theorem wrap_ofNat {n : Nat} (h : n < 2 ^ 31) : wrap 32 (n : Int) = n :=
  wrap_eq_self (by decide) (by omega) (by simpa using h)

private theorem unsigned_ofNat {n : Nat} (h : n < 2 ^ 31) : unsigned 32 (n : Int) = n := by
  rw [unsigned]
  omega

/-- Encoding into an empty buffer with its reserved front writes the frame. -/
theorem fillEmptyBuffer_spec {b : Buffer} (h : b.Rep []) (hf : b.readerIndex = kCheapPrepend)
    {m : Msg} (hm : (frameBody pb m).length ≤ kMaxMessageLen) :
    ∃ b', fillEmptyBuffer pb b m = some b' ∧ b'.Rep (frame pb m) := by
  have hb := length_frameBody pb m
  have hn := length_frameNamed pb m
  simp only [kMaxMessageLen] at hm
  have hname : wrap 32 (((pb.typeName m).length : Int) + 1) =
      ((pb.typeName m).length + 1 : Nat) := by
    have := wrap_ofNat (n := (pb.typeName m).length + 1) (by omega)
    rwa [Nat.cast_add, Nat.cast_one] at this
  obtain ⟨b₁, h₁, hr₁⟩ := Buffer.append_spec h (beBytes 4 ((pb.typeName m).length + 1))
  obtain ⟨b₂, h₂, hr₂⟩ := Buffer.append_spec hr₁ (pb.typeName m ++ [0])
  obtain ⟨b₃, h₃, hr₃, hw₃⟩ := Buffer.ensureWritableBytes_spec hr₂ (pb.serialize m).length
  obtain ⟨b₄, h₄, hr₄⟩ := Buffer.write_spec hr₃ hw₃
  have hr₄' : b₄.readable = frameNamed pb m := by
    rw [hr₄.readable_eq]
    simp [frameNamed]
  obtain ⟨b₅, h₅, hr₅⟩ := Buffer.append_spec hr₄
    (beBytes 4 (unsigned 32 (wrap 32 (pb.adler32 (frameNamed pb m)))))
  have hr₅' : b₅.Rep (frameBody pb m) := by simpa [frameBody, frameNamed] using hr₅
  have hf₅ : b₅.readerIndex = kCheapPrepend :=
    Buffer.append_front (Buffer.write_front (Buffer.ensureWritableBytes_front
      (Buffer.append_front (Buffer.append_front hf h₁) h₂) h₃) h₄) h₅
  have hroom : (beBytes 4 (frameBody pb m).length).length ≤ b₅.prependableBytes := by
    simp [Buffer.prependableBytes, hf₅, kCheapPrepend]
  obtain ⟨b₆, h₆, hr₆⟩ := Buffer.prepend_spec hr₅' hroom
  have h0 : b.readableBytes = 0 := h.length_eq
  refine ⟨b₆, ?_, hr₆⟩
  have htake : (pb.typeName m ++ [0]).take ((pb.typeName m).length + 1) = pb.typeName m ++ [0] :=
    List.take_of_length_le (by simp)
  have hlen₅ : b₅.readableBytes = kHeaderLen + ((pb.typeName m).length + 1) +
      (pb.serialize m).length + kHeaderLen := by
    rw [hr₅'.length_eq, hb]
    simp only [kHeaderLen]
    omega
  simp -implicitDefEqProofs only [fillEmptyBuffer, h0, guard_true, Buffer.appendInt32, hname,
    unsigned_ofNat (show (pb.typeName m).length + 1 < 2 ^ 31 by omega), h₁, Int.toNat_natCast,
    htake, h₂, h₃, h₄, hr₄', h₅, hlen₅, Option.pure_def, Option.bind_eq_bind, Option.bind_some]
  rw [← hlen₅, hr₅'.length_eq, unsigned_ofNat (by omega)]
  exact h₆

/-- A message whose type is registered, whose serialisation parses back to it, and whose
frame body is within the limit. -/
structure Transmissible (m : Msg) : Prop where
  registered : ∃ prototype, createMessage pb (pb.typeName m) = some prototype ∧
    pb.parseFromArray prototype (pb.serialize m) = some m
  body_le : kHeaderLen + ((pb.typeName m).length + 1) + (pb.serialize m).length + kHeaderLen ≤
    kMaxMessageLen

namespace Transmissible

variable {pb} {m : Msg}

/-- A transmissible message fits into a frame. -/
theorem length_le (h : Transmissible pb m) : (frameBody pb m).length ≤ kMaxMessageLen := by
  have hb := h.body_le
  rw [length_frameBody]
  simp only [kHeaderLen] at hb
  omega

private theorem typeName_ne_nil (h : Transmissible pb m) : 0 < (pb.typeName m).length := by
  obtain ⟨prototype, hc, -⟩ := h.registered
  rw [List.length_pos_iff]
  intro hn
  simp [createMessage, hn, pb.find_nil] at hc

end Transmissible

/-- The body of an encoded message parses back to the message. -/
theorem parse_frameBody {m : Msg} (h : Transmissible pb m) :
    parse pb (frameBody pb m) = some (.ok m) := by
  have hlen := length_frameBody pb m
  have hpos := h.typeName_ne_nil
  have hmin : kMinMessageLen ≤ (frameBody pb m).length := by
    simp only [kMinMessageLen, kHeaderLen]
    omega
  have hlayout : Layout (frameBody pb m) (pb.typeName m) 0 (pb.serialize m)
      (beBytes 4 (unsigned 32 (wrap 32 (pb.adler32 (frameNamed pb m))))) := by
    refine ⟨?_, by omega, length_beBytes 4 _⟩
    simp only [frameBody, frameNamed, List.append_assoc]
  have hsum : ChecksumHolds pb (frameBody pb m) := by
    refine ⟨frameNamed pb m, congrArg (frameNamed pb m ++ ·) ?_⟩
    rw [← wrap_eq_wrap_beNat_iff (length_beBytes 4 _), beNat_beBytes_of_lt (unsigned_lt 32 _),
      wrap_unsigned, wrap_wrap]
  exact (Verdict.message hsum hlayout h.registered).parse_eq hmin h.length_le

/-- At the front of the input stands exactly the encoded message. -/
theorem frameHead_frame {m : Msg} (h : Transmissible pb m) (rest : List UInt8) :
    frameHead pb (frame pb m ++ rest) = .item m (frame pb m).length := by
  have hb := length_frameBody pb m
  have hmax := h.length_le
  have hpos := h.typeName_ne_nil
  have hl : (frame pb m).length = kHeaderLen + (frameBody pb m).length := by
    rw [frame, List.length_append, length_beBytes, kHeaderLen]
  have hmin : ¬ (frame pb m ++ rest).length < kMinMessageLen + kHeaderLen := by
    rw [List.length_append, hl]
    simp only [kMinMessageLen, kHeaderLen]
    omega
  have hlen : wrap 32 (beNat ((frame pb m ++ rest).take 4)) = ((frameBody pb m).length : Int) := by
    simp only [kMaxMessageLen] at hmax
    rw [frame, List.append_assoc, List.take_left' (length_beBytes _ _),
      beNat_beBytes_of_lt (by omega), wrap_ofNat (by omega)]
  have hbody : ((frame pb m ++ rest).drop kHeaderLen).take (frameBody pb m).length =
      frameBody pb m := by
    rw [kHeaderLen, frame, List.append_assoc, List.drop_left' (length_beBytes _ _),
      List.take_left]
  have hbad : ¬ ((kMaxMessageLen : Int) < (frameBody pb m).length ∨
      ((frameBody pb m).length : Int) < kMinMessageLen) := by
    simp only [kMinMessageLen, kHeaderLen]
    omega
  have hfull : ¬ (frame pb m ++ rest).length <
      (((frameBody pb m).length : Int) + kHeaderLen).toNat := by
    rw [List.length_append, hl]
    omega
  rw [frameHead, if_neg hmin, hlen, frameOfLen, if_neg hbad, if_neg hfull, Int.toNat_natCast, hbody,
    parse_frameBody pb h, hl]
  simp only [← Nat.cast_add, Int.toNat_natCast]

/-- Draining the frames of messages gives the messages and leaves nothing. -/
theorem drain_frames {msgs : List Msg} (h : ∀ m ∈ msgs, Transmissible pb m) :
    (frameDecoder pb).drain (msgs.map (frame pb)).flatten = (msgs.map .item, []) := by
  induction msgs with
  | nil => exact (frameDecoder pb).drain_wait rfl
  | cons m msgs ih =>
    have hi : (frameDecoder pb).head (frame pb m ++ (msgs.map (frame pb)).flatten) =
        .item m (frame pb m).length := by
      rw [head_frameDecoder]
      exact frameHead_frame pb (h m List.mem_cons_self) _
    rw [List.map_cons, List.flatten_cons, (frameDecoder pb).drain_item hi, List.drop_left,
      ih fun m hm => h m (List.mem_cons_of_mem _ hm)]
    rfl

/-- The beginning of a stream of frames is drained into the beginning of the messages. -/
theorem drain_of_prefix {msgs : List Msg} (h : ∀ m ∈ msgs, Transmissible pb m) {xs : List UInt8}
    (hx : xs <+: (msgs.map (frame pb)).flatten) :
    ∃ got, ((frameDecoder pb).drain xs).1 = got.map .item ∧ got <+: msgs := by
  obtain ⟨ys, hy⟩ := hx
  have hd := drain_frames pb h
  rw [← hy] at hd
  have hn : firstError ((frameDecoder pb).drain (xs ++ ys)).1 = none := by
    rw [hd]
    exact firstError_map_item msgs
  have hn' := (frameDecoder pb).firstError_drain_of_append hn
  refine ⟨items ((frameDecoder pb).drain xs).1, eq_map_items hn', ?_⟩
  have hi := congrArg (fun r => items r.1) ((frameDecoder pb).drain_append xs ys hn')
  simp only [hd, items_append, items_map_item] at hi
  exact ⟨_, hi.symm⟩

/-- Every list of messages can be encoded, each into a new buffer. -/
theorem mapM_fillEmptyBuffer {msgs : List Msg} (h : ∀ m ∈ msgs, Transmissible pb m) :
    (msgs.mapM fun m => (fillEmptyBuffer pb (Buffer.new kInitialSize) m).map Buffer.readable) =
      some (msgs.map (frame pb)) := by
  induction msgs with
  | nil => rfl
  | cons m msgs ih =>
    obtain ⟨b, hb, hr⟩ := fillEmptyBuffer_spec pb (Buffer.rep_new kInitialSize) rfl
      (h m List.mem_cons_self).length_le
    have ih := ih fun m hm => h m (List.mem_cons_of_mem _ hm)
    simp [List.mapM_cons, hb, hr.readable_eq, ih]

/-! ### The two results about streams -/

/-- However the frames of messages are cut, receiving them calls `messageCallback_` once for
each message in order, never calls `errorCallback_` and leaves nothing to read. -/
theorem receive_encoded (msgs : List Msg) (h : ∀ m ∈ msgs, Transmissible pb m) :
    ∃ frames,
      (msgs.mapM fun m =>
        (fillEmptyBuffer pb (Buffer.new kInitialSize) m).map Buffer.readable) = some frames ∧
      ∀ chunks : List (List UInt8), chunks.flatten = frames.flatten →
        ∃ buf, receive pb (Buffer.new kInitialSize) chunks = some (msgs.map .item, buf) ∧
          buf.readable = [] := by
  refine ⟨_, mapM_fillEmptyBuffer pb h, fun chunks hc => ?_⟩
  have hd := drain_frames pb h
  obtain ⟨buf, hb, hr⟩ := receive_spec pb chunks (Buffer.rep_new kInitialSize)
  have hn : firstError ((frameDecoder pb).drain ([] ++ chunks.flatten)).1 = none := by
    rw [List.nil_append, hc, hd]
    exact firstError_map_item msgs
  rw [(frameDecoder pb).feed_rest chunks rfl hn, List.nil_append, hc, hd] at hb hr
  exact ⟨buf, hb, hr.readable_eq⟩

/-- One registered type `T` whose messages are their own payload. -/
def plainText : Protobuf (List UInt8) where
  Descriptor := Unit
  Prototype := Unit
  typeName _ := [84]
  serialize m := m
  findMessageTypeByName name := if name = [84] then some () else none
  getPrototype _ := some ()
  parseFromArray _ data := some data
  adler32 data := (data.map UInt8.toNat).sum
  find_nil := rfl

/-- Two messages. -/
theorem receive_encoded_plainText :
    (∀ m ∈ [[1, 2], []], Transmissible plainText m) ∧ ∃ frames,
      ([[1, 2], []].mapM fun m =>
        (fillEmptyBuffer plainText (Buffer.new kInitialSize) m).map Buffer.readable) = some frames ∧
      ∀ chunks : List (List UInt8), chunks.flatten = frames.flatten →
        ∃ buf, receive plainText (Buffer.new kInitialSize) chunks =
          some ([[1, 2], []].map .item, buf) ∧ buf.readable = [] := by
  have h : ∀ m ∈ [[1, 2], []], Transmissible plainText m := by
    intro m hm
    refine ⟨⟨(), rfl, rfl⟩, ?_⟩
    simp only [List.mem_cons, List.not_mem_nil, or_false] at hm
    rcases hm with rfl | rfl <;> decide
  exact ⟨h, receive_encoded plainText _ h⟩

/-- Two cuts of one stream of bytes deliver the same messages and the same first error; and
after an error no later input delivers a message. -/
theorem receive_cut_independent (chunks : List (List UInt8)) :
    ∃ signals buf, receive pb (Buffer.new kInitialSize) chunks = some (signals, buf) ∧
      (∀ chunks', chunks'.flatten = chunks.flatten →
        ∃ signals' buf', receive pb (Buffer.new kInitialSize) chunks' = some (signals', buf') ∧
          items signals' = items signals ∧ firstError signals' = firstError signals) ∧
      ((firstError signals).isSome → ∀ more, ∃ signals' buf',
        receive pb buf more = some (signals', buf') ∧ items signals' = []) := by
  have hw : (frameDecoder pb).head [] = .wait := rfl
  obtain ⟨buf, hb, hr⟩ := receive_spec pb chunks (Buffer.rep_new kInitialSize)
  refine ⟨_, buf, hb, fun chunks' hc => ?_, fun he more => ?_⟩
  · obtain ⟨buf', hb', -⟩ := receive_spec pb chunks' (Buffer.rep_new kInitialSize)
    obtain ⟨hi, hf⟩ := (frameDecoder pb).feed_signals chunks hw
    obtain ⟨hi', hf'⟩ := (frameDecoder pb).feed_signals chunks' hw
    exact ⟨_, buf', hb', by rw [hi', hi, hc], by rw [hf', hf, hc]⟩
  · rcases (frameDecoder pb).head_feed chunks hw with ⟨hn, -⟩ | ⟨e, -, hf⟩
    · rw [hn] at he
      cases he
    · obtain ⟨buf', hb', -⟩ := receive_spec pb more hr
      exact ⟨_, buf', hb', ((frameDecoder pb).feed_of_fail more hf).1⟩

end Stream
end IMServer.Net
