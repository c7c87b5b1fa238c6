import IMServer.Base.Decoder
import IMServer.Net.Buffer

/-!
# The protobuf frame codec

`server/src/codec.cc` and `codec.h`. A frame is a length, a name length, the type name with
its terminator, the payload and a checksum, all integers in network order
(`codec.h:9–16`). Protobuf and zlib are parameters. Reads outside the frame are `none`.
-/

namespace IMServer.Net

open IMServer.Base

/-- `sizeof(int32_t)`; `codec.h:85`. -/
def kHeaderLen : Nat := 4

/-- Name length, one-letter name with terminator, checksum; `codec.h:86`. -/
def kMinMessageLen : Nat := 2 * kHeaderLen + 2

/-- `codec.h:87`. -/
def kMaxMessageLen : Nat := 64 * 1024 * 1024

/-- The codes `errorCallback_` is given; `codec.h:27–35` without `kNoError`, which is the
result `.ok` here. -/
inductive ErrorCode where
  | kInvalidLength
  | kCheckSumError
  | kInvalidNameLen
  | kUnknownMessageType
  | kParseError
  deriving DecidableEq, Repr

/-- What the codec uses of the protobuf runtime and of zlib. No message type has the empty
name. -/
structure Protobuf (Msg : Type) where
  Descriptor : Type
  Prototype : Type
  /-- `Message::GetTypeName`. -/
  typeName : Msg → List UInt8
  /-- `Message::SerializeWithCachedSizesToArray`; `ByteSize` is its length. -/
  serialize : Msg → List UInt8
  /-- `DescriptorPool::FindMessageTypeByName`. -/
  findMessageTypeByName : List UInt8 → Option Descriptor
  /-- `MessageFactory::GetPrototype`. -/
  getPrototype : Descriptor → Option Prototype
  /-- `Message::ParseFromArray` on a new message of the prototype. -/
  parseFromArray : Prototype → List UInt8 → Option Msg
  /-- `adler32` with the seed 1. -/
  adler32 : List UInt8 → Nat
  find_nil : findMessageTypeByName [] = none

section Codec

variable {Msg : Type} (pb : Protobuf Msg)

/-- `codec.cc:141–156`. -/
def createMessage (typeName : List UInt8) : Option pb.Prototype := do
  let descriptor ← pb.findMessageTypeByName typeName
  pb.getPrototype descriptor

/-- The bytes at an offset, `none` when they are not all there. -/
def slice (buf : List UInt8) (off n : Nat) : Option (List UInt8) :=
  if off + n ≤ buf.length then some ((buf.drop off).take n) else none

/-- `codec.cc:98–103`, at an offset. -/
def asInt32 (buf : List UInt8) (off : Nat) : Option Int := do
  let bytes ← slice buf off 4
  some (wrap 32 (beNat bytes))

/-- Read one frame body; `codec.cc:158–207`. -/
def parse (buf : List UInt8) : Option (Except ErrorCode Msg) := do
  let len := buf.length
  guard (kHeaderLen ≤ len)
  let expectedCheckSum ← asInt32 buf (len - kHeaderLen)
  let checkSum := wrap 32 (pb.adler32 (buf.take (len - kHeaderLen)))
  if checkSum = expectedCheckSum then do
    let nameLen ← asInt32 buf 0
    if 2 ≤ nameLen ∧ nameLen ≤ (len : Int) - 2 * kHeaderLen then do
      let typeName ← slice buf kHeaderLen (nameLen.toNat - 1)
      match createMessage pb typeName with
      | some prototype => do
        let data ← slice buf (kHeaderLen + nameLen.toNat) (len - nameLen.toNat - 2 * kHeaderLen)
        match pb.parseFromArray prototype data with
        | some message => some (.ok message)
        | none => some (.error .kParseError)
      | none => some (.error .kUnknownMessageType)
    else some (.error .kInvalidNameLen)
  else some (.error .kCheckSumError)

/-- What one turn of the loop of `onMessage` does with the buffer. -/
inductive Turn (Msg : Type) where
  /-- The loop ends, with or without a call of `errorCallback_`. -/
  | stop (error : Option ErrorCode)
  /-- `messageCallback_` is called and the frame is retrieved. -/
  | next (message : Msg) (buf : Buffer)

/-- The body of the loop; `codec.cc:111–137`. -/
def onMessageTurn (buf : Buffer) : Option (Turn Msg) :=
  if kMinMessageLen + kHeaderLen ≤ buf.readableBytes then do
    let len ← buf.peekInt32
    if (kMaxMessageLen : Int) < len ∨ len < kMinMessageLen then
      some (.stop (some .kInvalidLength))
    else if (len + kHeaderLen).toNat ≤ buf.readableBytes then do
      match ← parse pb ((buf.readable.drop kHeaderLen).take len.toNat) with
      | .ok message => do
        let buf' ← buf.retrieve (kHeaderLen + len).toNat
        some (.next message buf')
      | .error e => some (.stop (some e))
    else some (.stop none)
  else some (.stop none)

private theorem retrieve_lt {b b' : Buffer} {n : Nat} (h : b.retrieve n = some b')
    (hn : 0 < n) : b'.readableBytes < b.readableBytes := by
  unfold Buffer.retrieve at h
  by_cases hg : n ≤ b.readableBytes
  · simp only [hg, guard_true, Option.pure_def, Option.bind_eq_bind, Option.bind_some] at h
    split at h
    · cases h
      simp only [Buffer.readableBytes] at hg ⊢
      omega
    · cases h
      simp only [Buffer.readableBytes, Buffer.retrieveAll] at hg ⊢
      omega
  · simp [hg] at h

/-- Every turn that goes on has taken a frame off the buffer. -/
theorem onMessageTurn_next_lt {buf buf' : Buffer} {m : Msg}
    (h : onMessageTurn pb buf = some (.next m buf')) :
    buf'.readableBytes < buf.readableBytes := by
  unfold onMessageTurn at h
  split at h
  · cases hp : buf.peekInt32 with
    | none => simp [hp] at h
    | some len =>
      simp only [hp, Option.bind_eq_bind, Option.bind_some] at h
      split at h
      · simp at h
      · next hlen =>
        split at h
        · cases hx : parse pb ((buf.readable.drop kHeaderLen).take len.toNat) with
          | none => simp [hx] at h
          | some r =>
            cases r with
            | error e => simp [hx] at h
            | ok message =>
              cases hr : buf.retrieve (kHeaderLen + len).toNat with
              | none => simp [hx, hr] at h
              | some b =>
                simp only [hx, hr, Option.bind_some, Option.some.injEq, Turn.next.injEq] at h
                obtain ⟨-, rfl⟩ := h
                exact retrieve_lt hr (by simp only [kMinMessageLen, kHeaderLen] at hlen ⊢; omega)
        · simp at h
  · simp at h

/-- Take frames off the buffer until the loop ends; `codec.cc:107–139`. The signals are the
calls of `messageCallback_` and `errorCallback_` in order. -/
def onMessage (buf : Buffer) : Option (List (Signal Msg ErrorCode) × Buffer) :=
  match _h : onMessageTurn pb buf with
  | none => none
  | some (.stop error) => some (error.toList.map .error, buf)
  | some (.next message buf') => (onMessage buf').map fun r => (.item message :: r.1, r.2)
termination_by buf.readableBytes
decreasing_by exact onMessageTurn_next_lt pb _h

/-- A connection's input: append what arrived and call `onMessage`, chunk by chunk. -/
def receive : Buffer → List (List UInt8) → Option (List (Signal Msg ErrorCode) × Buffer)
  | buf, [] => some ([], buf)
  | buf, chunk :: chunks => do
    let buf ← buf.append chunk
    let (now, buf) ← onMessage pb buf
    let (later, buf) ← receive buf chunks
    some (now ++ later, buf)

/-- The encoder; `codec.cc:12–44`. -/
def fillEmptyBuffer (buf : Buffer) (message : Msg) : Option Buffer := do
  guard (buf.readableBytes = 0)
  let typeName := pb.typeName message
  let nameLen := wrap 32 (typeName.length + 1)
  let buf ← buf.appendInt32 nameLen
  let buf ← buf.append ((typeName ++ [0]).take nameLen.toNat)
  let payload := pb.serialize message
  let buf ← buf.ensureWritableBytes payload.length
  let buf ← buf.write payload
  let checkSum := wrap 32 (pb.adler32 buf.readable)
  let buf ← buf.appendInt32 checkSum
  guard (buf.readableBytes = kHeaderLen + nameLen.toNat + payload.length + kHeaderLen)
  buf.prepend (beBytes 4 (unsigned 32 buf.readableBytes))

end Codec

end IMServer.Net
