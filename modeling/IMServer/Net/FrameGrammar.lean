import IMServer.Base.CheckedInt
import IMServer.Net.CodecStream

/-!
# What `parse` accepts

`server/src/codec.cc:158–207` once more, with the pointers and `int` values it computes from the
lengths that the peer has sent: a pointer that leaves the body, a read outside it and an `int` that
overflows are `none`. None of them happens in a body that `onMessage` hands over, and the answer
follows the frame grammar of `codec.h:9–16`: the first part that is not as the grammar has it
decides the error.
-/

namespace IMServer.Net

open IMServer.Base

section Grammar

variable {Msg : Type} (pb : Protobuf Msg)

/-- `buf + off`, which must stay inside the array or point to its end. -/
def pointer (buf : List UInt8) (off : Int) : Option Nat :=
  if 0 ≤ off ∧ off ≤ buf.length then some off.toNat else none

/-- The `n` bytes from an offset on. -/
def readAt (buf : List UInt8) (off : Nat) (n : Int) : Option (List UInt8) :=
  if 0 ≤ n then slice buf off n.toNat else none

/-- `codec.cc:158–207`, with every pointer and every `int` that it computes. -/
def parseChecked (buf : List UInt8) : Option (Except ErrorCode Msg) := do
  let len ← int32 buf.length
  let sumAt ← pointer buf ((← pointer buf len) - kHeaderLen)
  let expectedCheckSum ← asInt32 buf sumAt
  let summed ← readAt buf 0 (← sub32 len kHeaderLen)
  let checkSum := wrap 32 (pb.adler32 summed)
  if checkSum = expectedCheckSum then do
    let nameLen ← asInt32 buf 0
    let maxLen ← sub32 len (← mul32 2 kHeaderLen)
    if 2 ≤ nameLen ∧ nameLen ≤ maxLen then do
      let first ← pointer buf kHeaderLen
      let past ← pointer buf ((← pointer buf (first + nameLen)) - 1)
      let typeName ← readAt buf first (past - first)
      match createMessage pb typeName with
      | some prototype => do
        let data ← pointer buf (first + nameLen)
        let dataLen ← sub32 (← sub32 len nameLen) (← mul32 2 kHeaderLen)
        match pb.parseFromArray prototype (← readAt buf data dataLen) with
        | some message => some (.ok message)
        | none => some (.error .kParseError)
      | none => some (.error .kUnknownMessageType)
    else some (.error .kInvalidNameLen)
  else some (.error .kCheckSumError)

/-! ### Pointers and lengths stay in range -/

private theorem pointer_eq {buf : List UInt8} {off : Int} (h0 : 0 ≤ off) (h : off ≤ buf.length) :
    pointer buf off = some off.toNat := by
  rw [pointer, if_pos ⟨h0, h⟩]

private theorem readAt_eq {buf : List UInt8} {off : Nat} {n : Int} (h0 : 0 ≤ n) :
    readAt buf off n = slice buf off n.toNat := by
  rw [readAt, if_pos h0]

section Name

variable {body : List UInt8} {n : Nat}

/-- The last byte of a name that leaves room for the checksum. -/
theorem pointer_last (hn : 2 ≤ n) (hlen : n + 8 ≤ body.length) :
    pointer body (((4 + n : Nat) : Int) - 1) = some (3 + n) := by
  rw [pointer_eq (by omega) (by omega)]
  exact congrArg some (by omega)

private theorem readAt_typeName (hn : 2 ≤ n) :
    readAt body 4 (((3 + n : Nat) : Int) - ((4 : Nat) : Int)) = slice body 4 (n - 1) := by
  have hcount : (((3 + n : Nat) : Int) - ((4 : Nat) : Int)).toNat = n - 1 := by omega
  rw [readAt_eq (by omega), hcount]

private theorem readAt_data (hlen : n + 8 ≤ body.length) :
    readAt body (4 + n) ((body.length : Int) - n - 8) =
      slice body (4 + n) (body.length - n - 2 * 4) := by
  have hcount : ((body.length : Int) - n - 8).toNat = body.length - n - 2 * 4 := by omega
  rw [readAt_eq (by omega), hcount]

end Name

/-- Between the limits of `onMessage`, no pointer leaves the body and no `int` overflows. -/
theorem parseChecked_eq_parse {body : List UInt8} (hmin : kMinMessageLen ≤ body.length)
    (hmax : body.length ≤ kMaxMessageLen) : parseChecked pb body = parse pb body := by
  simp only [kMinMessageLen, kMaxMessageLen, kHeaderLen] at hmin hmax
  have hlen : int32 body.length = some (body.length : Int) := int32_eq (by omega) (by omega)
  have hend : pointer body (body.length : Int) = some body.length :=
    pointer_eq (by omega) (by omega)
  have hsum : pointer body ((body.length : Int) - (4 : Nat)) = some (body.length - 4) := by
    rw [pointer_eq (by omega) (by omega)]
    exact congrArg some (by omega)
  have hsub : sub32 (body.length : Int) (4 : Nat) = some ((body.length : Int) - 4) :=
    sub32_eq (by omega) (by omega)
  have hread : readAt body 0 ((body.length : Int) - 4) = some (body.take (body.length - 4)) := by
    rw [readAt_eq (by omega), slice_eq (by omega), List.drop_zero,
      show ((body.length : Int) - 4).toNat = body.length - 4 by omega]
  have hmul : mul32 2 (4 : Nat) = some 8 := rfl
  have hroom : sub32 (body.length : Int) 8 = some ((body.length : Int) - 8) :=
    sub32_eq (by omega) (by omega)
  obtain ⟨expected, hexp⟩ : ∃ v, asInt32 body (body.length - 4) = some v :=
    ⟨_, asInt32_eq (by omega)⟩
  obtain ⟨nameLen, hname⟩ : ∃ v, asInt32 body 0 = some v := ⟨_, asInt32_eq (by omega)⟩
  simp -implicitDefEqProofs only [parseChecked, parse, kHeaderLen, hlen, hend, hsum, hexp, hsub,
    hread, hname, hmul, hroom, Option.bind_eq_bind, Option.bind_some, Option.pure_def,
    show 4 ≤ body.length by omega, guard_true]
  split
  · by_cases hn : 2 ≤ nameLen ∧ nameLen ≤ (body.length : Int) - 8
    · obtain ⟨n, rfl⟩ : ∃ n : Nat, nameLen = n := ⟨nameLen.toNat, by omega⟩
      have hn' : 2 ≤ (n : Int) ∧ (n : Int) ≤ (body.length : Int) - 2 * ((4 : Nat) : Int) := by omega
      have hfirst : pointer body ((4 : Nat) : Int) = some 4 := pointer_eq (by omega) (by omega)
      have hpast : pointer body (((4 : Nat) : Int) + n) = some (4 + n) :=
        pointer_eq (by omega) (by omega)
      have hdata : sub32 (body.length : Int) n = some ((body.length : Int) - n) :=
        sub32_eq (by omega) (by omega)
      have hdata' : sub32 ((body.length : Int) - n) 8 = some ((body.length : Int) - n - 8) :=
        sub32_eq (by omega) (by omega)
      have hlen' : n + 8 ≤ body.length := by omega
      have htwo : 2 ≤ n := by omega
      simp -implicitDefEqProofs only [if_pos hn, if_pos hn', hfirst, hpast,
        pointer_last htwo hlen', readAt_typeName htwo, hdata, hdata', readAt_data hlen',
        Option.bind_some]
      rfl
    · rw [if_neg hn, if_neg (by omega)]
  · rfl

/-- Every body between the limits is judged by its grammar, without a read outside it and without
overflow: a message is returned exactly for the frames of a registered type whose payload parses,
and otherwise the first of checksum, name length, type and payload that is wrong gives the code. -/
theorem parseChecked_judges_frames {body : List UInt8} (hmin : kMinMessageLen ≤ body.length)
    (hmax : body.length ≤ kMaxMessageLen) :
    ∃ r, parseChecked pb body = some r ∧
      (∀ m, r = .ok m ↔ ∃ name t payload, 2 ≤ name.length + 1 ∧
        body = (beBytes 4 (name.length + 1) ++ name ++ [t] ++ payload) ++
          beBytes 4 (pb.adler32 (beBytes 4 (name.length + 1) ++ name ++ [t] ++ payload)) ∧
        ParsesAs pb name payload m) ∧
      (r = .error .kCheckSumError ↔ ¬ ChecksumHolds pb body) ∧
      (r = .error .kInvalidNameLen ↔ ChecksumHolds pb body ∧
        ¬ ∃ name t payload sum, Layout body name t payload sum) ∧
      (r = .error .kUnknownMessageType ↔ ChecksumHolds pb body ∧
        ∃ name t payload sum, Layout body name t payload sum ∧ createMessage pb name = none) ∧
      (r = .error .kParseError ↔ ChecksumHolds pb body ∧
        ∃ name t payload sum, Layout body name t payload sum ∧
          ∃ prototype, createMessage pb name = some prototype ∧
            pb.parseFromArray prototype payload = none) := by
  obtain ⟨r, hv⟩ := exists_verdict pb body
  have heq : parse pb body = some r := hv.parse_eq hmin hmax
  have huniq : ∀ r', Verdict pb body r' → r = r' := fun r' h' =>
    Option.some.inj (heq.symm.trans (h'.parse_eq hmin hmax))
  refine ⟨r, (parseChecked_eq_parse pb hmin hmax).trans heq, fun m => ⟨?_, ?_⟩, ⟨?_, ?_⟩, ⟨?_, ?_⟩,
    ⟨?_, ?_⟩, ?_, ?_⟩
  · rintro rfl
    cases hv with
    | message hsum hl hm => exact ⟨_, _, _, hl.two_le, hl.sum_eq pb hsum ▸ hl.body_eq, hm⟩
  · rintro ⟨name, t, payload, h2, hbody, hm⟩
    exact huniq _ (.message ⟨_, hbody⟩ ⟨hbody, h2, length_beBytes 4 _⟩ hm)
  · rintro rfl
    cases hv with
    | checksum hsum => exact hsum
  · exact fun hsum => huniq _ (.checksum hsum)
  · rintro rfl
    cases hv with
    | nameLen hsum hno => exact ⟨hsum, hno⟩
  · rintro ⟨hsum, hno⟩
    exact huniq _ (.nameLen hsum hno)
  · rintro rfl
    cases hv with
    | type hsum hl hc => exact ⟨hsum, _, _, _, _, hl, hc⟩
  · rintro ⟨hsum, name, t, payload, sum, hl, hc⟩
    exact huniq _ (.type hsum hl hc)
  · rintro rfl
    cases hv with
    | payload hsum hl hc hp => exact ⟨hsum, _, _, _, _, hl, _, hc, hp⟩
  · rintro ⟨hsum, name, t, payload, sum, hl, prototype, hc, hp⟩
    exact huniq _ (.payload hsum hl hc hp)

/-- A frame of two bytes. -/
theorem parseChecked_judges_frames_plainText :
    kMinMessageLen ≤ (frameBody plainText [1, 2]).length ∧
      (frameBody plainText [1, 2]).length ≤ kMaxMessageLen ∧
      parseChecked plainText (frameBody plainText [1, 2]) = some (.ok [1, 2]) := by
  have hmin : kMinMessageLen ≤ (frameBody plainText [1, 2]).length := by decide
  have hmax : (frameBody plainText [1, 2]).length ≤ kMaxMessageLen := by decide
  obtain ⟨r, hr, hok, -⟩ := parseChecked_judges_frames plainText hmin hmax
  have hframe : r = .ok [1, 2] :=
    (hok [1, 2]).mpr ⟨[84], 0, [1, 2], by decide, by decide, (), rfl, rfl⟩
  exact ⟨hmin, hmax, hframe ▸ hr⟩

end Grammar

end IMServer.Net
