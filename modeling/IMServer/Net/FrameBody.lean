import IMServer.Net.Codec

/-!
# The parts of a frame body

What `parse` (`server/src/codec.cc:158–207`) makes of a body, by the frame grammar of
`codec.h:9–16`: the first part that is not as the grammar has it decides the error.
-/

namespace IMServer.Net

open IMServer.Base

section Grammar

variable {Msg : Type} (pb : Protobuf Msg)

/-! ### Reads -/

/-- A slice within the bytes. -/
theorem slice_eq {buf : List UInt8} {off n : Nat} (h : off + n ≤ buf.length) :
    slice buf off n = some ((buf.drop off).take n) := by
  rw [slice, if_pos h]

/-- Four bytes as an `int32_t`. -/
theorem asInt32_eq {buf : List UInt8} {off : Nat} (h : off + 4 ≤ buf.length) :
    asInt32 buf off = some (wrap 32 (beNat ((buf.drop off).take 4))) := by
  simp [asInt32, slice_eq h]

private theorem slice_part {buf p d q : List UInt8} {off n : Nat} (hb : buf = p ++ d ++ q)
    (ho : off = p.length) (hn : n = d.length) : slice buf off n = some d := by
  subst hb ho hn
  rw [slice_eq (by simp), List.append_assoc, List.drop_left, List.take_left]

private theorem asInt32_part {buf p q : List UInt8} {off x : Nat}
    (hb : buf = p ++ beBytes 4 x ++ q) (ho : off = p.length) (hx : x < 256 ^ 4) :
    asInt32 buf off = some (wrap 32 x) := by
  rw [asInt32, slice_part hb ho (by simp)]
  simp [beNat_beBytes_of_lt hx]

/-! ### The grammar -/

/-- The last four bytes are the checksum of those before them. -/
def ChecksumHolds (body : List UInt8) : Prop :=
  ∃ front, body = front ++ beBytes 4 (pb.adler32 front)

/-- The parts of a body: the length of the name and the byte after it, a name that is not empty,
that byte, the payload and four bytes of checksum. -/
structure Layout (body name : List UInt8) (t : UInt8) (payload sum : List UInt8) : Prop where
  body_eq : body = beBytes 4 (name.length + 1) ++ name ++ [t] ++ payload ++ sum
  two_le : 2 ≤ name.length + 1
  length_sum : sum.length = 4

/-- The name is registered and the payload parses as a message of its type. -/
def ParsesAs (name payload : List UInt8) (m : Msg) : Prop :=
  ∃ prototype, createMessage pb name = some prototype ∧
    pb.parseFromArray prototype payload = some m

/-! ### The parts of a body -/

/-- Two checksums agree as `int32_t` values exactly when the four bytes are the word. -/
theorem wrap_eq_wrap_beNat_iff {sum : List UInt8} (h : sum.length = 4) (x : Nat) :
    wrap 32 x = wrap 32 (beNat sum) ↔ sum = beBytes 4 x := by
  have hlt : beNat sum < 2 ^ 32 := by simpa [h] using beNat_lt sum
  constructor
  · intro heq
    have hmod :
        (x : Int) % ((2 ^ 32 : Nat) : Int) = (beNat sum : Int) % ((2 ^ 32 : Nat) : Int) := by
      rw [← Int.bmod_emod (x := x), ← Int.bmod_emod (x := (beNat sum : Int))]
      exact congrArg (· % ((2 ^ 32 : Nat) : Int)) heq
    have hnat : beNat (beBytes 4 x) = beNat sum := by
      rw [beNat_beBytes]
      omega
    calc sum = beBytes sum.length (beNat sum) := (beBytes_beNat sum).symm
      _ = beBytes (beBytes 4 x).length (beNat (beBytes 4 x)) := by rw [hnat, h, length_beBytes]
      _ = beBytes 4 x := beBytes_beNat _
  · intro heq
    rw [heq, beNat_beBytes]
    exact (Int.emod_bmod x (2 ^ 32)).symm

section Body

variable {body : List UInt8}

private theorem checksumHolds_iff (h : 4 ≤ body.length) {sum : Int}
    (hs : asInt32 body (body.length - 4) = some sum) :
    ChecksumHolds pb body ↔ wrap 32 (pb.adler32 (body.take (body.length - 4))) = sum := by
  have hl : (body.drop (body.length - 4)).length = 4 := by
    rw [List.length_drop]
    omega
  rw [Net.asInt32_eq (by omega), Option.some.injEq] at hs
  rw [← hs, List.take_of_length_le hl.le, wrap_eq_wrap_beNat_iff hl]
  constructor
  · rintro ⟨front, hb⟩
    have hf : body.length - 4 = front.length := by
      rw [hb, List.length_append, length_beBytes]
      omega
    rw [hf, hb, List.take_left, List.drop_left]
  · intro hb
    exact ⟨_, hb ▸ (List.take_append_drop (body.length - 4) body).symm⟩

/-- The length field of a body that is laid out as the grammar has it. -/
theorem Layout.asInt32_eq {name payload sum : List UInt8} {t : UInt8}
    (h : Layout body name t payload sum) (hmax : body.length ≤ kMaxMessageLen) :
    asInt32 body 0 = some ((name.length + 1 : Nat) : Int) := by
  have hl := congrArg List.length h.body_eq
  simp only [List.length_append, length_beBytes, kMaxMessageLen] at hl hmax
  have hread : asInt32 body 0 = some (wrap 32 ((name.length + 1 : Nat) : Int)) :=
    asInt32_part (p := []) (q := name ++ [t] ++ payload ++ sum)
      (by rw [h.body_eq]; simp only [List.nil_append, List.append_assoc]) rfl (by omega)
  rw [hread, wrap_eq_self (by decide) (by omega) (by omega)]

/-- A length field in range gives a layout. -/
theorem exists_layout {n : Nat} (hn : asInt32 body 0 = some (n : Int)) (h2 : 2 ≤ n)
    (hle : n + 8 ≤ body.length) (hmax : body.length ≤ kMaxMessageLen) :
    ∃ name t payload sum, Layout body name t payload sum := by
  simp only [kMaxMessageLen] at hmax
  have hword : body.take 4 = beBytes 4 n := by
    rw [Net.asInt32_eq (by omega), List.drop_zero, Option.some.injEq] at hn
    rw [← wrap_eq_wrap_beNat_iff (by rw [List.length_take]; omega), hn]
    exact wrap_eq_self (by decide) (by omega) (by omega)
  have hlt : n - 1 < (body.drop 4).length := by
    rw [List.length_drop]
    omega
  have hname : ((body.drop 4).take (n - 1)).length + 1 = n := by
    rw [List.length_take_of_le hlt.le]
    omega
  refine ⟨(body.drop 4).take (n - 1), (body.drop 4)[n - 1],
    ((body.drop 4).drop (n - 1 + 1)).take (body.length - n - 8),
    ((body.drop 4).drop (n - 1 + 1)).drop (body.length - n - 8), ?_, by omega, ?_⟩
  · rw [hname, ← hword]
    calc body = body.take 4 ++ body.drop 4 := (List.take_append_drop 4 body).symm
      _ = body.take 4 ++ ((body.drop 4).take (n - 1) ++ (body.drop 4).drop (n - 1)) :=
        congrArg (body.take 4 ++ ·) (List.take_append_drop (n - 1) (body.drop 4)).symm
      _ = _ := by
        rw [List.drop_eq_getElem_cons hlt]
        simp only [List.append_assoc, List.cons_append, List.nil_append, List.take_append_drop]
  · simp only [List.length_drop]
    omega

/-! ### The three outcomes -/

/-- What becomes of a name and a payload. -/
def readMessage (name payload : List UInt8) : Except ErrorCode Msg :=
  match createMessage pb name with
  | some prototype =>
    match pb.parseFromArray prototype payload with
    | some message => .ok message
    | none => .error .kParseError
  | none => .error .kUnknownMessageType

private theorem parse_of_not_checksum (h : 4 ≤ body.length) (hsum : ¬ ChecksumHolds pb body) :
    parse pb body = some (.error .kCheckSumError) := by
  obtain ⟨sum, hs⟩ : ∃ v, asInt32 body (body.length - 4) = some v := ⟨_, Net.asInt32_eq (by omega)⟩
  rw [checksumHolds_iff pb h hs] at hsum
  simp -implicitDefEqProofs only [parse, kHeaderLen, h, guard_true, Option.pure_def,
    Option.bind_eq_bind, Option.bind_some, hs]
  rw [if_neg hsum]

private theorem parse_of_not_layout (hmin : kMinMessageLen ≤ body.length)
    (hmax : body.length ≤ kMaxMessageLen) (hsum : ChecksumHolds pb body)
    (hno : ¬ ∃ name t payload sum, Layout body name t payload sum) :
    parse pb body = some (.error .kInvalidNameLen) := by
  simp only [kMinMessageLen, kHeaderLen] at hmin
  obtain ⟨sum, hs⟩ : ∃ v, asInt32 body (body.length - 4) = some v := ⟨_, Net.asInt32_eq (by omega)⟩
  obtain ⟨n, hn⟩ : ∃ v, asInt32 body 0 = some v := ⟨_, Net.asInt32_eq (by omega)⟩
  rw [checksumHolds_iff pb (by omega) hs] at hsum
  simp -implicitDefEqProofs only [parse, kHeaderLen, show 4 ≤ body.length by omega, guard_true,
    Option.pure_def, Option.bind_eq_bind, Option.bind_some, hs, hn]
  rw [if_pos hsum, if_neg]
  rintro ⟨h2, hle⟩
  obtain ⟨k, rfl⟩ : ∃ k : Nat, n = k := ⟨n.toNat, by omega⟩
  exact hno (exists_layout hn (by omega) (by omega) hmax)

private theorem parse_of_layout {name payload sum : List UInt8} {t : UInt8}
    (hl : Layout body name t payload sum) (hmax : body.length ≤ kMaxMessageLen)
    (hsum : ChecksumHolds pb body) : parse pb body = some (readMessage pb name payload) := by
  have h2 := hl.two_le
  have h4 := hl.length_sum
  have hlen := congrArg List.length hl.body_eq
  simp only [List.length_append, length_beBytes, List.length_singleton, h4] at hlen
  have hname : slice body 4 (name.length + 1 - 1) = some name :=
    slice_part (p := beBytes 4 (name.length + 1)) (q := [t] ++ payload ++ sum)
      (by rw [hl.body_eq]; simp only [List.append_assoc]) (length_beBytes 4 _).symm (by omega)
  have hpay : slice body (4 + (name.length + 1)) (body.length - (name.length + 1) - 2 * 4) =
      some payload :=
    slice_part (p := beBytes 4 (name.length + 1) ++ name ++ [t]) (q := sum) hl.body_eq
      (by simp only [List.length_append, length_beBytes, List.length_singleton]; omega) (by omega)
  obtain ⟨v, hs⟩ : ∃ v, asInt32 body (body.length - 4) = some v := ⟨_, Net.asInt32_eq (by omega)⟩
  rw [checksumHolds_iff pb (by omega) hs] at hsum
  simp -implicitDefEqProofs only [parse, kHeaderLen, show 4 ≤ body.length by omega, guard_true,
    Option.pure_def, Option.bind_eq_bind, Option.bind_some, hs, hl.asInt32_eq hmax,
    Int.toNat_natCast, hname, hpay]
  rw [if_pos hsum, if_pos (by omega), readMessage]
  cases createMessage pb name with
  | none => rfl
  | some prototype =>
    dsimp only
    cases pb.parseFromArray prototype payload <;> rfl

/-- A body with the right checksum is laid out with it. -/
theorem Layout.sum_eq {name payload sum : List UInt8} {t : UInt8}
    (hl : Layout body name t payload sum) (hsum : ChecksumHolds pb body) :
    sum = beBytes 4 (pb.adler32 (beBytes 4 (name.length + 1) ++ name ++ [t] ++ payload)) := by
  obtain ⟨front, hf⟩ := hsum
  have heq := hl.body_eq.symm.trans hf
  obtain ⟨rfl, rfl⟩ := List.append_inj' heq (by rw [hl.length_sum, length_beBytes])
  rfl

/-- What `parse` answers, by the first condition that fails. -/
inductive Verdict (body : List UInt8) : Except ErrorCode Msg → Prop
  | checksum : ¬ ChecksumHolds pb body → Verdict body (.error .kCheckSumError)
  | nameLen : ChecksumHolds pb body → (¬ ∃ name t payload sum, Layout body name t payload sum) →
    Verdict body (.error .kInvalidNameLen)
  | type {name payload sum : List UInt8} {t : UInt8} : ChecksumHolds pb body →
    Layout body name t payload sum → createMessage pb name = none →
    Verdict body (.error .kUnknownMessageType)
  | payload {name payload sum : List UInt8} {t : UInt8} {prototype : pb.Prototype} :
    ChecksumHolds pb body → Layout body name t payload sum →
    createMessage pb name = some prototype → pb.parseFromArray prototype payload = none →
    Verdict body (.error .kParseError)
  | message {name payload sum : List UInt8} {t : UInt8} {m : Msg} : ChecksumHolds pb body →
    Layout body name t payload sum → ParsesAs pb name payload m → Verdict body (.ok m)

variable (body) in
/-- Every body is judged. -/
theorem exists_verdict : ∃ r, Verdict pb body r := by
  by_cases hsum : ChecksumHolds pb body
  · by_cases hl : ∃ name t payload sum, Layout body name t payload sum
    · obtain ⟨name, t, payload, sum, hl⟩ := hl
      cases hc : createMessage pb name with
      | none => exact ⟨_, .type hsum hl hc⟩
      | some prototype =>
        cases hp : pb.parseFromArray prototype payload with
        | none => exact ⟨_, .payload hsum hl hc hp⟩
        | some m => exact ⟨_, .message hsum hl ⟨prototype, hc, hp⟩⟩
    · exact ⟨_, .nameLen hsum hl⟩
  · exact ⟨_, .checksum hsum⟩

variable {pb}

/-- `parse` gives the verdict. -/
theorem Verdict.parse_eq {r : Except ErrorCode Msg} (hmin : kMinMessageLen ≤ body.length)
    (hmax : body.length ≤ kMaxMessageLen) (h : Verdict pb body r) : parse pb body = some r := by
  cases h with
  | checksum hsum =>
    simp only [kMinMessageLen, kHeaderLen] at hmin
    exact parse_of_not_checksum pb (by omega) hsum
  | nameLen hsum hno => exact parse_of_not_layout pb hmin hmax hsum hno
  | type hsum hl hc => rw [parse_of_layout pb hl hmax hsum, readMessage, hc]
  | payload hsum hl hc hp => simp only [parse_of_layout pb hl hmax hsum, readMessage, hc, hp]
  | message hsum hl hm =>
    obtain ⟨prototype, hc, hp⟩ := hm
    simp only [parse_of_layout pb hl hmax hsum, readMessage, hc, hp]

end Body

end Grammar

end IMServer.Net
