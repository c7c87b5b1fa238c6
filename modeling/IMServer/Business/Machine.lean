import IMServer.Base.Hundredths
import IMServer.Business.Sequential
import IMServer.Business.Serialization

/-!
# The format of the source

The business functions over the bytes and the `double`s of the source: what `setpb` sends to Redis
is the serialisation with its zero bytes masked, what `getpb` parses is the value with every `~`
made a zero byte (`server/src/CachePool.cc:716–772`), and amounts are patterns of 64 bits. The
tables keep amounts exactly, in millionths, as `%lf` prints them.

A packet is kept by the store when no byte of it is `~` and it fits in the array of `setpb`. Its
amounts are whole cents up to a slack that grows with its grabs.
-/

namespace IMServer.Business

open IMServer.Base IMServer.Cache

/-! ### The format -/

/-- The `double`s of the source, as their patterns. -/
def Amounts.double : Amounts where
  toCents x := Double.toInt (Double.scale x.toNat 100)
  ofCents g := Double.ratio g 100
  sub x y := Double.sub x.toNat y.toNat
  short x y := Double.lt (Double.sub x.toNat y.toNat) (Double.ratio 1 1000000)
  printed x := Double.printed x.toNat
  atof x := Double.ratio x 1000000
  opening := 10000000000
  traps x y := decide (x = -2 ^ 31 ∧ y = -1)

/-- `std::stoi` of a text; `none` when it throws. -/
def stoiText (text : List UInt8) : Option Int :=
  let text := text.dropWhile isSpace
  let sign : Int := if text.head? = some 45 then -1 else 1
  let text := if text.head? = some 45 ∨ text.head? = some 43 then text.tail else text
  let digits := text.takeWhile fun b => IsDigit b
  let value := sign * readDigits digits
  if digits ≠ [] ∧ -2 ^ 31 ≤ value ∧ value < 2 ^ 31 then some value else none

/-- What `setpb` sends for a serialisation. What its array held before does not matter. -/
def setpbValue (serialized : List UInt8) : Option RedisValue :=
  (storedValue (List.replicate kValueSize 0) serialized).map .bytes

/-- What `setpb` sends for a message. -/
def setpbStore : RedisValue → Option RedisValue
  | .hongbao p => setpbValue p.serialize
  | .session s => setpbValue s.serialize
  | v => some v

/-- The format of the source, with the chats of `wire`. -/
def machine (wire : Wire) : Format :=
  { wire, Amounts.double with
    stoiBytes := stoiText
    parseHongbao := fun t => SendHongbao.parse (replaceToZero (signedNumeral t))
    parseSession := fun t => Session.parse (replaceToZero (signedNumeral t))
    parseHongbaoBytes := fun bs => SendHongbao.parse (replaceToZero bs)
    parseSessionBytes := fun bs => Session.parse (replaceToZero bs)
    store := setpbStore }

private theorem machine_store (wire : Wire) (v : RedisValue) :
    (machine wire).store v = setpbStore v := rfl

/-! ### What the store keeps -/

private theorem setpbValue_of_lt {s : List UInt8} (h : s.length < kValueSize) :
    setpbValue s = some (.bytes (s.map maskZero)) := by
  rw [setpbValue, storedValue_of_lt List.length_replicate h]
  rfl

/-- A packet that `getpb` reads as it was passed to `setpb`. -/
@[mk_iff]
structure SendHongbao.Kept (p : SendHongbao) : Prop where
  plain : p.Plain
  clean : tilde ∉ p.serialize
  fits : p.serialize.length < kValueSize

instance (p : SendHongbao) : Decidable p.Kept := decidable_of_iff' _ p.kept_iff

/-- The value of a packet in Redis. -/
def SendHongbao.stored (p : SendHongbao) : RedisValue := .bytes (p.serialize.map maskZero)

/-- A session that `getpb` reads as it was passed to `setpb`. -/
@[mk_iff]
structure Session.Kept (s : Session) : Prop where
  plain : s.Plain
  clean : tilde ∉ s.serialize
  fits : s.serialize.length < kValueSize

instance (s : Session) : Decidable s.Kept := decidable_of_iff' _ s.kept_iff

/-- The value of a session in Redis. -/
def Session.stored (s : Session) : RedisValue := .bytes (s.serialize.map maskZero)

/-- A value that is not empty is parsed as it was serialised. -/
private theorem parse_masked {α : Type} {parse : List UInt8 → Option α} {s : List UInt8}
    (hclean : tilde ∉ s) (hne : s ≠ []) :
    ∃ b bs, s.map maskZero = b :: bs ∧ parse (replaceToZero (b :: bs)) = parse s := by
  obtain ⟨b, bs, hs⟩ := List.exists_cons_of_ne_nil (List.map_eq_nil_iff.not.mpr hne)
  exact ⟨b, bs, hs, by rw [← hs, (replaceToZero_masked_iff s).mpr hclean]⟩

private theorem write_cons_ne_nil (f : Protobuf.Field) (fs : List Protobuf.Field) :
    Protobuf.write (f :: fs) ≠ [] := by
  intro h
  have hle := Protobuf.length_le_write (f :: fs)
  rw [h] at hle
  exact absurd hle (Nat.not_succ_le_zero _)

section Kept

variable {wire : Wire} {p : SendHongbao}

/-- A packet that fits in the array is stored. -/
theorem SendHongbao.store_of_lt (h : p.serialize.length < kValueSize) :
    (machine wire).store (.hongbao p) = some p.stored := by
  rw [machine_store, setpbStore, setpbValue_of_lt h, SendHongbao.stored]

/-- A kept packet fits into the array. -/
theorem SendHongbao.Kept.store (h : p.Kept) :
    (machine wire).store (.hongbao p) = some p.stored := SendHongbao.store_of_lt h.fits

/-- It does not overrun. -/
theorem SendHongbao.Kept.store_ne_none (h : p.Kept) :
    (machine wire).store (.hongbao p) ≠ none := by
  rw [h.store]
  exact Option.some_ne_none _

/-- A kept packet is read back. -/
theorem SendHongbao.Kept.read (h : p.Kept) :
    hongbaoRead (machine wire).toWire (some p.stored) = some (false, p) := by
  have hne : p.serialize ≠ [] := by
    rw [SendHongbao.serialize, SendHongbao.fields_of_plain h.plain]
    exact List.append_ne_nil_of_left_ne_nil (write_cons_ne_nil _ _) _
  have hlen : p.serialize.length < 2 ^ 31 := Nat.lt_trans h.fits (by decide)
  obtain ⟨b, bs, hs, hparse⟩ := @parse_masked _ SendHongbao.parse _ h.clean hne
  rw [SendHongbao.stored, hs]
  show (SendHongbao.parse (replaceToZero (b :: bs))).map _ = _
  rw [hparse, SendHongbao.parse_serialize h.plain hlen]
  rfl

/-- The value of a kept packet is that of no other. -/
theorem SendHongbao.Kept.stored_inj {q : SendHongbao} (hp : p.Kept) (hq : q.Kept)
    (h : p.stored = q.stored) : p = q := by
  have hread : hongbaoRead (machine plainWire).toWire (some p.stored) = _ := hp.read
  rw [h, hq.read] at hread
  exact (Prod.mk.inj (Option.some.inj hread)).2.symm

/-- A kept packet has fewer grabs than bytes. -/
theorem SendHongbao.Kept.length_robitem (h : p.Kept) : p.robitem.length < kValueSize := by
  have hle := Protobuf.length_le_write p.fields
  have hfits := h.fits
  rw [SendHongbao.serialize, List.length_append] at hfits
  rw [SendHongbao.fields_of_plain h.plain] at hle
  simp only [List.length_append, List.length_map, List.length_cons, List.length_nil] at hle
  rw [← SendHongbao.fields_of_plain h.plain] at hle
  omega

/-- A kept session fits into the array. -/
theorem Session.Kept.store {s : Session} (h : s.Kept) :
    (machine wire).store (.session s) = some s.stored := by
  rw [machine_store, setpbStore, setpbValue_of_lt h.fits, Session.stored]

/-- A kept session is read back. -/
theorem Session.Kept.read {s : Session} (h : s.Kept) :
    sessionRead (machine wire).toWire (some s.stored) = some s := by
  have hne : s.serialize ≠ [] := write_cons_ne_nil _ _
  have hlen : s.serialize.length < 2 ^ 31 := Nat.lt_trans h.fits (by decide)
  obtain ⟨b, bs, hs, hparse⟩ := @parse_masked _ Session.parse _ h.clean hne
  rw [Session.stored, hs]
  show Session.parse (replaceToZero (b :: bs)) = _
  rw [hparse, Session.parse_serialize h.plain hlen]

end Kept

/-! ### Amounts in cents -/

/-- The cents that an amount of a message is nearest to. -/
def centsOf (x : Int) : Int := Double.hundredths x.toNat

/-- A log with its amount in cents. -/
def RobLog.inCents (r : RobLog) : RobLog := { r with money := centsOf r.money }

/-- A packet with its amounts in cents. -/
def SendHongbao.inCents (p : SendHongbao) : SendHongbao :=
  { p with
    money := centsOf p.money, leftmoney := centsOf p.leftmoney
    robitem := p.robitem.map RobLog.inCents }

/-- The money left is a number of cents, up to two slacks for each grab. -/
def SendHongbao.Whole (p : SendHongbao) : Prop :=
  Double.Near p.leftmoney.toNat (centsOf p.leftmoney) (2 * p.robitem.length + 1)

/-- An amount that is printed without loss. -/
def Small (c : Int) : Prop := -2 ^ 24 ≤ c ∧ c ≤ 2 ^ 24
  deriving Decidable

/-- The double next to a number of cents. -/
theorem near_ofCents {c : Int} (hc : Small c) :
    Double.Near (Amounts.double.ofCents c).toNat c 1 := Double.near_ratio hc

/-- Small amounts of cents are exact. -/
theorem centsOf_ofCents {c : Int} (hc : Small c) : centsOf (Amounts.double.ofCents c) = c :=
  (near_ofCents hc).hundredths_eq (by decide)

/-- Nothing is no cents. -/
theorem centsOf_zero : centsOf 0 = 0 := Double.near_zero.hundredths_eq (by decide)

/-- A small amount of cents is printed exactly. -/
theorem printed_ofCents {c : Int} (hc : Small c) :
    Amounts.double.printed (Amounts.double.ofCents c) = some (c * 10000) :=
  (near_ofCents hc).printed_eq (by decide)

/-- No money is short of every amount; `BaseBusiness.cc:440`. -/
theorem short_zero {c : Int} (h0 : 0 < c) (hc : Small c) :
    Amounts.double.short 0 (Amounts.double.ofCents c) = true := by
  have hdiff : Double.Near (Double.sub 0 (Double.ratio c 100)) (0 - c) 2 := by
    have hhigh := hc.2
    exact Double.near_zero.sub (Double.near_ratio hc) (by decide) ⟨by omega, by omega⟩
  have hbound : Double.value (Double.ratio 1 1000000) =
      .finite false (Double.magnitude (Double.ratio 1 1000000)) := by decide +kernel
  simp only [Amounts.double, Int.toNat_zero, Int.toNat_natCast]
  exact hdiff.lt_of_neg (by decide) (by omega) hbound

/-- A new packet of a number of cents. -/
theorem whole_newHongbao {req : Hongbaoreq} {c : Int} (hc : Small c)
    (hm : req.money = Amounts.double.ofCents c) :
    (newHongbao req).Whole ∧
      (newHongbao req).inCents = newHongbao { req with money := c } := by
  have hcents : centsOf req.money = c := by rw [hm, centsOf_ofCents hc]
  constructor
  · show Double.Near req.money.toNat (centsOf req.money) 1
    rw [hcents, hm]
    exact near_ofCents hc
  · simp only [SendHongbao.inCents, newHongbao, hcents, List.map_nil]

namespace SendHongbao.Whole

variable {p : SendHongbao} (h : p.Whole) (hlen : p.robitem.length < kValueSize)

include h hlen

omit h in
private theorem slack_le : 2 * p.robitem.length + 1 ≤ 2 ^ 12 + 1 := by
  unfold kValueSize at hlen
  omega

/-- What is left is printed exactly. -/
theorem printed : Amounts.double.printed p.leftmoney = some (centsOf p.leftmoney * 10000) :=
  Double.Near.printed_eq h (slack_le hlen)

/-- The cast of the money left loses at most a cent; `BaseBusiness.cc:579`. -/
theorem toCents (h0 : 0 ≤ centsOf p.leftmoney) :
    0 ≤ Amounts.double.toCents p.leftmoney ∧
      Amounts.double.toCents p.leftmoney ≤ centsOf p.leftmoney ∧
      centsOf p.leftmoney ≤ Amounts.double.toCents p.leftmoney + 1 :=
  Double.Near.toInt_scale h (slack_le hlen) h0

/-- A share of whole cents leaves whole cents. -/
theorem takeShare {g : Int} (h0 : 0 ≤ g) (hg : g ≤ centsOf p.leftmoney) (name : String) (t : Int) :
    (takeShare p name g t .double).Whole ∧
      (takeShare p name g t .double).inCents = Business.takeShare p.inCents name g t := by
  have hsmall := Double.Near.small h
  have hg' : Small g := ⟨by omega, by omega⟩
  have hk : 2 * p.robitem.length + 1 ≤ 2 ^ 13 := by
    have := slack_le hlen
    omega
  have hnear := Double.Near.sub h (near_ofCents hg') hk ⟨by omega, by omega⟩
  have hleft : centsOf (Amounts.double.sub p.leftmoney (Amounts.double.ofCents g)) =
      centsOf p.leftmoney - g := by
    refine Double.Near.hundredths_eq (k := 2 ^ 12 + 1) (hnear.mono ?_) (by decide)
    unfold kValueSize at hlen
    omega
  constructor
  · rw [Whole]
    show Double.Near _ (centsOf (Amounts.double.sub p.leftmoney (Amounts.double.ofCents g)))
      (2 * (p.robitem ++ [_]).length + 1)
    rw [hleft, List.length_append, List.length_singleton]
    exact hnear
  · simp only [inCents, Business.takeShare, hleft, List.map_append, List.map_cons, List.map_nil,
      RobLog.inCents, centsOf_ofCents hg']
    rfl

end SendHongbao.Whole

end IMServer.Business
