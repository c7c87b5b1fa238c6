import IMServer.Base.Decimal
import IMServer.Base.Protobuf
import IMServer.Business.Messages
import Mathlib.Tactic.MkIffOfInductiveProp

/-!
# Packets and sessions as protobuf messages

`SerializeWithCachedSizesToArray` and `ParseFromString` of the messages of `server/proto/IM.proto`
that `CacheConn::setpb` and `getpb` pass: `SendHongbao` with its `RobLog`s, and `Session` with its
`UserInfo`. Fields are written in the order of their numbers, absent ones are not written, and what
is unknown is written behind them as it was read. A text is a string of bytes, a `double` its 64
bits.
-/

namespace IMServer.Business

open IMServer.Base
open IMServer.Base.Protobuf (Field Payload)

/-! ### Values of fields -/

/-- A string field as a text of bytes. -/
def textOf (bs : List UInt8) : String := String.ofList (bs.map fun b => Char.ofNat b.toNat)

/-- Every character stands for a byte. -/
def ByteText (s : String) : Prop := ∀ c ∈ s.toList, c.toNat < 256

instance (s : String) : Decidable (ByteText s) :=
  List.decidableBAll (fun c : Char => c.toNat < 256) s.toList

private theorem textOf_bytesOf {s : String} (h : ByteText s) : textOf (bytesOf s) = s := by
  have hlist : (bytesOf s).map (fun b => Char.ofNat b.toNat) = s.toList := by
    rw [bytesOf, List.map_map]
    refine (List.map_congr_left fun c hc => ?_).trans (List.map_id _)
    show Char.ofNat (UInt8.ofNat c.toNat).toNat = c
    rw [UInt8.toNat_ofNat', Nat.mod_eq_of_lt (h c hc), Char.ofNat_toNat]
  rw [textOf, hlist, String.ofList_toList]

private theorem toNat_charOfNat {n : Nat} (h : n < 256) : (Char.ofNat n).toNat = n := by
  rw [Char.ofNat, dif_pos (.inl (by omega))]
  rfl

/-- Bytes read as a text are read back. -/
theorem bytesOf_textOf (bs : List UInt8) : bytesOf (textOf bs) = bs := by
  rw [bytesOf, textOf, String.toList_ofList, List.map_map]
  refine (List.map_congr_left fun b _ => ?_).trans (List.map_id _)
  show UInt8.ofNat (Char.ofNat b.toNat).toNat = b
  rw [toNat_charOfNat b.toNat_lt, UInt8.ofNat_toNat]

/-- They make a text of bytes. -/
theorem byteText_textOf (bs : List UInt8) : ByteText (textOf bs) := by
  intro c hc
  rw [textOf, String.toList_ofList] at hc
  obtain ⟨b, -, rfl⟩ := List.mem_map.mp hc
  rw [toNat_charOfNat b.toNat_lt]
  exact b.toNat_lt

/-- `string`. -/
def stringField (number : Nat) (s : String) : Field := ⟨number, .bytes (bytesOf s)⟩

/-- `int32`, `int64` and `bool`. -/
def intField (number : Nat) (x : Int) : Field := ⟨number, .varint (unsigned 64 x)⟩

/-- `double`. -/
def doubleField (number : Nat) (x : Int) : Field := ⟨number, .fixed64 (unsigned 64 x)⟩

/-- A value of `int64`. -/
def IsInt64 (x : Int) : Prop := -2 ^ 63 ≤ x ∧ x < 2 ^ 63
  deriving Decidable

/-- The pattern of a `double`. -/
def IsBits (x : Int) : Prop := 0 ≤ x ∧ x < 2 ^ 64
  deriving Decidable

private theorem wrap_unsigned_of_isInt64 {x : Int} (h : IsInt64 x) :
    wrap 64 (unsigned 64 x) = x := by
  rw [wrap_unsigned, wrap_eq_self (by decide) h.1 h.2]

private theorem unsigned_of_isBits {x : Int} (h : IsBits x) : (unsigned 64 x : Int) = x := by
  obtain ⟨h0, hlt⟩ := h
  rw [unsigned, Int.emod_eq_of_lt h0 hlt]
  omega

/-! ### `RobLog` -/

namespace RobLog

/-- The fields that are set. -/
def fields (r : RobLog) : List Field :=
  [stringField 1 r.name, doubleField 2 r.money, intField 3 r.time].filter (·.number ∉ r.unset)

def serialize (r : RobLog) : List UInt8 := Protobuf.write r.fields ++ r.unknown

/-- Read one field into the object. -/
def merge (r : RobLog) (f : Field) : RobLog :=
  match f.number, f.payload with
  | 1, .bytes bs => { r with name := textOf bs, unset := r.unset.erase 1 }
  | 2, .fixed64 v => { r with money := v, unset := r.unset.erase 2 }
  | 3, .varint v => { r with time := wrap 64 v, unset := r.unset.erase 3 }
  | _, _ => { r with unknown := r.unknown ++ f.write }

def parse (bs : List UInt8) : Option RobLog :=
  (Protobuf.read bs).map fun fs => fs.foldl merge { unset := [1, 2, 3] }

/-- A log with all its fields and no others. -/
@[mk_iff]
structure Plain (r : RobLog) : Prop where
  name : ByteText r.name
  money : IsBits r.money
  time : IsInt64 r.time
  unset : r.unset = []
  unknown : r.unknown = []

instance (r : RobLog) : Decidable r.Plain := decidable_of_iff' _ (plain_iff r)

end RobLog

/-! ### `SendHongbao` -/

namespace SendHongbao

/-- The fields that are set. -/
def fields (p : SendHongbao) : List Field :=
  ([stringField 1 p.sender, doubleField 2 p.money, doubleField 3 p.leftmoney,
      intField 4 p.category, intField 5 p.count, intField 6 p.leftcount,
      stringField 7 p.receiver] ++
    (p.robitem.map fun r => (⟨8, .bytes r.serialize⟩ : Field)) ++
    [intField 9 p.timestamp]).filter (·.number ∉ p.unset)

def serialize (p : SendHongbao) : List UInt8 := Protobuf.write p.fields ++ p.unknown

/-- Read one field into the object; a `RobLog` may be unreadable. -/
def merge (p : SendHongbao) (f : Field) : Option SendHongbao :=
  match f.number, f.payload with
  | 1, .bytes bs => some { p with sender := textOf bs, unset := p.unset.erase 1 }
  | 2, .fixed64 v => some { p with money := v, unset := p.unset.erase 2 }
  | 3, .fixed64 v => some { p with leftmoney := v, unset := p.unset.erase 3 }
  | 4, .varint v => some { p with category := wrap 64 v, unset := p.unset.erase 4 }
  | 5, .varint v => some { p with count := wrap 64 v, unset := p.unset.erase 5 }
  | 6, .varint v => some { p with leftcount := wrap 64 v, unset := p.unset.erase 6 }
  | 7, .bytes bs => some { p with receiver := textOf bs, unset := p.unset.erase 7 }
  | 8, .bytes bs => (RobLog.parse bs).map fun r => { p with robitem := p.robitem ++ [r] }
  | 9, .varint v => some { p with timestamp := wrap 64 v, unset := p.unset.erase 9 }
  | _, _ => some { p with unknown := p.unknown ++ f.write }

def parse (bs : List UInt8) : Option SendHongbao :=
  (Protobuf.read bs).bind fun fs => fs.foldlM merge { unset := [1, 2, 3, 4, 5, 6, 7, 9] }

/-- A packet with all its fields and no others. -/
@[mk_iff]
structure Plain (p : SendHongbao) : Prop where
  sender : ByteText p.sender
  money : IsBits p.money
  leftmoney : IsBits p.leftmoney
  category : IsInt64 p.category
  count : IsInt64 p.count
  leftcount : IsInt64 p.leftcount
  receiver : ByteText p.receiver
  robitem : ∀ r ∈ p.robitem, r.Plain
  timestamp : IsInt64 p.timestamp
  unset : p.unset = []
  unknown : p.unknown = []

instance (p : SendHongbao) : Decidable p.Plain := decidable_of_iff' _ (plain_iff p)

end SendHongbao

/-! ### `UserInfo` and `Session` -/

namespace UserInfo

/-- `Login` sets every field; `BaseBusiness.cc:332–342`. -/
def fields (u : UserInfo) : List Field :=
  [intField 1 u.id, intField 2 u.sex, intField 3 u.age, stringField 4 u.name, stringField 5 u.nick,
    stringField 6 u.phone, stringField 7 u.email, intField 8 u.createtime,
    intField 9 u.updatetime, stringField 10 u.signInfo, doubleField 11 u.money]

def serialize (u : UserInfo) : List UInt8 := Protobuf.write u.fields

/-- Read one field into the object. -/
def merge (u : UserInfo) (f : Field) : UserInfo :=
  match f.number, f.payload with
  | 1, .varint v => { u with id := wrap 64 v }
  | 2, .varint v => { u with sex := wrap 32 v }
  | 3, .varint v => { u with age := wrap 32 v }
  | 4, .bytes bs => { u with name := textOf bs }
  | 5, .bytes bs => { u with nick := textOf bs }
  | 6, .bytes bs => { u with phone := textOf bs }
  | 7, .bytes bs => { u with email := textOf bs }
  | 8, .varint v => { u with createtime := wrap 64 v }
  | 9, .varint v => { u with updatetime := wrap 64 v }
  | 10, .bytes bs => { u with signInfo := textOf bs }
  | 11, .fixed64 v => { u with money := v }
  | _, _ => u

/-- A value of every field that its type can hold. -/
@[mk_iff]
structure Plain (u : UserInfo) : Prop where
  id : IsInt64 u.id
  sex : -2 ^ 31 ≤ u.sex ∧ u.sex < 2 ^ 31
  age : -2 ^ 31 ≤ u.age ∧ u.age < 2 ^ 31
  name : ByteText u.name
  nick : ByteText u.nick
  phone : ByteText u.phone
  email : ByteText u.email
  createtime : IsInt64 u.createtime
  updatetime : IsInt64 u.updatetime
  signInfo : ByteText u.signInfo
  money : IsBits u.money

instance (u : UserInfo) : Decidable u.Plain := decidable_of_iff' _ (plain_iff u)

end UserInfo

namespace Session

/-- `Login` sets every field but `ip`; `BaseBusiness.cc:330–346`. -/
def fields (s : Session) : List Field :=
  [intField 1 (if s.islogin then 1 else 0), intField 2 s.hashkey] ++
    (if s.ip = "" then [] else [stringField 3 s.ip]) ++
    [stringField 4 s.redisname, ⟨5, .bytes s.userinfo.serialize⟩]

def serialize (s : Session) : List UInt8 := Protobuf.write s.fields

/-- Read one field into the object; the `UserInfo` may be unreadable. -/
def merge (s : Session) (f : Field) : Option Session :=
  match f.number, f.payload with
  | 1, .varint v => some { s with islogin := v ≠ 0 }
  | 2, .varint v => some { s with hashkey := wrap 64 v }
  | 3, .bytes bs => some { s with ip := textOf bs }
  | 4, .bytes bs => some { s with redisname := textOf bs }
  | 5, .bytes bs =>
    (Protobuf.read bs).map fun fs => { s with userinfo := fs.foldl UserInfo.merge s.userinfo }
  | _, _ => some s

def parse (bs : List UInt8) : Option Session :=
  (Protobuf.read bs).bind fun fs => fs.foldlM merge {}

/-- A value of every field that its type can hold. -/
@[mk_iff]
structure Plain (s : Session) : Prop where
  hashkey : IsInt64 s.hashkey
  ip : ByteText s.ip
  redisname : ByteText s.redisname
  userinfo : s.userinfo.Plain

instance (s : Session) : Decidable s.Plain := decidable_of_iff' _ (plain_iff s)

end Session

/-! ### What is written is read back -/

private theorem fits_intField {n : Nat} (h0 : 0 < n) (hn : n < 2 ^ 29) (x : Int) :
    (intField n x).Fits :=
  ⟨h0, hn, unsigned_lt 64 x⟩

private theorem fits_doubleField {n : Nat} (h0 : 0 < n) (hn : n < 2 ^ 29) (x : Int) :
    (doubleField n x).Fits :=
  ⟨h0, hn, unsigned_lt 64 x⟩

/-- A field of bytes in a message that is not too long. -/
theorem fits_bytes {fs : List Field} (hlen : (Protobuf.write fs).length < 2 ^ 31) {n : Nat}
    {bs : List UInt8} (hmem : ⟨n, .bytes bs⟩ ∈ fs) (h0 : 0 < n) (hn : n < 2 ^ 29) :
    (⟨n, .bytes bs⟩ : Field).Fits := by
  have hle := Protobuf.length_write_le_of_mem hmem
  have hbs : bs.length ≤ (Field.write ⟨n, .bytes bs⟩).length := by
    simp only [Field.write, Payload.write, List.length_append]
    omega
  have hlt : bs.length < 2 ^ 31 := by omega
  exact ⟨h0, hn, hlt⟩

private theorem RobLog.parse_serialize
    {r : RobLog} (h : r.Plain) (hlen : r.serialize.length < 2 ^ 31) :
    parse r.serialize = some r := by
  obtain ⟨name, money, time, unset, unknown⟩ := r
  obtain ⟨hname, hmoney, htime, hunset, hunknown⟩ := h
  cases hunset
  cases hunknown
  have hser : serialize ⟨name, money, time, [], []⟩ =
      Protobuf.write [stringField 1 name, doubleField 2 money, intField 3 time] :=
    List.append_nil _
  rw [hser] at hlen ⊢
  have hfits : ∀ f ∈ [stringField 1 name, doubleField 2 money, intField 3 time], f.Fits := by
    intro f hf
    have hmem := hf
    simp only [List.mem_cons, List.not_mem_nil, or_false] at hf
    rcases hf with rfl | rfl | rfl
    · exact fits_bytes hlen hmem (by decide) (by decide)
    · exact fits_doubleField (by decide) (by decide) _
    · exact fits_intField (by decide) (by decide) _
  rw [parse, Protobuf.read_write hfits, Option.map_some]
  simp only [List.foldl_cons, List.foldl_nil, merge, stringField, doubleField, intField,
    textOf_bytesOf hname, unsigned_of_isBits hmoney, wrap_unsigned_of_isInt64 htime]
  rfl

/-- The logs of a packet are read one after the other. -/
theorem foldlM_merge_robitem {items : List RobLog} (h : ∀ r ∈ items, r.Plain)
    (hlen : ∀ r ∈ items, r.serialize.length < 2 ^ 31) (p : SendHongbao) :
    (items.map fun r => (⟨8, .bytes r.serialize⟩ : Field)).foldlM SendHongbao.merge p =
      some { p with robitem := p.robitem ++ items } := by
  induction items generalizing p with
  | nil => simp
  | cons r items ih =>
    have hparse := RobLog.parse_serialize (h r List.mem_cons_self) (hlen r List.mem_cons_self)
    have hmerge : SendHongbao.merge p ⟨8, .bytes r.serialize⟩ =
        some { p with robitem := p.robitem ++ [r] } := by
      rw [SendHongbao.merge]
      simp only [hparse, Option.map_some]
    rw [List.map_cons, List.foldlM_cons, hmerge]
    refine (ih (fun r' hr' => h r' (List.mem_cons_of_mem r hr'))
      (fun r' hr' => hlen r' (List.mem_cons_of_mem r hr')) _).trans ?_
    rw [List.append_assoc]
    rfl

/-- The fields of a packet that has them all. -/
theorem SendHongbao.fields_of_plain {p : SendHongbao} (h : p.Plain) :
    p.fields = [stringField 1 p.sender, doubleField 2 p.money, doubleField 3 p.leftmoney,
        intField 4 p.category, intField 5 p.count, intField 6 p.leftcount,
        stringField 7 p.receiver] ++
      (p.robitem.map fun r => (⟨8, .bytes r.serialize⟩ : Field)) ++ [intField 9 p.timestamp] := by
  rw [fields, h.unset]
  exact List.filter_eq_self.mpr fun f _ => by simp

private theorem SendHongbao.fields_fit {p : SendHongbao} (h : p.Plain)
    (hlen : (Protobuf.write p.fields).length < 2 ^ 31) : ∀ f ∈ p.fields, f.Fits := by
  intro f hf
  have hmem := hf
  rw [fields_of_plain h] at hf
  simp only [List.mem_append, List.mem_cons, List.not_mem_nil, or_false, List.mem_map] at hf
  rcases hf with ((rfl | rfl | rfl | rfl | rfl | rfl | rfl) | ⟨r, -, rfl⟩) | rfl
  · exact fits_bytes hlen hmem (by decide) (by decide)
  · exact fits_doubleField (by decide) (by decide) _
  · exact fits_doubleField (by decide) (by decide) _
  · exact fits_intField (by decide) (by decide) _
  · exact fits_intField (by decide) (by decide) _
  · exact fits_intField (by decide) (by decide) _
  · exact fits_bytes hlen hmem (by decide) (by decide)
  · exact fits_bytes hlen hmem (by decide) (by decide)
  · exact fits_intField (by decide) (by decide) _

/-- A packet that is serialised is read back. -/
theorem SendHongbao.parse_serialize {p : SendHongbao} (h : p.Plain)
    (hlen : p.serialize.length < 2 ^ 31) : parse p.serialize = some p := by
  have hser : p.serialize = Protobuf.write p.fields := by
    rw [serialize, h.unknown, List.append_nil]
  rw [hser] at hlen ⊢
  have hfits := fields_fit h hlen
  have hitems : ∀ r ∈ p.robitem, r.serialize.length < 2 ^ 31 := by
    intro r hr
    have hmem : (⟨8, .bytes r.serialize⟩ : Field) ∈ p.fields := by
      rw [fields_of_plain h]
      simp only [List.mem_append, List.mem_map]
      exact .inl (.inr ⟨r, hr, rfl⟩)
    exact (hfits _ hmem).payload
  rw [parse, Protobuf.read_write hfits, Option.bind_some, fields_of_plain h, List.foldlM_append,
    List.foldlM_append]
  simp only [List.foldlM_cons, List.foldlM_nil, merge, stringField, doubleField, intField,
    textOf_bytesOf h.sender, textOf_bytesOf h.receiver, unsigned_of_isBits h.money,
    unsigned_of_isBits h.leftmoney, wrap_unsigned_of_isInt64 h.category,
    wrap_unsigned_of_isInt64 h.count, wrap_unsigned_of_isInt64 h.leftcount,
    wrap_unsigned_of_isInt64 h.timestamp, Option.bind_eq_bind, Option.bind_some, Option.pure_def,
    foldlM_merge_robitem h.robitem hitems]
  obtain ⟨sender, money, leftmoney, category, count, leftcount, receiver, robitem, timestamp,
    unset, unknown⟩ := p
  have hunset : unset = [] := h.unset
  have hunknown : unknown = [] := h.unknown
  rw [hunset, hunknown]
  rfl

private theorem wrap_of_int32 {x : Int} (h : -2 ^ 31 ≤ x ∧ x < 2 ^ 31) :
    wrap 32 (unsigned 64 x) = x := by
  have hwrap : wrap 32 x = x := wrap_eq_self (by decide) h.1 h.2
  by_cases h0 : 0 ≤ x
  · rw [unsigned_of_isBits ⟨h0, by omega⟩, hwrap]
  · have hneg : (unsigned 64 x : Int) = x + 2 ^ 32 * (2 ^ 32 : Nat) := by
      rw [unsigned]
      omega
    rw [hneg, wrap, Int.add_mul_bmod_self_right]
    exact hwrap

/-- The fields of a user are read back. -/
theorem UserInfo.foldl_merge_fields {u : UserInfo} (h : u.Plain) : u.fields.foldl merge {} = u := by
  simp only [fields, List.foldl_cons, List.foldl_nil, merge, stringField, doubleField, intField,
    wrap_unsigned_of_isInt64 h.id, wrap_of_int32 h.sex, wrap_of_int32 h.age,
    textOf_bytesOf h.name, textOf_bytesOf h.nick, textOf_bytesOf h.phone, textOf_bytesOf h.email,
    wrap_unsigned_of_isInt64 h.createtime, wrap_unsigned_of_isInt64 h.updatetime,
    textOf_bytesOf h.signInfo, unsigned_of_isBits h.money]

private theorem UserInfo.fields_fit {u : UserInfo} (hlen : u.serialize.length < 2 ^ 31) :
    ∀ f ∈ u.fields, f.Fits := by
  intro f hf
  have hmem := hf
  simp only [fields, List.mem_cons, List.not_mem_nil, or_false] at hf
  rcases hf with rfl | rfl | rfl | rfl | rfl | rfl | rfl | rfl | rfl | rfl | rfl
  · exact fits_intField (by decide) (by decide) _
  · exact fits_intField (by decide) (by decide) _
  · exact fits_intField (by decide) (by decide) _
  · exact fits_bytes hlen hmem (by decide) (by decide)
  · exact fits_bytes hlen hmem (by decide) (by decide)
  · exact fits_bytes hlen hmem (by decide) (by decide)
  · exact fits_bytes hlen hmem (by decide) (by decide)
  · exact fits_intField (by decide) (by decide) _
  · exact fits_intField (by decide) (by decide) _
  · exact fits_bytes hlen hmem (by decide) (by decide)
  · exact fits_doubleField (by decide) (by decide) _

private theorem Session.fields_fit {s : Session} (hlen : s.serialize.length < 2 ^ 31) :
    ∀ f ∈ s.fields, f.Fits := by
  intro f hf
  have hmem := hf
  simp only [fields, List.mem_append, List.mem_cons, List.not_mem_nil, or_false] at hf
  rcases hf with ((rfl | rfl) | hip) | rfl | rfl
  · exact fits_intField (by decide) (by decide) _
  · exact fits_intField (by decide) (by decide) _
  · split at hip
    · cases hip
    · rw [List.mem_singleton.mp hip] at hmem ⊢
      exact fits_bytes hlen hmem (by decide) (by decide)
  · exact fits_bytes hlen hmem (by decide) (by decide)
  · exact fits_bytes hlen hmem (by decide) (by decide)

/-- A session that is serialised is read back. -/
theorem Session.parse_serialize {s : Session} (h : s.Plain)
    (hlen : s.serialize.length < 2 ^ 31) : parse s.serialize = some s := by
  have hfits := fields_fit hlen
  have huser : s.userinfo.serialize.length < 2 ^ 31 := by
    have hmem : (⟨5, .bytes s.userinfo.serialize⟩ : Field) ∈ s.fields := by
      simp [fields]
    exact (hfits _ hmem).payload
  have hread : Protobuf.read s.userinfo.serialize = some s.userinfo.fields :=
    Protobuf.read_write (UserInfo.fields_fit huser)
  have hlogin : ∀ b : Bool, decide (unsigned 64 (if b then 1 else 0) ≠ 0) = b := by decide
  have hip : ∀ t : Session, t.ip = "" → (if s.ip = "" then [] else [stringField 3 s.ip]).foldlM
      merge t = some { t with ip := s.ip } := by
    intro t ht
    split
    · next hempty => simp [hempty, ← ht]
    · simp [merge, stringField, textOf_bytesOf h.ip]
  rw [parse, serialize, Protobuf.read_write hfits, Option.bind_some, fields, List.foldlM_append,
    List.foldlM_append]
  simp only [List.foldlM_cons, List.foldlM_nil, merge, stringField, intField,
    wrap_unsigned_of_isInt64 h.hashkey, Option.bind_eq_bind, Option.bind_some, Option.pure_def,
    hlogin]
  rw [show [(⟨3, .bytes (bytesOf s.ip)⟩ : Field)] = [stringField 3 s.ip] from rfl, hip _ rfl]
  simp only [Option.bind_some, textOf_bytesOf h.redisname, hread, Option.map_some,
    UserInfo.foldl_merge_fields h.userinfo]

end IMServer.Business
