import IMServer.Base.Bytes
import Mathlib.Tactic.Ring

/-!
# The protobuf wire format

Library: a message is a sequence of fields, each a number and a value of one of the wire types.
`scan` reads the fields of a byte string: groups are read to their end and kept as the bytes of
their fields, and a field number 0, an unknown wire type, a group that is not closed or a value that
is cut off makes the whole string unreadable. Fields that are written are read back.
-/

namespace IMServer.Base

namespace Protobuf

/-! ### Varints -/

/-- The low 7 bits first, in at most `k` bytes. -/
def writeVarint : Nat → Nat → List UInt8
  | 0, _ => []
  | k + 1, n =>
    if n < 128 then [UInt8.ofNat n]
    else UInt8.ofNat (n % 128 + 128) :: writeVarint k (n / 128)

/-- A number of at most 64 bits. -/
def varint (n : Nat) : List UInt8 := writeVarint 10 n

/-- Read at most `k` bytes. -/
def readVarint : Nat → List UInt8 → Option (Nat × List UInt8)
  | 0, _ => none
  | _ + 1, [] => none
  | k + 1, b :: bs =>
    if b.toNat < 128 then some (b.toNat, bs)
    else (readVarint k bs).map fun r => (b.toNat - 128 + 128 * r.1, r.2)

private theorem readVarint_small {k n : Nat} (hn : n < 128) (rest : List UInt8) :
    readVarint (k + 1) (writeVarint (k + 1) n ++ rest) = some (n, rest) := by
  have hbyte : (UInt8.ofNat n).toNat = n := by
    rw [UInt8.toNat_ofNat', Nat.mod_eq_of_lt (by omega)]
  rw [writeVarint, if_pos hn, List.singleton_append, readVarint, hbyte, if_pos hn]

private theorem readVarint_append {k n : Nat} (h : n < 128 ^ (k + 1)) (rest : List UInt8) :
    readVarint (k + 1) (writeVarint (k + 1) n ++ rest) = some (n, rest) := by
  induction k generalizing n with
  | zero => exact readVarint_small h rest
  | succ k ih =>
    by_cases hn : n < 128
    · exact readVarint_small hn rest
    · have hbyte : (UInt8.ofNat (n % 128 + 128)).toNat = n % 128 + 128 := by
        rw [UInt8.toNat_ofNat', Nat.mod_eq_of_lt (by omega)]
      have hlt : n / 128 < 128 ^ (k + 1) := by
        rw [Nat.div_lt_iff_lt_mul (by decide), ← Nat.pow_succ]
        exact h
      have hback : n % 128 + 128 - 128 + 128 * (n / 128) = n := by omega
      rw [writeVarint, if_neg hn, List.cons_append, readVarint, hbyte, if_neg (by omega), ih hlt,
        Option.map_some, hback]

/-- A number of 64 bits is read back. -/
theorem readVarint_varint {n : Nat} (h : n < 2 ^ 64) (rest : List UInt8) :
    readVarint 10 (varint n ++ rest) = some (n, rest) :=
  readVarint_append (by omega) rest

private theorem varint_ne_nil (n : Nat) : varint n ≠ [] := by
  unfold varint writeVarint
  split
  · exact List.cons_ne_nil _ _
  · exact List.cons_ne_nil _ _

/-! ### Fields -/

/-- The value of a field, by its wire type. -/
inductive Payload where
  | varint (v : Nat)
  | fixed64 (v : Nat)
  | bytes (bs : List UInt8)
  /-- The bytes of the fields of a group. -/
  | group (body : List UInt8)
  | fixed32 (v : Nat)
  deriving DecidableEq, Repr

structure Field where
  number : Nat
  payload : Payload
  deriving DecidableEq, Repr

namespace Payload

def wireType : Payload → Nat
  | varint _ => 0
  | fixed64 _ => 1
  | bytes _ => 2
  | group _ => 3
  | fixed32 _ => 5

/-- A word, least significant byte first. -/
def leBytes (n v : Nat) : List UInt8 := (beBytes n v).reverse

/-- The bytes behind the tag of a field of the given number. -/
def write (number : Nat) : Payload → List UInt8
  | varint v => Protobuf.varint v
  | fixed64 v => leBytes 8 v
  | bytes bs => Protobuf.varint bs.length ++ bs
  | group body => body ++ Protobuf.varint (number * 8 + 4)
  | fixed32 v => leBytes 4 v

/-- The value is one that the wire type can hold. -/
def Fits : Payload → Prop
  | varint v | fixed64 v => v < 2 ^ 64
  | bytes bs => bs.length < 2 ^ 31
  | group _ => False
  | fixed32 v => v < 2 ^ 32

end Payload

/-- Read a word of `n` bytes. -/
def readFixed (n : Nat) (bs : List UInt8) : Option (Nat × List UInt8) :=
  if n ≤ bs.length then some (beNat (bs.take n).reverse, bs.drop n) else none

/-- Read the value of a wire type that is no group. -/
def readPayload (wireType : Nat) (bs : List UInt8) : Option (Payload × List UInt8) :=
  match wireType with
  | 0 => (readVarint 10 bs).map fun r => (.varint (r.1 % 2 ^ 64), r.2)
  | 1 => (readFixed 8 bs).map fun r => (.fixed64 r.1, r.2)
  | 2 => (readVarint 10 bs).bind fun r =>
    if r.1 < 2 ^ 31 ∧ r.1 ≤ r.2.length then some (.bytes (r.2.take r.1), r.2.drop r.1) else none
  | 5 => (readFixed 4 bs).map fun r => (.fixed32 r.1, r.2)
  | _ => none

private theorem readFixed_append {n v : Nat} (h : v < 256 ^ n) (rest : List UInt8) :
    readFixed n (Payload.leBytes n v ++ rest) = some (v, rest) := by
  have hlen : (Payload.leBytes n v).length = n := by
    rw [Payload.leBytes, List.length_reverse, length_beBytes]
  rw [readFixed, if_pos (by rw [List.length_append, hlen]; omega), List.take_left' hlen,
    List.drop_left' hlen, Payload.leBytes, List.reverse_reverse, beNat_beBytes_of_lt h]

/-- A value that is written is read back, whatever follows. -/
theorem readPayload_append {p : Payload} (h : p.Fits) (number : Nat) (rest : List UInt8) :
    readPayload p.wireType (p.write number ++ rest) = some (p, rest) := by
  cases p with
  | varint v =>
    have hv : v < 2 ^ 64 := h
    show (readVarint 10 (Protobuf.varint v ++ rest)).map _ = _
    rw [readVarint_varint hv, Option.map_some, Nat.mod_eq_of_lt hv]
  | fixed64 v =>
    have hread := readFixed_append (n := 8) (v := v) h rest
    simp only [readPayload, Payload.wireType, Payload.write, hread, Option.map_some]
  | bytes bs =>
    have hbs : bs.length < 2 ^ 31 := h
    show (readVarint 10 _).bind _ = _
    rw [Payload.write, List.append_assoc, readVarint_varint (by omega), Option.bind_some,
      if_pos ⟨hbs, by rw [List.length_append]; omega⟩, List.take_left' rfl, List.drop_left' rfl]
  | group body => exact h.elim
  | fixed32 v =>
    have hread := readFixed_append (n := 4) (v := v) h rest
    simp only [readPayload, Payload.wireType, Payload.write, hread, Option.map_some]

/-- Tag and value. -/
def Field.write (f : Field) : List UInt8 :=
  varint (f.number * 8 + f.payload.wireType) ++ f.payload.write f.number

def write (fs : List Field) : List UInt8 := fs.flatMap Field.write

/-- A field that the wire format can hold. -/
structure Field.Fits (f : Field) : Prop where
  number_pos : 0 < f.number
  number_lt : f.number < 2 ^ 29
  payload : f.payload.Fits

/-! ### Reading -/

/-- Read fields to the end of the input, or to the end of the group; the fuel bounds the number of
tags. -/
def scan : Nat → Option Nat → List UInt8 → Option (List Field × List UInt8)
  | 0, _, _ => none
  | fuel + 1, group, bs =>
    if bs = [] then if group = none then some ([], []) else none
    else
      (readVarint 10 bs).bind fun tag =>
        let number := tag.1 % 2 ^ 32 / 8
        if number = 0 then none
        else if tag.1 % 8 = 4 then if group = some number then some ([], tag.2) else none
        else if tag.1 % 8 = 3 then
          (scan fuel (some number) tag.2).bind fun body =>
            (scan fuel group body.2).map fun r => (⟨number, .group (write body.1)⟩ :: r.1, r.2)
        else
          (readPayload (tag.1 % 8) tag.2).bind fun value =>
            (scan fuel group value.2).map fun r => (⟨number, value.1⟩ :: r.1, r.2)

/-- The fields of a message. -/
def read (bs : List UInt8) : Option (List Field) := (scan (bs.length + 1) none bs).map Prod.fst

private theorem wireType_of_fits {p : Payload} (h : p.Fits) :
    p.wireType < 3 ∨ p.wireType = 5 := by
  cases p with
  | group body => exact h.elim
  | fixed32 v => exact .inr rfl
  | varint v => exact .inl (Nat.le_of_ble_eq_true rfl)
  | fixed64 v => exact .inl (Nat.le_of_ble_eq_true rfl)
  | bytes bs => exact .inl (Nat.le_of_ble_eq_true rfl)

private theorem Field.write_ne_nil (f : Field) : f.write ≠ [] :=
  List.append_ne_nil_of_left_ne_nil (varint_ne_nil _) _

/-- Fields that are written are read back, one after the other. -/
theorem scan_write {fs : List Field} (h : ∀ f ∈ fs, f.Fits) {fuel : Nat}
    (hfuel : fs.length < fuel) : scan fuel none (write fs) = some (fs, []) := by
  induction fs generalizing fuel with
  | nil =>
    obtain ⟨fuel, rfl⟩ := Nat.exists_eq_add_of_lt hfuel
    rfl
  | cons f fs ih =>
    obtain ⟨fuel, rfl⟩ : ∃ n, fuel = n + 1 := ⟨fuel - 1, by omega⟩
    have hf := h f List.mem_cons_self
    have hwire := wireType_of_fits hf.payload
    have hpos := hf.number_pos
    have hlt := hf.number_lt
    have hwrite : write (f :: fs) = varint (f.number * 8 + f.payload.wireType) ++
        (f.payload.write f.number ++ write fs) := by
      rw [write, List.flatMap_cons, Field.write, List.append_assoc]
      rfl
    have hne : write (f :: fs) ≠ [] := by
      rw [write, List.flatMap_cons]
      exact List.append_ne_nil_of_left_ne_nil f.write_ne_nil _
    have htag : (f.number * 8 + f.payload.wireType) % 8 = f.payload.wireType := by omega
    have hnumber : (f.number * 8 + f.payload.wireType) % 2 ^ 32 / 8 = f.number := by omega
    rw [scan, if_neg hne, hwrite, readVarint_varint (by omega), Option.bind_some]
    simp only [htag, hnumber]
    rw [if_neg (by omega), if_neg (by omega), if_neg (by omega), readPayload_append hf.payload,
      Option.bind_some, ih (fun f' hf' => h f' (List.mem_cons_of_mem f hf')) (by simpa using hfuel),
      Option.map_some]

/-- Every field takes a byte. -/
theorem length_le_write (fs : List Field) : fs.length ≤ (write fs).length := by
  induction fs with
  | nil => exact Nat.le_refl _
  | cons f fs ih =>
    have hpos : 0 < f.write.length := List.length_pos_iff.mpr f.write_ne_nil
    rw [write, List.flatMap_cons, List.length_append, List.length_cons]
    rw [write] at ih
    omega

/-- A field is no longer than its message. -/
theorem length_write_le_of_mem {f : Field} {fs : List Field} (h : f ∈ fs) :
    f.write.length ≤ (write fs).length := by
  obtain ⟨xs, ys, rfl⟩ := List.append_of_mem h
  rw [write, List.flatMap_append, List.flatMap_cons, List.length_append, List.length_append]
  omega

/-- A message that is written is read back. -/
theorem read_write {fs : List Field} (h : ∀ f ∈ fs, f.Fits) : read (write fs) = some fs := by
  have hlen := length_le_write fs
  rw [read, scan_write h (by omega), Option.map_some]

end Protobuf

end IMServer.Base
