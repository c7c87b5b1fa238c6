import IMServer.Base.Bytes
import Mathlib.Data.List.TakeWhile
import Mathlib.Logic.Function.Basic

/-!
# Protobuf messages in Redis

`CacheConn::setpb`, `getpb`, `setex` and `get` of `server/src/CachePool.cc`, and the byte
substitutions of `server/src/IMComm.cc`. A message is passed to Redis as a C string, so its
zero bytes are stored as `~` and every `~` that comes back is read as a zero byte. A write
outside the local array of `setpb`, and the string made of `nullptr` in `getpb`, are `none`.
-/

namespace IMServer.Cache

open IMServer.Base

/-- The byte `~`. -/
def tilde : UInt8 := 0x7E

/-- Size of the local array of `setpb`; `CachePool.cc:748`. -/
def kValueSize : Nat := 2048

/-- What `%s` takes of a byte sequence: everything before the first zero byte. -/
def cString (bs : List UInt8) : List UInt8 := bs.takeWhile (· ≠ 0)

/-- How one byte is stored. -/
def maskZero (b : UInt8) : UInt8 := if b = 0 then tilde else b

/-- Zero bytes among the first `byteSize` become `~`; `IMComm.cc:17–46`, `CachePool.cc:757–768`. -/
def replaceFromZero (value : List UInt8) (byteSize : Nat) : List UInt8 :=
  (value.take byteSize).map maskZero ++ value.drop byteSize

/-- Every `~` becomes a zero byte; `IMComm.cc:47–58`, `CachePool.cc:721–727`. -/
def replaceToZero (value : List UInt8) : List UInt8 :=
  value.map fun b => if b = tilde then 0 else b

/-- A protobuf type: serialising and parsing are inverse to each other. -/
structure WireFormat (Msg : Type) where
  serialize : Msg → List UInt8
  parse : List UInt8 → Option Msg
  parse_serialize : ∀ m, parse (serialize m) = some m
  serialize_parse : ∀ s m, parse s = some m → serialize m = s

/-- The string values of Redis before they expire. -/
abbrev Strings := List UInt8 → Option (List UInt8)

/-- `SETEX %s %d %s`; `CachePool.cc:101–126`. -/
def setex (strings : Strings) (key value : List UInt8) : Strings :=
  Function.update strings (cString key) (some (cString value))

/-- `GET %s`, the empty string when there is no value; `CachePool.cc:66–99`. -/
def get (strings : Strings) (key : List UInt8) : List UInt8 := (strings (cString key)).getD []

/-- The string that `setpb` passes to `setex` for a serialisation; `CachePool.cc:748–770`. The local
array holds `stack` before it is written. -/
def storedValue (stack serialized : List UInt8) : Option (List UInt8) := do
  let byteSize := serialized.length
  let value ← blit stack 0 serialized
  let value ← blit (replaceFromZero value byteSize) byteSize [0]
  some (cString value)

section Messages

variable {Msg : Type} (fmt : WireFormat Msg)

/-- `CachePool.cc:746–772`. -/
def setpb (stack : List UInt8) (strings : Strings) (key : List UInt8) (m : Msg) :
    Option Strings := do
  let value ← storedValue stack (fmt.serialize m)
  some (setex strings key value)

/-- The returned string and the message object, which held `obj`; `CachePool.cc:716–744`. -/
def getpb (strings : Strings) (key : List UInt8) (obj : Msg) : Option (List UInt8 × Msg) :=
  let value := replaceToZero (get strings key)
  if value = [] then some (value, obj)
  else (fmt.parse value).map fun m => (value, m)

/-- `setpb` followed by `getpb` under the same key. -/
def storeAndLoad (stack : List UInt8) (strings : Strings) (key : List UInt8) (m obj : Msg) :
    Option (List UInt8 × Msg) := do
  let strings ← setpb fmt stack strings key m
  getpb fmt strings key obj

end Messages

/-! ### What the substitutions do to a serialisation -/

private theorem cString_append_zero {bs : List UInt8} (h : 0 ∉ bs) (rest : List UInt8) :
    cString (bs ++ 0 :: rest) = bs := by
  rw [cString, List.takeWhile_append_of_pos]
  · simp
  · intro b hb
    simpa using fun h0 : b = 0 => h (h0 ▸ hb)

/-- A text without a zero byte is not cut. -/
theorem cString_of_notMem {bs : List UInt8} (h : 0 ∉ bs) : cString bs = bs := by
  rw [cString, ← List.append_nil bs, List.takeWhile_append_of_pos]
  · simp
  · intro b hb
    simpa using fun h0 : b = 0 => h (h0 ▸ hb)

/-- Only a zero byte cuts a text. -/
theorem cString_eq_self_iff (bs : List UInt8) : cString bs = bs ↔ 0 ∉ bs := by
  refine ⟨fun h hmem => ?_, cString_of_notMem⟩
  rw [← h] at hmem
  exact absurd (List.mem_takeWhile_imp hmem) (by decide)

/-- What `setpb` sends to Redis holds no zero byte. -/
theorem zero_notMem_masked (s : List UInt8) : 0 ∉ s.map maskZero := by
  intro h
  obtain ⟨b, -, hb⟩ := List.mem_map.mp h
  unfold maskZero at hb
  split at hb
  · exact absurd hb (by decide)
  · next hne => exact hne hb

/-- Reading undoes writing exactly when no byte was a `~` to begin with. -/
theorem replaceToZero_masked_iff (s : List UInt8) :
    replaceToZero (s.map maskZero) = s ↔ tilde ∉ s := by
  induction s with
  | nil => simp [replaceToZero]
  | cons b s ih =>
    rw [replaceToZero] at ih
    rw [replaceToZero, List.map_cons, List.map_cons, List.cons.injEq, ih, List.mem_cons, not_or]
    refine and_congr_left fun _ => ?_
    by_cases h0 : b = 0
    · subst h0
      decide
    · rw [maskZero, if_neg h0]
      split
      · next ht => simp [ht, tilde]
      · next ht => simpa using Ne.symm ht

section Stored

variable {stack s : List UInt8}

private theorem serialize_fits (hs : stack.length = kValueSize) (hm : s.length ≤ kValueSize) :
    blit stack 0 s = some (s ++ stack.drop s.length) := by
  rw [blit, if_pos (by omega)]
  simp

private theorem replaceFromZero_front (s rest : List UInt8) :
    replaceFromZero (s ++ rest) s.length = s.map maskZero ++ rest := by
  rw [replaceFromZero, List.take_left, List.drop_left]

/-- A serialisation that leaves room for the terminator is stored with its zero bytes
replaced. -/
theorem storedValue_of_lt (hs : stack.length = kValueSize) (hm : s.length < kValueSize) :
    storedValue stack s = some (s.map maskZero) := by
  have hend : blit (s.map maskZero ++ stack.drop s.length) s.length [0] =
      some (s.map maskZero ++ 0 :: (stack.drop s.length).drop 1) := by
    have hl : (s.map maskZero).length = s.length := List.length_map _
    rw [blit, if_pos, List.take_left' hl, List.length_singleton, ← hl, List.drop_append]
    · simp
    · simp only [List.length_append, List.length_map, List.length_drop, List.length_singleton]
      omega
  simp only [storedValue, serialize_fits hs hm.le, replaceFromZero_front, hend,
    Option.bind_eq_bind, Option.bind_some]
  rw [cString_append_zero (zero_notMem_masked _)]

/-- A longer serialisation, or its terminator, is written past the end of the array. -/
theorem storedValue_of_ge (hs : stack.length = kValueSize) (hm : kValueSize ≤ s.length) :
    storedValue stack s = none := by
  by_cases heq : s.length = kValueSize
  · have hend : blit (s.map maskZero ++ stack.drop s.length) s.length [0] = none := by
      rw [blit, if_neg]
      simp only [List.length_append, List.length_map, List.length_drop, List.length_singleton]
      omega
    simp only [storedValue, serialize_fits hs heq.le, replaceFromZero_front, hend,
      Option.bind_eq_bind, Option.bind_some, Option.bind_none]
  · have hput : blit stack 0 s = none := by
      rw [blit, if_neg (by omega)]
    simp only [storedValue, hput, Option.bind_eq_bind, Option.bind_none]

end Stored

section Lossless

variable {Msg : Type} (fmt : WireFormat Msg) {stack : List UInt8} (strings : Strings)
  (key : List UInt8) {m : Msg}

private theorem setpb_of_lt (hs : stack.length = kValueSize)
    (hm : (fmt.serialize m).length < kValueSize) :
    setpb fmt stack strings key m =
      some (Function.update strings (cString key) (some ((fmt.serialize m).map maskZero))) := by
  rw [setpb, storedValue_of_lt hs hm]
  simp only [Option.bind_eq_bind, Option.bind_some, setex]
  rw [cString_of_notMem (zero_notMem_masked _)]

private theorem setpb_of_ge (hs : stack.length = kValueSize)
    (hm : kValueSize ≤ (fmt.serialize m).length) : setpb fmt stack strings key m = none := by
  rw [setpb, storedValue_of_ge hs hm]
  rfl

/-- A message survives the cache, with no write outside the array and a non-empty returned
string, exactly when its serialisation has no byte `~`, is not empty and leaves room for
the terminator. -/
theorem storeAndLoad_lossless_iff (hs : stack.length = kValueSize) (obj : Msg) :
    (∃ value, value ≠ [] ∧ storeAndLoad fmt stack strings key m obj = some (value, m)) ↔
      tilde ∉ fmt.serialize m ∧ fmt.serialize m ≠ [] ∧
        (fmt.serialize m).length < kValueSize := by
  by_cases hm : (fmt.serialize m).length < kValueSize
  · have hload : storeAndLoad fmt stack strings key m obj =
        if fmt.serialize m = [] then some ([], obj)
        else (fmt.parse (replaceToZero ((fmt.serialize m).map maskZero))).map
          fun m' => (replaceToZero ((fmt.serialize m).map maskZero), m') := by
      have hnil : replaceToZero ((fmt.serialize m).map maskZero) = [] ↔ fmt.serialize m = [] := by
        simp [replaceToZero]
      simp only [storeAndLoad, setpb_of_lt fmt strings key hs hm, Option.bind_eq_bind,
        Option.bind_some, getpb, get, Function.update_self, Option.getD_some, hnil]
      split
      · next h => simp [h, replaceToZero]
      · rfl
    rw [hload]
    constructor
    · rintro ⟨value, hne, hv⟩
      split at hv
      · cases hv
        exact absurd rfl hne
      · next hser =>
        obtain ⟨m', hp, he⟩ := Option.map_eq_some_iff.mp hv
        obtain ⟨-, rfl⟩ := Prod.mk.inj he
        exact ⟨(replaceToZero_masked_iff _).mp (fmt.serialize_parse _ _ hp).symm, hser, hm⟩
    · rintro ⟨ht, hser, -⟩
      rw [if_neg hser, (replaceToZero_masked_iff _).mpr ht, fmt.parse_serialize]
      exact ⟨_, hser, rfl⟩
  · rw [storeAndLoad, setpb_of_ge fmt strings key hs (by omega)]
    constructor
    · rintro ⟨value, -, hv⟩
      cases hv
    · rintro ⟨-, -, hlt⟩
      exact absurd hlt hm

end Lossless

/-- Messages that are their own serialisation. -/
def rawBytes : WireFormat (List UInt8) where
  serialize m := m
  parse s := some s
  parse_serialize _ := rfl
  serialize_parse _ _ h := (Option.some.inj h).symm

/-- A `RobLog` whose `time` is 126 comes back with the time 0, an empty message comes back
as the empty string, and 2048 bytes are written past the array. -/
theorem storeAndLoad_lossy :
    storeAndLoad rawBytes (List.replicate kValueSize 0) (fun _ => none) [107] [0x18, 0x7E] [] =
      some ([0x18, 0], [0x18, 0]) ∧
    storeAndLoad rawBytes (List.replicate kValueSize 0) (fun _ => none) [107] [] [] =
      some ([], []) ∧
    storeAndLoad rawBytes (List.replicate kValueSize 0) (fun _ => none) [107]
      (List.replicate kValueSize 1) [] = none := by
  have hs : (List.replicate kValueSize (0 : UInt8)).length = kValueSize := List.length_replicate
  refine ⟨?_, ?_, ?_⟩
  · rw [storeAndLoad, setpb_of_lt rawBytes (fun _ => none) [107] hs (by decide)]
    simp [getpb, get, rawBytes, replaceToZero, maskZero, tilde]
  · rw [storeAndLoad, setpb_of_lt rawBytes (fun _ => none) [107] hs (by decide)]
    simp [getpb, get, rawBytes, replaceToZero]
  · rw [storeAndLoad, setpb_of_ge rawBytes (fun _ => none) [107] hs]
    · rfl
    · exact List.length_replicate.ge

/-- Two bytes with a zero. -/
theorem storeAndLoad_lossless_iff_rawBytes :
    (List.replicate kValueSize (0 : UInt8)).length = kValueSize ∧
      ((∃ value, value ≠ [] ∧ storeAndLoad rawBytes (List.replicate kValueSize 0)
        (fun _ => none) [107] [0x18, 0] [] = some (value, [0x18, 0])) ↔
        tilde ∉ [0x18, 0] ∧ ([0x18, 0] : List UInt8) ≠ [] ∧
          ([0x18, 0] : List UInt8).length < kValueSize) := by
  have hs : (List.replicate kValueSize (0 : UInt8)).length = kValueSize := List.length_replicate
  exact ⟨hs, storeAndLoad_lossless_iff rawBytes (fun _ => none) [107] hs []⟩

end IMServer.Cache
