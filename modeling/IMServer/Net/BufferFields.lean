import IMServer.Base.ByteOrder
import IMServer.Net.Buffer

/-!
# Typed fields of a buffer

The functions `appendInt*`, `peekInt*`, `readInt*` and `prependInt*` of `server/src/Buffer.h` for
signed integers of 8 to 64 bits, on a host of either byte order: an integer is converted to network
order, which gives another integer of the same type, and the memory of that one is copied.

Whatever the host, the bytes in the buffer are the two's complement of the integer, most significant
byte first, and integers come out as they went in.
-/

namespace IMServer.Net

open IMServer.Base

/-! ### The functions on a host -/

namespace Host

variable (o : ByteOrder) (b : Buffer) (x : Int)

/-- The memory of `int64_t be64 = htobe64(x)`, and of the shorter ones; `Buffer.h:211`. -/
def beMemory (n : Nat) : List UInt8 :=
  let be := wrap (8 * n) (o.htobe n (unsigned (8 * n) x))
  o.bytes n (unsigned (8 * n) be)

/-- `Buffer.h:209–213`. -/
def appendInt64 : Option Buffer := b.append (beMemory o x 8)

/-- `Buffer.h:218–222`. -/
def appendInt32 : Option Buffer := b.append (beMemory o x 4)

/-- `Buffer.h:224–228`. -/
def appendInt16 : Option Buffer := b.append (beMemory o x 2)

/-- `Buffer.h:230–233`; nothing is converted. -/
def appendInt8 : Option Buffer := b.append (o.bytes 1 (unsigned 8 x))

/-- Copy an integer of `n` bytes out of the buffer and convert it; `Buffer.h:277–280`. -/
def peekWord (n : Nat) : Option Int := do
  guard (n ≤ b.readableBytes)
  let be := wrap (8 * n) (o.word (b.readable.take n))
  some (wrap (8 * n) (o.htobe n (unsigned (8 * n) be)))

/-- `Buffer.h:275–281`. -/
def peekInt64 : Option Int := peekWord o b 8

/-- `Buffer.h:287–293`. -/
def peekInt32 : Option Int := peekWord o b 4

/-- `Buffer.h:295–301`. -/
def peekInt16 : Option Int := peekWord o b 2

/-- `Buffer.h:303–308`. -/
def peekInt8 : Option Int := do
  guard (1 ≤ b.readableBytes)
  let c ← b.readable.head?
  some (wrap 8 c.toNat)

/-- `Buffer.h:118–121`. -/
def retrieveInt64 : Option Buffer := b.retrieve 8

/-- `Buffer.h:123–126`. -/
def retrieveInt32 : Option Buffer := b.retrieve 4

/-- `Buffer.h:128–131`. -/
def retrieveInt16 : Option Buffer := b.retrieve 2

/-- `Buffer.h:133–136`. -/
def retrieveInt8 : Option Buffer := b.retrieve 1

/-- The integer of a peek, and the buffer after it has been retrieved. -/
def read (peek : Option Int) (retrieve : Option Buffer) : Option (Int × Buffer) := do
  let result ← peek
  let b ← retrieve
  some (result, b)

/-- `Buffer.h:239–244`. -/
def readInt64 : Option (Int × Buffer) := read (peekInt64 o b) (retrieveInt64 b)

/-- `Buffer.h:250–255`. -/
def readInt32 : Option (Int × Buffer) := read (peekInt32 o b) (retrieveInt32 b)

/-- `Buffer.h:257–262`. -/
def readInt16 : Option (Int × Buffer) := read (peekInt16 o b) (retrieveInt16 b)

/-- `Buffer.h:264–269`. -/
def readInt8 : Option (Int × Buffer) := read (peekInt8 b) (retrieveInt8 b)

/-- `Buffer.h:313–317`. -/
def prependInt64 : Option Buffer := b.prepend (beMemory o x 8)

/-- `Buffer.h:322–326`. -/
def prependInt32 : Option Buffer := b.prepend (beMemory o x 4)

/-- `Buffer.h:328–332`. -/
def prependInt16 : Option Buffer := b.prepend (beMemory o x 2)

/-- `Buffer.h:334–337`; nothing is converted. -/
def prependInt8 : Option Buffer := b.prepend (o.bytes 1 (unsigned 8 x))

/-! ### Network order -/

/-- On every host the memory of the converted integer is in network order. -/
theorem beMemory_eq (n : Nat) : beMemory o x n = beBytes n (unsigned (8 * n) x) := by
  have hlt : unsigned (8 * n) x < 256 ^ n := by
    rw [pow_bytes]
    exact unsigned_lt (8 * n) x
  have hbe : o.htobe n (unsigned (8 * n) x) < 2 ^ (8 * n) := by
    rw [← pow_bytes]
    exact o.htobe_lt hlt
  rw [beMemory, unsigned_wrap hbe, o.bytes_htobe]

/-- On every host an integer is read in network order. -/
theorem peekWord_eq {b : Buffer} (hb : b.WF) {n : Nat} (hn : n ≤ b.readableBytes) :
    peekWord o b n = some (wrap (8 * n) (beNat (b.readable.take n))) := by
  have hlen : (b.readable.take n).length = n := by
    rw [List.length_take, Buffer.length_readable hb]
    omega
  have hword := o.word_lt (b.readable.take n)
  rw [hlen, pow_bytes] at hword
  simp only [peekWord, hn, guard_true, Option.pure_def, Option.bind_eq_bind, Option.bind_some]
  rw [unsigned_wrap hword, o.htobe_word hlen]

/-- The byte that `peekInt8` takes is a word of one byte. -/
theorem peekInt8_eq {b : Buffer} (hb : b.WF) (hn : 1 ≤ b.readableBytes) :
    peekInt8 b = some (wrap 8 (beNat (b.readable.take 1))) := by
  rw [← Buffer.length_readable hb] at hn
  cases hr : b.readable with
  | nil =>
    rw [hr] at hn
    exact absurd hn (by decide)
  | cons c rest =>
    have hg : 1 ≤ b.readableBytes := by rwa [← Buffer.length_readable hb]
    simp [peekInt8, hg, hr, beNat]

end Host

/-! ### Fields -/

/-- The integer types of the functions. -/
inductive Width where
  | int8
  | int16
  | int32
  | int64
  deriving DecidableEq, Repr

/-- `sizeof`. -/
def Width.size : Width → Nat
  | int8 => 1
  | int16 => 2
  | int32 => 4
  | int64 => 8

/-- A value of one of the types. -/
structure Field where
  width : Width
  value : Int
  lower : -2 ^ (8 * width.size - 1) ≤ value
  upper : value < 2 ^ (8 * width.size - 1)

namespace Field

/-- The two's complement of the value, most significant byte first. -/
def wire (f : Field) : List UInt8 := beBytes f.width.size (unsigned (8 * f.width.size) f.value)

/-- What is copied for the value, converted or not. -/
def memory (o : ByteOrder) (f : Field) : List UInt8 :=
  match f.width with
  | .int8 => o.bytes 1 (unsigned 8 f.value)
  | .int16 => Host.beMemory o f.value 2
  | .int32 => Host.beMemory o f.value 4
  | .int64 => Host.beMemory o f.value 8

/-- The call of `appendInt*` for the type. -/
def append (o : ByteOrder) (b : Buffer) (f : Field) : Option Buffer :=
  match f.width with
  | .int8 => Host.appendInt8 o b f.value
  | .int16 => Host.appendInt16 o b f.value
  | .int32 => Host.appendInt32 o b f.value
  | .int64 => Host.appendInt64 o b f.value

/-- The call of `prependInt*` for the type. -/
def prepend (o : ByteOrder) (b : Buffer) (f : Field) : Option Buffer :=
  match f.width with
  | .int8 => Host.prependInt8 o b f.value
  | .int16 => Host.prependInt16 o b f.value
  | .int32 => Host.prependInt32 o b f.value
  | .int64 => Host.prependInt64 o b f.value

/-- A field has the bytes of its width. -/
@[simp] theorem length_wire (f : Field) : f.wire.length = f.width.size :=
  length_beBytes f.width.size _

private theorem memory_eq (o : ByteOrder) (f : Field) : f.memory o = f.wire := by
  obtain ⟨width, value, lower, upper⟩ := f
  cases width with
  | int8 => exact o.bytes_one _
  | int16 => exact Host.beMemory_eq o value 2
  | int32 => exact Host.beMemory_eq o value 4
  | int64 => exact Host.beMemory_eq o value 8

private theorem append_eq (o : ByteOrder) (b : Buffer) (f : Field) :
    f.append o b = b.append f.wire := by
  rw [← memory_eq o, append, memory]
  cases f.width <;> rfl

private theorem prepend_eq (o : ByteOrder) (b : Buffer) (f : Field) :
    f.prepend o b = b.prepend f.wire := by
  rw [← memory_eq o, prepend, memory]
  cases f.width <;> rfl

/-- The bytes of a value are read as the value. -/
theorem wrap_wire (f : Field) : wrap (8 * f.width.size) (beNat f.wire) = f.value := by
  have hlt : unsigned (8 * f.width.size) f.value < 256 ^ f.width.size := by
    rw [pow_bytes]
    exact unsigned_lt _ f.value
  have hpos : 0 < 8 * f.width.size := by
    cases f.width <;> decide
  rw [wire, beNat_beBytes_of_lt hlt, wrap_unsigned, wrap_eq_self hpos f.lower f.upper]

end Field

namespace Width

/-- The call of `peekInt*` for the type. -/
def peek (o : ByteOrder) (b : Buffer) : Width → Option Int
  | int8 => Host.peekInt8 b
  | int16 => Host.peekInt16 o b
  | int32 => Host.peekInt32 o b
  | int64 => Host.peekInt64 o b

/-- The call of `readInt*` for the type. -/
def read (o : ByteOrder) (b : Buffer) : Width → Option (Int × Buffer)
  | int8 => Host.readInt8 b
  | int16 => Host.readInt16 o b
  | int32 => Host.readInt32 o b
  | int64 => Host.readInt64 o b

private theorem peek_eq (o : ByteOrder) {b : Buffer} (hb : b.WF) {w : Width}
    (hw : w.size ≤ b.readableBytes) :
    w.peek o b = some (wrap (8 * w.size) (beNat (b.readable.take w.size))) := by
  cases w with
  | int8 => exact Host.peekInt8_eq hb hw
  | int16 => exact Host.peekWord_eq o hb hw
  | int32 => exact Host.peekWord_eq o hb hw
  | int64 => exact Host.peekWord_eq o hb hw

private theorem read_eq (o : ByteOrder) (b : Buffer) (w : Width) :
    w.read o b = Host.read (w.peek o b) (b.retrieve w.size) := by
  cases w <;> rfl

/-- Read one value after the other. -/
def readAll (o : ByteOrder) : List Width → Buffer → Option (List Int × Buffer)
  | [], b => some ([], b)
  | w :: ws, b => do
    let (x, b) ← w.read o b
    let (xs, b) ← readAll o ws b
    some (x :: xs, b)

end Width

namespace Field

variable (o : ByteOrder) {b : Buffer} {rest : List UInt8}

/-- A value in front of the content is read and taken off. -/
theorem read_spec (f : Field) (h : b.Rep (f.wire ++ rest)) :
    ∃ b', f.width.read o b = some (f.value, b') ∧ b'.Rep rest := by
  have hlen : b.readableBytes = f.width.size + rest.length := by
    rw [h.length_eq, List.length_append, length_wire]
  have htake : b.readable.take f.width.size = f.wire := by
    rw [h.readable_eq, ← length_wire f, List.take_left]
  have hpeek : f.width.peek o b = some f.value := by
    rw [Width.peek_eq o h.wf (by omega), htake, wrap_wire]
  have hfits : f.width.size ≤ (f.wire ++ rest).length := by
    rw [List.length_append, length_wire]
    omega
  obtain ⟨b', hretrieve, hrep⟩ := Buffer.retrieve_spec h hfits
  rw [← length_wire f, List.drop_left] at hrep
  refine ⟨b', ?_, hrep⟩
  rw [Width.read_eq, hpeek, hretrieve]
  rfl

/-- Values that follow one another are read one after the other. -/
theorem readAll_spec (fs : List Field) (h : b.Rep (fs.flatMap wire ++ rest)) :
    ∃ b', Width.readAll o (fs.map width) b = some (fs.map value, b') ∧ b'.Rep rest := by
  induction fs generalizing b with
  | nil => exact ⟨b, rfl, h⟩
  | cons f fs ih =>
    rw [List.flatMap_cons, List.append_assoc] at h
    obtain ⟨b₁, hread, hrep⟩ := read_spec o f h
    obtain ⟨b₂, hall, hrest⟩ := ih hrep
    refine ⟨b₂, ?_, hrest⟩
    rw [List.map_cons, Width.readAll, hread, Option.bind_eq_bind, Option.bind_some]
    simp only [hall, Option.bind_eq_bind, Option.bind_some, List.map_cons]

end Field

/-! ### Runs of calls -/

/-- What is called before the values are read. -/
inductive FieldCall where
  | append (f : Field)
  | retrieve (len : Nat)

namespace FieldCall

def step (o : ByteOrder) (b : Buffer) : FieldCall → Option Buffer
  | append f => f.append o b
  | retrieve len => b.retrieve len

/-- The values that calls append. -/
def appended : List FieldCall → List Field
  | [] => []
  | append f :: calls => f :: appended calls
  | retrieve _ :: calls => appended calls

/-- The number of bytes that calls retrieve. -/
def retrieved : List FieldCall → Nat
  | [] => 0
  | append _ :: calls => retrieved calls
  | retrieve len :: calls => len + retrieved calls

/-- Calls that retrieve only what was there before leave the rest of it, and then the values. -/
theorem run_spec (o : ByteOrder) (calls : List FieldCall) {b : Buffer} {old new : List UInt8}
    (h : b.Rep (old ++ new)) (hcount : retrieved calls ≤ old.length) :
    ∃ b', calls.foldlM (step o) b = some b' ∧
      b'.Rep (old.drop (retrieved calls) ++ (new ++ (appended calls).flatMap Field.wire)) := by
  induction calls generalizing b old new with
  | nil =>
    refine ⟨b, rfl, ?_⟩
    rw [retrieved, List.drop_zero, appended, List.flatMap_nil, List.append_nil]
    exact h
  | cons call calls ih =>
    rw [List.foldlM_cons]
    cases call with
    | append f =>
      obtain ⟨b₁, happend, hrep⟩ := Buffer.append_spec h f.wire
      rw [List.append_assoc] at hrep
      obtain ⟨b₂, hrun, hfinal⟩ := ih hrep hcount
      refine ⟨b₂, ?_, ?_⟩
      · rw [step, Field.append_eq, happend]
        exact hrun
      · rw [retrieved, appended, List.flatMap_cons, ← List.append_assoc new]
        exact hfinal
    | retrieve len =>
      rw [retrieved] at hcount
      have hlen : len ≤ (old ++ new).length := by
        rw [List.length_append]
        omega
      obtain ⟨b₁, hretrieve, hrep⟩ := Buffer.retrieve_spec h hlen
      rw [List.drop_append_of_le_length (by omega)] at hrep
      obtain ⟨b₂, hrun, hfinal⟩ := ih hrep (by rw [List.length_drop]; omega)
      refine ⟨b₂, ?_, ?_⟩
      · rw [step, hretrieve]
        exact hrun
      · rw [retrieved, appended, ← List.drop_drop]
        exact hfinal

end FieldCall

/-- On every host and for every buffer: after any calls that append values and retrieve the content
from before, and nothing of the values, the buffer holds the values in network order; reading them
gives the values and leaves nothing. A value that is prepended lies before the content in network
order; reading it gives the value and leaves the content. -/
theorem fields_round_trip (o : ByteOrder) {b : Buffer} (hb : b.WF) :
    (∀ calls : List FieldCall, FieldCall.retrieved calls = b.readableBytes →
      ∃ b₁ b₂, calls.foldlM (FieldCall.step o) b = some b₁ ∧
        b₁.readable = (FieldCall.appended calls).flatMap Field.wire ∧
        Width.readAll o ((FieldCall.appended calls).map Field.width) b₁ =
          some ((FieldCall.appended calls).map Field.value, b₂) ∧ b₂.readable = []) ∧
    ∀ f : Field, f.width.size ≤ b.prependableBytes →
      ∃ b₁ b₂, f.prepend o b = some b₁ ∧ b₁.readable = f.wire ++ b.readable ∧
        f.width.read o b₁ = some (f.value, b₂) ∧ b₂.readable = b.readable := by
  have hrep : b.Rep b.readable := ⟨hb, rfl⟩
  constructor
  · intro calls hcount
    rw [← Buffer.length_readable hb] at hcount
    have hold : b.Rep (b.readable ++ []) := by rwa [List.append_nil]
    obtain ⟨b₁, hrun, hwire⟩ := FieldCall.run_spec o calls hold hcount.le
    rw [List.drop_of_length_le hcount.ge, List.nil_append, List.nil_append] at hwire
    have hvalues : b₁.Rep ((FieldCall.appended calls).flatMap Field.wire ++ []) := by
      rwa [List.append_nil]
    obtain ⟨b₂, hread, hempty⟩ := Field.readAll_spec o (FieldCall.appended calls) hvalues
    exact ⟨b₁, b₂, hrun, hwire.readable_eq, hread, hempty.readable_eq⟩
  · intro f hfits
    have hroom : f.wire.length ≤ b.prependableBytes := by rwa [Field.length_wire]
    obtain ⟨b₁, hprepend, hwire⟩ := Buffer.prepend_spec hrep hroom
    obtain ⟨b₂, hread, hrest⟩ := Field.read_spec o f hwire
    exact ⟨b₁, b₂, by rw [Field.prepend_eq, hprepend], hwire.readable_eq, hread,
      hrest.readable_eq⟩

/-- Two values among two bytes from before, in a buffer without room for the second one, and one
value before them. -/
theorem fields_round_trip_three :
    let b : Buffer := ⟨List.replicate 12 7, 8, 10⟩
    let calls : List FieldCall := [.append ⟨.int16, -2, by decide, by decide⟩, .retrieve 2,
      .append ⟨.int32, -2147483648, by decide, by decide⟩]
    let f : Field := ⟨.int64, 258, by decide, by decide⟩
    (∃ b₁ b₂, calls.foldlM (FieldCall.step .little) b = some b₁ ∧
      b₁.readable = [255, 254, 128, 0, 0, 0] ∧
      Width.readAll .little [.int16, .int32] b₁ = some ([-2, -2147483648], b₂) ∧
      b₂.readable = []) ∧
    ∃ b₁ b₂, f.prepend .little b = some b₁ ∧
      b₁.readable = [0, 0, 0, 0, 0, 0, 1, 2, 7, 7] ∧
      Width.read .little b₁ .int64 = some (258, b₂) ∧ b₂.readable = [7, 7] := by
  intro b calls f
  have hb : b.WF := ⟨by decide, by decide, by decide⟩
  obtain ⟨hcalls, hprepend⟩ := fields_round_trip .little hb
  have hcontent : b.readable = [7, 7] := by decide
  have hwire : f.wire = [0, 0, 0, 0, 0, 0, 1, 2] := by decide
  have hfield := hprepend f (by decide)
  rw [hcontent, hwire] at hfield
  exact ⟨hcalls calls rfl, hfield⟩

end IMServer.Net
