import IMServer.Base.Bytes

/-!
# The network buffer

`server/src/Buffer.h` and `Buffer.cc`: one vector of bytes with a reader and a writer
index. An operation is `none` when one of the source's assertions fails or when it would
touch a byte outside the vector, so a result `some` says that neither happened. Sizes are
natural numbers for `size_t`; the one conversion to `int` (`toString`) is kept.
-/

namespace IMServer.Net

open IMServer.Base

/-- Bytes kept free before the content; `Buffer.h:30`. -/
def kCheapPrepend : Nat := 8

/-- Writable bytes of a default buffer; `Buffer.h:31`. -/
def kInitialSize : Nat := 1024

/-- Size of the stack area `readFd` reads into when the buffer is short; `Buffer.cc:18`. -/
def kExtrabuf : Nat := 65536

/-- `Buffer.h:397–399`. -/
structure Buffer where
  buffer : List UInt8
  readerIndex : Nat
  writerIndex : Nat
  deriving DecidableEq, Repr

namespace Buffer

/-- The constructor; `Buffer.h:33–36`. -/
def new (initialSize : Nat) : Buffer :=
  ⟨List.replicate (kCheapPrepend + initialSize) 0, kCheapPrepend, kCheapPrepend⟩

/-- `Buffer.h:53`. -/
def readableBytes (b : Buffer) : Nat := b.writerIndex - b.readerIndex

/-- `Buffer.h:56`. -/
def writableBytes (b : Buffer) : Nat := b.buffer.length - b.writerIndex

/-- `Buffer.h:59`. -/
def prependableBytes (b : Buffer) : Nat := b.readerIndex

/-- The bytes from `peek()` up to `beginWrite()`; `Buffer.h:62`. -/
def readable (b : Buffer) : List UInt8 := (b.buffer.drop b.readerIndex).take b.readableBytes

/-- `std::vector::resize`: cut, or fill up with zero bytes. -/
def resize (v : List UInt8) (n : Nat) : List UInt8 := v.take n ++ List.replicate (n - v.length) 0

/-- Grow the vector, or move the content down to the reserved front; `Buffer.h:375–394`. -/
def makeSpace (b : Buffer) (len : Nat) : Option Buffer :=
  if b.writableBytes + b.prependableBytes < len + kCheapPrepend then
    some { b with buffer := resize b.buffer (b.writerIndex + len) }
  else do
    guard (kCheapPrepend < b.readerIndex)
    let moved ← blit b.buffer kCheapPrepend b.readable
    let b' : Buffer := ⟨moved, kCheapPrepend, kCheapPrepend + b.readableBytes⟩
    guard (b.readableBytes = b'.readableBytes)
    some b'

/-- `Buffer.h:179–186`. -/
def ensureWritableBytes (b : Buffer) (len : Nat) : Option Buffer := do
  let b ← if b.writableBytes < len then b.makeSpace len else some b
  guard (len ≤ b.writableBytes)
  some b

/-- `Buffer.h:194–198`. -/
def hasWritten (b : Buffer) (len : Nat) : Option Buffer := do
  guard (len ≤ b.writableBytes)
  some { b with writerIndex := b.writerIndex + len }

/-- `Buffer.h:200–204`. -/
def unwrite (b : Buffer) (len : Nat) : Option Buffer := do
  guard (len ≤ b.readableBytes)
  some { b with writerIndex := b.writerIndex - len }

/-- Store bytes at `beginWrite()` and announce them with `hasWritten`. -/
def write (b : Buffer) (data : List UInt8) : Option Buffer := do
  let filled ← blit b.buffer b.writerIndex data
  { b with buffer := filled }.hasWritten data.length

/-- `Buffer.h:167–172`. -/
def append (b : Buffer) (data : List UInt8) : Option Buffer := do
  let b ← b.ensureWritableBytes data.length
  b.write data

/-- `Buffer.h:339–345`. -/
def prepend (b : Buffer) (data : List UInt8) : Option Buffer := do
  guard (data.length ≤ b.prependableBytes)
  let reader := b.readerIndex - data.length
  let filled ← blit b.buffer reader data
  some { b with buffer := filled, readerIndex := reader }

/-- `Buffer.h:138–142`. -/
def retrieveAll (b : Buffer) : Buffer :=
  { b with readerIndex := kCheapPrepend, writerIndex := kCheapPrepend }

/-- `Buffer.h:98–109`. -/
def retrieve (b : Buffer) (len : Nat) : Option Buffer := do
  guard (len ≤ b.readableBytes)
  if len < b.readableBytes then some { b with readerIndex := b.readerIndex + len }
  else some b.retrieveAll

/-- The taken bytes and the buffer after them; `Buffer.h:149–155`. -/
def retrieveAsString (b : Buffer) (len : Nat) : Option (List UInt8 × Buffer) := do
  guard (len ≤ b.readableBytes)
  let b' ← b.retrieve len
  some (b.readable.take len, b')

/-- `Buffer.h:157–160`. The length passes through `int`; a negative one is refused by
the string constructor. -/
def toString (b : Buffer) : Option (List UInt8) :=
  let n := wrap 32 b.readableBytes
  if n < 0 then none else some (b.readable.take n.toNat)

/-- `Buffer.h:347–354`; the swapped-in buffer is the result. -/
def shrink (b : Buffer) (reserve : Nat) : Option Buffer := do
  let other ← (new kInitialSize).ensureWritableBytes (b.readableBytes + reserve)
  other.append (← b.toString)

/-- `Buffer.cc:15–47`. The argument is what `readv` delivered, `none` for the result -1:
the kernel fills the writable tail first and puts what is left into `extrabuf`. -/
def readFd (b : Buffer) : Option (List UInt8) → Option Buffer
  | none => some b
  | some data => do
    let writable := b.writableBytes
    let filled ← blit b.buffer b.writerIndex (data.take writable)
    let b := { b with buffer := filled }
    if data.length ≤ writable then
      some { b with writerIndex := b.writerIndex + data.length }
    else do
      guard (data.length - writable ≤ kExtrabuf)
      append { b with writerIndex := b.buffer.length } (data.drop writable)

/-- `int32_t` in network order; `Buffer.h:218–222`. -/
def appendInt32 (b : Buffer) (x : Int) : Option Buffer := b.append (beBytes 4 (unsigned 32 x))

/-- `Buffer.h:287–293`. -/
def peekInt32 (b : Buffer) : Option Int := do
  guard (4 ≤ b.readableBytes)
  some (wrap 32 (beNat (b.readable.take 4)))

/-! ### The representation invariant -/

/-- Index order of `Buffer.h:25`, with the reserved front inside the vector. -/
structure WF (b : Buffer) : Prop where
  front_le : kCheapPrepend ≤ b.buffer.length
  reader_le : b.readerIndex ≤ b.writerIndex
  writer_le : b.writerIndex ≤ b.buffer.length

/-- The buffer is well formed and its readable bytes are `r`. -/
structure Rep (b : Buffer) (r : List UInt8) : Prop where
  wf : b.WF
  readable_eq : b.readable = r

/-- The readable bytes are counted. -/
theorem length_readable {b : Buffer} (h : b.WF) : b.readable.length = b.readableBytes := by
  have := h.reader_le
  have := h.writer_le
  simp only [readable, readableBytes, List.length_take, List.length_drop]
  omega

/-- A buffer counts the bytes it stands for. -/
theorem Rep.length_eq {b : Buffer} {r : List UInt8} (h : b.Rep r) :
    b.readableBytes = r.length := by
  rw [← length_readable h.wf, h.readable_eq]

/-- A well-formed vector is the bytes before the content, the content and the bytes after it. -/
theorem Rep.split {b : Buffer} {r : List UInt8} (h : b.Rep r) :
    ∃ pre post, b.buffer = pre ++ r ++ post ∧ pre.length = b.readerIndex ∧
      b.writerIndex = b.readerIndex + r.length := by
  have hr := h.wf.reader_le
  have hw := h.wf.writer_le
  have hl := h.length_eq
  refine ⟨b.buffer.take b.readerIndex, b.buffer.drop b.writerIndex, ?_, ?_, ?_⟩
  · have hd : b.buffer.drop b.writerIndex =
        (b.buffer.drop b.readerIndex).drop b.readableBytes := by
      rw [List.drop_drop, readableBytes]
      congr 1
      omega
    rw [List.append_assoc, hd, ← h.readable_eq, readable, List.take_append_drop,
      List.take_append_drop]
  · rw [List.length_take]
    omega
  · rw [readableBytes] at hl
    omega

/-- Three parts that fit the indices are a representation of the middle one. -/
theorem rep_of_split {b : Buffer} {p r q : List UInt8}
    (hb : b.buffer = p ++ r ++ q) (hp : p.length = b.readerIndex)
    (hw : b.writerIndex = b.readerIndex + r.length) (hf : kCheapPrepend ≤ b.buffer.length) :
    b.Rep r := by
  have hl := congrArg List.length hb
  simp only [List.length_append] at hl
  refine ⟨⟨hf, by omega, by omega⟩, ?_⟩
  have hn : b.readableBytes = r.length := by rw [readableBytes]; omega
  rw [readable, hn, hb, ← hp, List.append_assoc, List.drop_left, List.take_left]

/-- A new buffer holds nothing. -/
theorem rep_new (n : Nat) : (new n).Rep [] := by
  refine rep_of_split (p := List.replicate kCheapPrepend 0) (q := List.replicate n 0)
    ?_ ?_ ?_ ?_
  · simp [new, List.replicate_append_replicate]
  · simp [new]
  · simp [new]
  · simp [new]

/-! ### One specification for each operation -/

private theorem blit_of_split {v p m q data : List UInt8} (hv : v = p ++ m ++ q)
    (hl : data.length = m.length) : blit v p.length data = some (p ++ data ++ q) := by
  subst hv
  simp [blit, hl]

/-- Making space leaves the content and provides the room it was asked for. -/
theorem makeSpace_spec {b : Buffer} {r : List UInt8} (h : b.Rep r) {len : Nat}
    (hs : b.writableBytes < len) :
    ∃ b', b.makeSpace len = some b' ∧ b'.Rep r ∧ len ≤ b'.writableBytes := by
  obtain ⟨pre, post, hb, hp, hw⟩ := h.split
  have hf := h.wf.front_le
  have hl := congrArg List.length hb
  simp only [List.length_append] at hl
  rw [writableBytes] at hs
  unfold makeSpace
  split
  · refine ⟨_, rfl, rep_of_split (p := pre)
      (q := post ++ List.replicate (b.writerIndex + len - b.buffer.length) 0) ?_ hp hw ?_, ?_⟩
    · have : b.buffer.take (b.writerIndex + len) = b.buffer :=
        List.take_of_length_le (by omega)
      rw [resize, this]
      nth_rewrite 1 [hb]
      simp
    · simp only [resize, List.length_append, List.length_take, List.length_replicate]
      omega
    · simp only [writableBytes, resize, List.length_append, List.length_take,
        List.length_replicate]
      omega
  · next hc =>
    -- the free regions together reach `len` and the tail alone does not, so the reader has
    -- moved past the reserved front
    rw [writableBytes, prependableBytes] at hc
    have hk : kCheapPrepend < b.readerIndex := by omega
    have hm : blit b.buffer kCheapPrepend b.readable =
        some (b.buffer.take kCheapPrepend ++ r ++
          b.buffer.drop (kCheapPrepend + r.length)) := by
      rw [h.readable_eq, blit]
      simp only [ite_eq_left_iff, reduceCtorEq, imp_false, not_not]
      omega
    have hn := h.length_eq
    simp only [hk, guard_true, hm, Option.pure_def, Option.bind_eq_bind, Option.bind_some,
      readableBytes, Nat.add_sub_cancel_left]
    refine ⟨_, rfl, rep_of_split (p := b.buffer.take kCheapPrepend)
      (q := b.buffer.drop (kCheapPrepend + r.length)) ?_ ?_ ?_ ?_, ?_⟩
    · rfl
    · simp only [List.length_take]
      omega
    · simp only [← hn, readableBytes]
    · simp only [List.length_append, List.length_take, List.length_drop]
      omega
    · simp only [writableBytes, List.length_append, List.length_take, List.length_drop]
      rw [readableBytes] at hn
      omega

/-- `ensureWritableBytes` never fails and leaves the content. -/
theorem ensureWritableBytes_spec {b : Buffer} {r : List UInt8} (h : b.Rep r) (len : Nat) :
    ∃ b', b.ensureWritableBytes len = some b' ∧ b'.Rep r ∧ len ≤ b'.writableBytes := by
  unfold ensureWritableBytes
  by_cases hs : b.writableBytes < len
  · obtain ⟨b', hm, hr, hl⟩ := makeSpace_spec h hs
    exact ⟨b', by simp [hs, hm, hl], hr, hl⟩
  · have hl : len ≤ b.writableBytes := by omega
    exact ⟨b, by simp [hs, hl], h, hl⟩

/-- Filling the front of the writable tail extends the content once the writer moves. -/
theorem blit_tail_spec {b : Buffer} {r data : List UInt8} (h : b.Rep r)
    (hd : data.length ≤ b.writableBytes) :
    ∃ filled, blit b.buffer b.writerIndex data = some filled ∧
      filled.length = b.buffer.length ∧
      Rep ⟨filled, b.readerIndex, b.writerIndex + data.length⟩ (r ++ data) := by
  obtain ⟨pre, post, hb, hp, hw⟩ := h.split
  have hf := h.wf.front_le
  have hl := congrArg List.length hb
  simp only [List.length_append] at hl
  rw [writableBytes] at hd
  have hx : blit b.buffer b.writerIndex data =
      some (pre ++ r ++ data ++ post.drop data.length) := by
    have hi : b.writerIndex = (pre ++ r).length := by rw [List.length_append]; omega
    rw [hi]
    apply blit_of_split (m := post.take data.length)
    · rw [hb, List.append_assoc (pre ++ r), List.take_append_drop]
    · rw [List.length_take]
      omega
  have hlen : (pre ++ r ++ data ++ post.drop data.length).length = b.buffer.length := by
    simp only [List.length_append, List.length_drop]
    omega
  refine ⟨_, hx, hlen, ?_⟩
  refine rep_of_split (p := pre) (q := post.drop data.length) ?_ hp ?_ ?_
  · simp only [List.append_assoc]
  · simp only [List.length_append]
    omega
  · rw [hlen]
    exact hf

/-- Bytes written into the writable tail are appended to the content. -/
theorem write_spec {b : Buffer} {r data : List UInt8} (h : b.Rep r)
    (hd : data.length ≤ b.writableBytes) :
    ∃ b', b.write data = some b' ∧ b'.Rep (r ++ data) := by
  obtain ⟨filled, hx, hl, hr⟩ := blit_tail_spec h hd
  rw [writableBytes, ← hl] at hd
  simp only [write, hx, hasWritten, writableBytes, hd, guard_true, Option.pure_def,
    Option.bind_eq_bind, Option.bind_some]
  exact ⟨_, rfl, hr⟩

/-- `append` never fails and appends to the content. -/
theorem append_spec {b : Buffer} {r : List UInt8} (h : b.Rep r) (data : List UInt8) :
    ∃ b', b.append data = some b' ∧ b'.Rep (r ++ data) := by
  obtain ⟨b₁, h₁, hr, hl⟩ := ensureWritableBytes_spec h data.length
  obtain ⟨b₂, h₂, hr₂⟩ := write_spec hr hl
  exact ⟨b₂, by simp [append, h₁, h₂], hr₂⟩

/-! ### The reserved front stays in place while bytes are appended -/

private theorem makeSpace_front {b b' : Buffer} {len : Nat} (hf : b.readerIndex = kCheapPrepend)
    (h : b.makeSpace len = some b') : b'.readerIndex = kCheapPrepend := by
  unfold makeSpace at h
  split at h
  · cases h
    exact hf
  · rw [hf] at h
    simp at h

/-- A buffer that was not read stays at its front. -/
theorem ensureWritableBytes_front {b b' : Buffer} {len : Nat}
    (hf : b.readerIndex = kCheapPrepend) (h : b.ensureWritableBytes len = some b') :
    b'.readerIndex = kCheapPrepend := by
  unfold ensureWritableBytes at h
  split at h
  all_goals
    simp only [Option.bind_eq_bind, Option.bind_eq_some_iff] at h
    obtain ⟨b₁, h₁, -, -, h₂⟩ := h
    cases h₂
  · exact makeSpace_front hf h₁
  · cases h₁
    exact hf

/-- So it does when it is written to. -/
theorem write_front {b b' : Buffer} {data : List UInt8} (hf : b.readerIndex = kCheapPrepend)
    (h : b.write data = some b') : b'.readerIndex = kCheapPrepend := by
  simp only [write, hasWritten, Option.bind_eq_bind, Option.bind_eq_some_iff] at h
  obtain ⟨_, -, _, -, h⟩ := h
  cases h
  exact hf

/-- And when bytes are appended. -/
theorem append_front {b b' : Buffer} {data : List UInt8} (hf : b.readerIndex = kCheapPrepend)
    (h : b.append data = some b') : b'.readerIndex = kCheapPrepend := by
  simp only [append, Option.bind_eq_bind, Option.bind_eq_some_iff] at h
  obtain ⟨b₁, h₁, h₂⟩ := h
  exact write_front (ensureWritableBytes_front hf h₁) h₂

/-- `prepend` within the prependable bytes puts its bytes before the content. -/
theorem prepend_spec {b : Buffer} {r data : List UInt8} (h : b.Rep r)
    (hd : data.length ≤ b.prependableBytes) :
    ∃ b', b.prepend data = some b' ∧ b'.Rep (data ++ r) := by
  obtain ⟨pre, post, hb, hp, hw⟩ := h.split
  have hf := h.wf.front_le
  rw [prependableBytes] at hd
  let k := pre.length - data.length
  have hk : (pre.take k).length = b.readerIndex - data.length := by
    rw [List.length_take]
    omega
  have hx : blit b.buffer (b.readerIndex - data.length) data =
      some (pre.take k ++ data ++ (r ++ post)) := by
    rw [← hk]
    apply blit_of_split (m := pre.drop k)
    · rw [hb, List.take_append_drop, List.append_assoc]
    · rw [List.length_drop]
      omega
  simp only [prepend, prependableBytes, hd, guard_true, hx, Option.pure_def,
    Option.bind_eq_bind, Option.bind_some]
  refine ⟨_, rfl, rep_of_split (p := pre.take k) (q := post) ?_ hk ?_ ?_⟩
  · simp only [List.append_assoc]
  · simp only [List.length_append]
    omega
  · have hl := congrArg List.length hb
    simp only [List.length_append] at hl ⊢
    omega

/-- `retrieveAll` empties the content. -/
theorem retrieveAll_spec {b : Buffer} {r : List UInt8} (h : b.Rep r) : b.retrieveAll.Rep [] := by
  have hf := h.wf.front_le
  refine rep_of_split (p := b.buffer.take kCheapPrepend) (q := b.buffer.drop kCheapPrepend)
    ?_ ?_ rfl hf
  · simp [retrieveAll]
  · rw [List.length_take]
    exact Nat.min_eq_left hf

/-- `retrieve` within the readable bytes drops from the front of the content. -/
theorem retrieve_spec {b : Buffer} {r : List UInt8} (h : b.Rep r) {len : Nat}
    (hl : len ≤ r.length) : ∃ b', b.retrieve len = some b' ∧ b'.Rep (r.drop len) := by
  have hn := h.length_eq
  have hg : len ≤ b.readableBytes := by omega
  simp only [retrieve, hg, guard_true, Option.pure_def, Option.bind_eq_bind, Option.bind_some]
  split
  · obtain ⟨pre, post, hb, hp, hw⟩ := h.split
    refine ⟨_, rfl, rep_of_split (p := pre ++ r.take len) (q := post) ?_ ?_ ?_ h.wf.front_le⟩
    · rw [List.append_assoc pre, List.take_append_drop]
      exact hb
    · simp only [List.length_append, List.length_take]
      omega
    · simp only [List.length_drop]
      omega
  · rw [List.drop_of_length_le (by omega)]
    exact ⟨_, rfl, retrieveAll_spec h⟩

/-- `retrieveAsString` returns what it drops. -/
theorem retrieveAsString_spec {b : Buffer} {r : List UInt8} (h : b.Rep r) {len : Nat}
    (hl : len ≤ r.length) :
    ∃ b', b.retrieveAsString len = some (r.take len, b') ∧ b'.Rep (r.drop len) := by
  obtain ⟨b', hr, hb⟩ := retrieve_spec h hl
  have hg : len ≤ b.readableBytes := by rw [h.length_eq]; exact hl
  exact ⟨b', by simp [retrieveAsString, hg, hr, h.readable_eq], hb⟩

/-- `unwrite` within the readable bytes drops from the back of the content. -/
theorem unwrite_spec {b : Buffer} {r : List UInt8} (h : b.Rep r) {len : Nat}
    (hl : len ≤ r.length) :
    ∃ b', b.unwrite len = some b' ∧ b'.Rep (r.take (r.length - len)) := by
  obtain ⟨pre, post, hb, hp, hw⟩ := h.split
  have hg : len ≤ b.readableBytes := by rw [h.length_eq]; exact hl
  simp only [unwrite, hg, guard_true, Option.pure_def, Option.bind_eq_bind, Option.bind_some]
  refine ⟨_, rfl, rep_of_split (p := pre) (q := r.drop (r.length - len) ++ post) ?_ hp ?_
    h.wf.front_le⟩
  · rw [List.append_assoc pre, ← List.append_assoc (r.take _), List.take_append_drop,
      ← List.append_assoc]
    exact hb
  · simp only [List.length_take]
    omega

/-- Below 2³¹ readable bytes the conversion to `int` loses nothing. -/
theorem toString_spec {b : Buffer} {r : List UInt8} (h : b.Rep r) (hs : r.length < 2 ^ 31) :
    b.toString = some r := by
  have hw : wrap 32 b.readableBytes = (r.length : Int) := by
    rw [h.length_eq]
    exact wrap_eq_self (by decide) (by omega) (by simpa using hs)
  simp only [toString, hw, h.readable_eq]
  simp

/-- `shrink` keeps the content. -/
theorem shrink_spec {b : Buffer} {r : List UInt8} (h : b.Rep r) (hs : r.length < 2 ^ 31)
    (reserve : Nat) : ∃ b', b.shrink reserve = some b' ∧ b'.Rep r := by
  obtain ⟨b₁, h₁, hr, -⟩ :=
    ensureWritableBytes_spec (rep_new kInitialSize) (b.readableBytes + reserve)
  obtain ⟨b₂, h₂, hr₂⟩ := append_spec hr r
  exact ⟨b₂, by simp [shrink, h₁, toString_spec h hs, h₂], hr₂⟩

/-- `readFd` appends exactly what `readv` delivered, within the room it offered. -/
theorem readFd_spec {b : Buffer} {r : List UInt8} (h : b.Rep r) (result : Option (List UInt8))
    (hc : ∀ data ∈ result, data.length ≤ b.writableBytes + kExtrabuf) :
    ∃ b', b.readFd result = some b' ∧ b'.Rep (r ++ result.getD []) := by
  cases result with
  | none => exact ⟨b, rfl, by simpa using h⟩
  | some data =>
    have hc := hc data rfl
    simp only [Option.getD_some]
    have ht : (data.take b.writableBytes).length ≤ b.writableBytes := by
      rw [List.length_take]
      omega
    obtain ⟨filled, hx, hl, hr⟩ := blit_tail_spec h ht
    by_cases hd : data.length ≤ b.writableBytes
    · rw [List.take_of_length_le hd] at hx hr
      simp only [readFd, List.take_of_length_le hd, hx, Option.bind_eq_bind, Option.bind_some,
        hd, ite_true]
      exact ⟨_, rfl, hr⟩
    · -- the tail is full: the rest of the bytes is appended from `extrabuf`
      have hg : data.length - b.writableBytes ≤ kExtrabuf := by omega
      have hi : b.writerIndex + (data.take b.writableBytes).length = filled.length := by
        have := h.wf.writer_le
        rw [List.length_take, Nat.min_eq_left (by omega), hl, writableBytes]
        omega
      rw [hi] at hr
      obtain ⟨b', ha, hr'⟩ := append_spec hr (data.drop b.writableBytes)
      refine ⟨b', ?_, ?_⟩
      · simp only [readFd, hx, Option.bind_eq_bind, Option.bind_some, hd, ite_false, hg,
          guard_true, Option.pure_def]
        exact ha
      · rwa [List.append_assoc, List.take_append_drop] at hr'

end Buffer
end IMServer.Net
