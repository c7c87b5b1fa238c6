import IMServer.Base.Bytes

/-!
# Byte order of a host

Library: how a host lays out a word in memory, and the conversion between its own order and the
network's. The conversion reverses the bytes of a word exactly on a host that stores the least
significant byte first, so that a converted word lies in memory most significant byte first on
every host.
-/

namespace IMServer.Base

inductive ByteOrder where
  | little
  | big
  deriving DecidableEq, Repr

namespace ByteOrder

/-- The memory of a word of `n` bytes. -/
def bytes (o : ByteOrder) (n x : Nat) : List UInt8 :=
  match o with
  | little => (beBytes n x).reverse
  | big => beBytes n x

/-- The word that lies in memory. -/
def word (o : ByteOrder) (bs : List UInt8) : Nat :=
  match o with
  | little => beNat bs.reverse
  | big => beNat bs

/-- `htobe16`, `htobe32`, `htobe64` and their inverses: the bytes of the word in network order. -/
def htobe (o : ByteOrder) (n x : Nat) : Nat :=
  match o with
  | little => beNat (beBytes n x).reverse
  | big => x

variable (o : ByteOrder)

/-- One byte lies in memory as it is. -/
theorem bytes_one (x : Nat) : o.bytes 1 x = beBytes 1 x := by
  cases o <;> rfl

/-- A converted word lies in memory most significant byte first. -/
theorem bytes_htobe (n x : Nat) : o.bytes n (o.htobe n x) = beBytes n x := by
  cases o with
  | big => rfl
  | little =>
    have hback := beBytes_beNat (beBytes n x).reverse
    rw [List.length_reverse, length_beBytes] at hback
    rw [bytes, htobe, hback, List.reverse_reverse]

/-- Converting what lies in memory reads it most significant byte first. -/
theorem htobe_word {n : Nat} {bs : List UInt8} (h : bs.length = n) :
    o.htobe n (o.word bs) = beNat bs := by
  cases o with
  | big => rfl
  | little =>
    have hback := beBytes_beNat bs.reverse
    rw [List.length_reverse, h] at hback
    rw [htobe, word, hback, List.reverse_reverse]

/-- A swapped word has as many bytes. -/
theorem htobe_lt {n x : Nat} (h : x < 256 ^ n) : o.htobe n x < 256 ^ n := by
  cases o with
  | big => exact h
  | little =>
    have hlt := beNat_lt (beBytes n x).reverse
    rwa [List.length_reverse, length_beBytes] at hlt

/-- A word of `n` bytes is below `256 ^ n`. -/
theorem word_lt (bs : List UInt8) : o.word bs < 256 ^ bs.length := by
  cases o with
  | big => exact beNat_lt bs
  | little =>
    have hlt := beNat_lt bs.reverse
    rwa [List.length_reverse] at hlt

end ByteOrder

/-- Eight bits to a byte. -/
theorem pow_bytes (n : Nat) : 256 ^ n = 2 ^ (8 * n) := by
  rw [Nat.pow_mul]

/-- A word that was read as a signed number is the same word again. -/
theorem unsigned_wrap {w x : Nat} (h : x < 2 ^ w) : unsigned w (wrap w x) = x := by
  have hcast : ((2 ^ w : Nat) : Int) = 2 ^ w := by push_cast; rfl
  have hmod := Int.bmod_emod (x := (x : Int)) (m := 2 ^ w)
  rw [hcast] at hmod
  have hlt : (x : Int) < 2 ^ w := by omega
  rw [unsigned, wrap, hmod, Int.emod_eq_of_lt (Int.natCast_nonneg x) hlt, Int.toNat_natCast]

end IMServer.Base
