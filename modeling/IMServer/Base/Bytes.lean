import Mathlib.Algebra.Order.Ring.Int
import Mathlib.Data.List.Induction
import Mathlib.Tactic.Positivity
import Mathlib.Tactic.Ring

/-!
# Byte lists, big-endian words and wrapped machine integers

Library of byte-level facts that name nothing of the server: words written most
significant byte first, two's-complement wrapping, and bounds-checked overwriting of a
window of a byte list. Sizes and words are natural numbers; a fixed width appears only
where a value is cut to it.
-/

namespace IMServer.Base

/-- A text, as its bytes. -/
abbrev Text := List UInt8

/-- The blank. -/
def space : UInt8 := 32

/-- `isspace` of the C locale. -/
def isSpace (b : UInt8) : Bool := b = 32 || (9 ≤ b && b ≤ 13)

/-- The low `n` bytes of a number, most significant byte first. -/
def beBytes : Nat → Nat → List UInt8
  | 0, _ => []
  | n + 1, x => beBytes n (x / 256) ++ [UInt8.ofNat x]

/-- The number a byte list denotes, most significant byte first. -/
def beNat (bs : List UInt8) : Nat := bs.foldl (fun acc b => acc * 256 + b.toNat) 0

/-- Two's-complement reading of the low `w` bits of an integer. -/
def wrap (w : Nat) (x : Int) : Int := x.bmod (2 ^ w)

/-- The low `w` bits of an integer as an unsigned word. -/
def unsigned (w : Nat) (x : Int) : Nat := (x % 2 ^ w).toNat

/-- A word of `n` bytes has exactly `n` bytes. -/
@[simp] theorem length_beBytes (n x : Nat) : (beBytes n x).length = n := by
  induction n generalizing x with
  | zero => rfl
  | succ n ih => simp [beBytes, ih]

/-- Appending a low byte scales the number read so far. -/
theorem beNat_append_singleton (bs : List UInt8) (b : UInt8) :
    beNat (bs ++ [b]) = beNat bs * 256 + b.toNat := by
  simp [beNat]

/-- Reading a written word gives the number cut to the word's width. -/
theorem beNat_beBytes (n x : Nat) : beNat (beBytes n x) = x % 256 ^ n := by
  induction n generalizing x with
  | zero => simp [beBytes, beNat, Nat.mod_one]
  | succ n ih =>
    rw [beBytes, beNat_append_singleton, ih, UInt8.toNat_ofNat']
    have hp : (256 : Nat) ^ (n + 1) = 256 * 256 ^ n := by ring
    rw [hp, Nat.mod_mul]
    ring

/-- A number that fits the word is read back unchanged. -/
theorem beNat_beBytes_of_lt {n x : Nat} (h : x < 256 ^ n) : beNat (beBytes n x) = x := by
  rw [beNat_beBytes, Nat.mod_eq_of_lt h]

/-- A byte list denotes a number below the bound of its length. -/
theorem beNat_lt (bs : List UInt8) : beNat bs < 256 ^ bs.length := by
  induction bs using List.reverseRecOn with
  | nil => simp [beNat]
  | append_singleton bs b ih =>
    rw [beNat_append_singleton, List.length_append, List.length_singleton, Nat.pow_succ]
    have hb := b.toNat_lt
    omega

/-- Writing what was read from a byte list gives the list back. -/
theorem beBytes_beNat (bs : List UInt8) : beBytes bs.length (beNat bs) = bs := by
  induction bs using List.reverseRecOn with
  | nil => rfl
  | append_singleton bs b ih =>
    have hb := b.toNat_lt
    have hdiv : (beNat bs * 256 + b.toNat) / 256 = beNat bs := by omega
    have hlow : UInt8.ofNat (beNat bs * 256 + b.toNat) = b := by
      rw [← UInt8.toNat_inj, UInt8.toNat_ofNat']
      omega
    rw [beNat_append_singleton, List.length_append, List.length_singleton, beBytes, hdiv, ih, hlow]

/-- An integer in the signed range of the width is its own two's-complement reading. -/
theorem wrap_eq_self {w : Nat} {x : Int} (hw : 0 < w)
    (hlo : -2 ^ (w - 1) ≤ x) (hhi : x < 2 ^ (w - 1)) : wrap w x = x := by
  obtain ⟨v, rfl⟩ : ∃ v, w = v + 1 := ⟨w - 1, by omega⟩
  have hp : (2 : Int) ^ (v + 1) = 2 * 2 ^ v := by ring
  have hn : ((2 ^ (v + 1) : Nat) : Int) = 2 * 2 ^ v := by push_cast; ring
  simp only [Nat.add_sub_cancel] at hlo hhi
  apply Int.bmod_eq_of_le <;> omega

/-- Cutting to unsigned bits first does not change the two's-complement reading. -/
theorem wrap_unsigned (w : Nat) (x : Int) : wrap w (unsigned w x) = wrap w x := by
  have hpos : (0 : Int) < 2 ^ w := by positivity
  have hn : ((unsigned w x : Nat) : Int) = x % 2 ^ w := by
    rw [unsigned, Int.toNat_of_nonneg (Int.emod_nonneg _ (by omega))]
  rw [wrap, wrap, hn]
  have := Int.emod_bmod (n := 2 ^ w) (x := x)
  push_cast at this
  exact this

/-- Wrapping twice is wrapping once. -/
theorem wrap_wrap (w : Nat) (x : Int) : wrap w (wrap w x) = wrap w x := Int.bmod_bmod

/-- The unsigned word is below the bound of its width. -/
theorem unsigned_lt (w : Nat) (x : Int) : unsigned w x < 2 ^ w := by
  have hpos : (0 : Int) < 2 ^ w := by positivity
  have h := Int.emod_lt_of_pos x hpos
  have hc : ((2 ^ w : Nat) : Int) = 2 ^ w := by push_cast; rfl
  rw [unsigned]
  omega

/-- Overwrite the window of a byte list that starts at `pos`; fails when the window
does not lie inside the list. -/
def blit (v : List UInt8) (pos : Nat) (data : List UInt8) : Option (List UInt8) :=
  if pos + data.length ≤ v.length then
    some (v.take pos ++ data ++ v.drop (pos + data.length))
  else none

end IMServer.Base
