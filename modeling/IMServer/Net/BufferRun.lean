import IMServer.Base.Run
import IMServer.Net.Buffer
import Mathlib.Logic.Function.Basic

/-!
# Runs of buffer operations

Any number of buffers under any sequence of operations of `Buffer.h` and
`Buffer::readFd`, against the sequences of bytes they stand for. Swapping is the reason
for more than one buffer.
-/

namespace IMServer.Net

open IMServer.Base

/-- One call on the buffers named by `ι`. -/
inductive BufferOp (ι : Type) where
  | append (i : ι) (data : List UInt8)
  | ensureWritableBytes (i : ι) (len : Nat)
  /-- Store at `beginWrite()`, then `hasWritten`. -/
  | write (i : ι) (data : List UInt8)
  | prepend (i : ι) (data : List UInt8)
  | retrieve (i : ι) (len : Nat)
  | retrieveAsString (i : ι) (len : Nat)
  | retrieveAll (i : ι)
  | unwrite (i : ι) (len : Nat)
  | swap (i j : ι)
  | shrink (i : ι) (reserve : Nat)
  /-- The bytes `readv` delivered, `none` for its result -1. -/
  | readFd (i : ι) (result : Option (List UInt8))

namespace BufferOp

variable {ι : Type} [DecidableEq ι]

/-- Run one call on its buffer. -/
def step (s : ι → Buffer) : BufferOp ι → Option (ι → Buffer)
  | append i data => ((s i).append data).map (Function.update s i)
  | ensureWritableBytes i len => ((s i).ensureWritableBytes len).map (Function.update s i)
  | write i data => ((s i).write data).map (Function.update s i)
  | prepend i data => ((s i).prepend data).map (Function.update s i)
  | retrieve i len => ((s i).retrieve len).map (Function.update s i)
  | retrieveAsString i len =>
    ((s i).retrieveAsString len).map fun r => Function.update s i r.2
  | retrieveAll i => some (Function.update s i (s i).retrieveAll)
  | unwrite i len => ((s i).unwrite len).map (Function.update s i)
  -- `Buffer.h:46–51`: the two buffers change places
  | swap i j => some (Function.update (Function.update s i (s j)) j (s i))
  | shrink i reserve => ((s i).shrink reserve).map (Function.update s i)
  | readFd i result => ((s i).readFd result).map (Function.update s i)

/-- The asserted precondition of a call, and what `readv` may deliver into the areas it
was given. -/
def Pre (s : ι → Buffer) : BufferOp ι → Prop
  | append _ _ | ensureWritableBytes _ _ | retrieveAll _ | swap _ _ | readFd _ none => True
  | write i data => data.length ≤ (s i).writableBytes
  | prepend i data => data.length ≤ (s i).prependableBytes
  | retrieve i len | retrieveAsString i len | unwrite i len => len ≤ (s i).readableBytes
  | shrink i _ => (s i).readableBytes < 2 ^ 31
  | readFd i (some data) =>
    if (s i).writableBytes < kExtrabuf then data.length ≤ (s i).writableBytes + kExtrabuf
    else data.length ≤ (s i).writableBytes

instance decidablePre (s : ι → Buffer) : ∀ op : BufferOp ι, Decidable (Pre s op)
  | append _ _ | ensureWritableBytes _ _ | retrieveAll _ | swap _ _ | readFd _ none =>
    inferInstanceAs (Decidable True)
  | write _ _ | prepend _ _ | retrieve _ _ | retrieveAsString _ _ | unwrite _ _ =>
    inferInstanceAs (Decidable (_ ≤ _))
  | shrink _ _ => inferInstanceAs (Decidable (_ < _))
  | readFd _ (some _) => inferInstanceAs (Decidable (ite _ _ _))

/-- The effect of a call on the byte sequences the buffers stand for. -/
def absStep (a : ι → List UInt8) : BufferOp ι → ι → List UInt8
  | append i data | write i data => Function.update a i (a i ++ data)
  | ensureWritableBytes _ _ | shrink _ _ => a
  | prepend i data => Function.update a i (data ++ a i)
  | retrieve i len | retrieveAsString i len => Function.update a i ((a i).drop len)
  | retrieveAll i => Function.update a i []
  | unwrite i len => Function.update a i ((a i).take ((a i).length - len))
  | swap i j => Function.update (Function.update a i (a j)) j (a i)
  | readFd i result => Function.update a i (a i ++ result.getD [])

private theorem rep_update {s : ι → Buffer} {a : ι → List UInt8} (h : ∀ j, (s j).Rep (a j))
    {i : ι} {b : Buffer} {r : List UInt8} (hb : b.Rep r) (j : ι) :
    (Function.update s i b j).Rep (Function.update a i r j) := by
  by_cases hj : j = i
  · subst hj
    simpa using hb
  · simpa [hj] using h j

/-- A call within its precondition succeeds and acts on the byte sequences. -/
theorem step_refines {s : ι → Buffer} {a : ι → List UInt8} (op : BufferOp ι)
    (h : ∀ j, (s j).Rep (a j)) (hp : Pre s op) :
    ∃ s', step s op = some s' ∧ ∀ j, (s' j).Rep (absStep a op j) := by
  cases op with
  | append i data =>
    obtain ⟨b, hb, hr⟩ := Buffer.append_spec (h i) data
    exact ⟨_, by rw [step, hb]; rfl, rep_update h hr⟩
  | ensureWritableBytes i len =>
    obtain ⟨b, hb, hr, -⟩ := Buffer.ensureWritableBytes_spec (h i) len
    refine ⟨_, by rw [step, hb]; rfl, fun j => ?_⟩
    have hu := rep_update (i := i) h hr j
    rwa [Function.update_eq_self] at hu
  | write i data =>
    obtain ⟨b, hb, hr⟩ := Buffer.write_spec (h i) hp
    exact ⟨_, by rw [step, hb]; rfl, rep_update h hr⟩
  | prepend i data =>
    obtain ⟨b, hb, hr⟩ := Buffer.prepend_spec (h i) hp
    exact ⟨_, by rw [step, hb]; rfl, rep_update h hr⟩
  | retrieve i len =>
    have hl : len ≤ (a i).length := (h i).length_eq ▸ (hp : len ≤ (s i).readableBytes)
    obtain ⟨b, hb, hr⟩ := Buffer.retrieve_spec (h i) hl
    exact ⟨_, by rw [step, hb]; rfl, rep_update h hr⟩
  | retrieveAsString i len =>
    have hl : len ≤ (a i).length := (h i).length_eq ▸ (hp : len ≤ (s i).readableBytes)
    obtain ⟨b, hb, hr⟩ := Buffer.retrieveAsString_spec (h i) hl
    exact ⟨_, by rw [step, hb]; rfl, rep_update h hr⟩
  | retrieveAll i => exact ⟨_, rfl, rep_update h (Buffer.retrieveAll_spec (h i))⟩
  | unwrite i len =>
    have hl : len ≤ (a i).length := (h i).length_eq ▸ (hp : len ≤ (s i).readableBytes)
    obtain ⟨b, hb, hr⟩ := Buffer.unwrite_spec (h i) hl
    exact ⟨_, by rw [step, hb]; rfl, rep_update h hr⟩
  | swap i j => exact ⟨_, rfl, rep_update (rep_update h (h j)) (h i)⟩
  | shrink i reserve =>
    have hl : (a i).length < 2 ^ 31 := (h i).length_eq ▸ (hp : (s i).readableBytes < 2 ^ 31)
    obtain ⟨b, hb, hr⟩ := Buffer.shrink_spec (h i) hl reserve
    refine ⟨_, by rw [step, hb]; rfl, fun j => ?_⟩
    have hu := rep_update (i := i) h hr j
    rwa [Function.update_eq_self] at hu
  | readFd i result =>
    have hc : ∀ data ∈ result, data.length ≤ (s i).writableBytes + kExtrabuf := by
      rintro data rfl
      simp only [Pre] at hp
      split at hp <;> omega
    obtain ⟨b, hb, hr⟩ := Buffer.readFd_spec (h i) result hc
    exact ⟨_, by rw [step, hb]; rfl, rep_update h hr⟩

/-- From new buffers, every initial part of a run whose calls meet their preconditions
succeeds: no assertion fails and no byte outside a vector is touched. It leaves the indices
in order and the readable bytes equal to what the calls make of byte sequences. -/
theorem run_refines (init : ι → Nat) (ops : List (BufferOp ι))
    (hl : Legal step Pre (fun i => Buffer.new (init i)) ops)
    (done : List (BufferOp ι)) (hd : done <+: ops) :
    ∃ s', run step (fun i => Buffer.new (init i)) done = some s' ∧
      ∀ i, (s' i).readerIndex ≤ (s' i).writerIndex ∧
        (s' i).writerIndex ≤ (s' i).buffer.length ∧
        (s' i).readable = done.foldl absStep (fun _ => []) i := by
  obtain ⟨rest, rfl⟩ := hd
  obtain ⟨s', hs, hr⟩ := run_simulation
    (fun (s : ι → Buffer) (a : ι → List UInt8) => ∀ j, (s j).Rep (a j))
    (fun _ _ op hR hp => step_refines op hR hp) done (fun i => Buffer.rep_new (init i))
    hl.of_append
  exact ⟨s', hs, fun i => ⟨(hr i).wf.reader_le, (hr i).wf.writer_le, (hr i).readable_eq⟩⟩

/-- Two buffers of no initial room: append, prepend below the reserved front, drop, swap
and read past the writable tail. -/
theorem run_refines_sample :
    let ops : List (BufferOp Bool) := [.append true [1, 2, 3], .prepend true [9],
      .retrieve true 2, .swap true false, .readFd false (some [4, 5]), .unwrite false 1]
    Legal step Pre (fun _ : Bool => Buffer.new 0) ops ∧
      ∃ s', run step (fun _ : Bool => Buffer.new 0) ops = some s' ∧
        ∀ i, (s' i).readerIndex ≤ (s' i).writerIndex ∧
          (s' i).writerIndex ≤ (s' i).buffer.length ∧
          (s' i).readable = ops.foldl absStep (fun _ => []) i := by
  intro ops
  have hl : Legal step Pre (fun _ : Bool => Buffer.new 0) ops := by decide
  exact ⟨hl, run_refines (fun _ => 0) ops hl ops (List.prefix_refl ops)⟩

end BufferOp
end IMServer.Net
