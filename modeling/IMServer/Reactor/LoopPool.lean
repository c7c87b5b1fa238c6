import Mathlib.Data.List.Basic

/-!
# The loops that serve connections

`server/src/EventLoopThreadPool.cc`, with `TcpServer::setThreadNum` (`TcpServer.cc:44–48`). The base
loop gives each new connection to the next of the other loops in turn, or keeps it if there are
none.
-/

namespace IMServer.Reactor

/-- `EventLoopThreadPool.h:47–53`. -/
structure EventLoopThreadPool (L : Type) where
  baseLoop : L
  started : Bool := false
  numThreads : Nat := 0
  next : Nat := 0
  loops : List L := []
  deriving DecidableEq, Repr

namespace EventLoopThreadPool

variable {L : Type}

/-- `none` when the assertion fails. -/
def setThreadNum (p : EventLoopThreadPool L) (numThreads : Int) : Option (EventLoopThreadPool L) :=
  if 0 ≤ numThreads then some { p with numThreads := numThreads.toNat } else none

/-- `EventLoopThreadPool.cc:23–42`; `startLoop i` is the loop that the `i`-th thread publishes. -/
def start (p : EventLoopThreadPool L) (startLoop : Nat → L) : Option (EventLoopThreadPool L) :=
  if p.started then none
  else some { p with
    started := true, loops := p.loops ++ (List.range p.numThreads).map startLoop }

/-- `EventLoopThreadPool.cc:44–61`; `none` when the assertion fails or `loops_` has no such
element. -/
def getNextLoop (p : EventLoopThreadPool L) : Option (L × EventLoopThreadPool L) :=
  if !p.started then none
  else if p.loops.isEmpty then some (p.baseLoop, p)
  else do
    let loop ← p.loops[p.next]?
    some (loop, { p with next := if p.loops.length ≤ p.next + 1 then 0 else p.next + 1 })

/-- The loop of the `k`-th call of `getNextLoop`, counted from 0. -/
def loopFor (p : EventLoopThreadPool L) (k : Nat) : L :=
  (p.loops[k % p.loops.length]?).getD p.baseLoop

/-- `getNextLoop` has been called `k` times. -/
structure Turn (p : EventLoopThreadPool L) (k : Nat) : Prop where
  started : p.started = true
  next : p.loops ≠ [] → p.next = k % p.loops.length

private theorem succ_mod_eq (k : Nat) {n : Nat} (hn : 0 < n) :
    (k + 1) % n = if n ≤ k % n + 1 then 0 else k % n + 1 := by
  have hlt := Nat.mod_lt k hn
  rw [← Nat.mod_add_mod]
  split
  · next hle =>
    have heq : k % n + 1 = n := Nat.le_antisymm hlt hle
    rw [heq, Nat.mod_self]
  · next hle => exact Nat.mod_eq_of_lt (Nat.lt_of_not_le hle)

/-- The loops take turns. -/
theorem Turn.getNextLoop {p : EventLoopThreadPool L} {k : Nat} (h : p.Turn k) :
    ∃ p', p.getNextLoop = some (p.loopFor k, p') ∧ p'.Turn (k + 1) ∧ p'.loops = p.loops ∧
      p'.baseLoop = p.baseLoop := by
  by_cases hl : p.loops = []
  · refine ⟨p, ?_, ⟨h.started, fun hne => absurd hl hne⟩, rfl, rfl⟩
    simp [EventLoopThreadPool.getNextLoop, loopFor, h.started, hl]
  · have hpos : 0 < p.loops.length := List.length_pos_iff.mpr hl
    have hlt := Nat.mod_lt k hpos
    have hnext := h.next hl
    refine ⟨{ p with next := if p.loops.length ≤ p.next + 1 then 0 else p.next + 1 }, ?_,
      ⟨h.started, fun _ => ?_⟩, rfl, rfl⟩
    · simp [EventLoopThreadPool.getNextLoop, loopFor, h.started, hl, hnext, hlt]
    · rw [hnext, succ_mod_eq k hpos]

end EventLoopThreadPool

end IMServer.Reactor
