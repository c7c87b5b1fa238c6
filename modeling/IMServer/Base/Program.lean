import IMServer.Base.Run
import Mathlib.Logic.Function.Basic

/-!
# Programs that issue commands

Library: a program is a tree of commands whose continuation depends on the reply. The same
program is run alone against a handler, or as one of many threads whose commands
interleave. For the second use a protocol says which commands a thread may issue in each
phase and how the replies move the phase; an invariant of worlds and phases that every
allowed command preserves then holds along every schedule.
-/

namespace IMServer.Base

/-- A program that issues commands, returns a result or ends with an error. -/
inductive Prog (Cmd : Type) (Reply : Cmd → Type) (ε α : Type) where
  | pure (a : α)
  | throw (e : ε)
  | call (c : Cmd) (next : Reply c → Prog Cmd Reply ε α)

namespace Prog

variable {Cmd : Type} {Reply : Cmd → Type} {ε α β : Type}

/-- Continue with the result; an error ends the whole program. -/
def bind : Prog Cmd Reply ε α → (α → Prog Cmd Reply ε β) → Prog Cmd Reply ε β
  | pure a, f => f a
  | throw e, _ => throw e
  | call c next, f => call c fun r => (next r).bind f

instance : Monad (Prog Cmd Reply ε) where
  pure := Prog.pure
  bind := Prog.bind

/-- Sequences associate. -/
theorem bind_assoc {γ : Type} (p : Prog Cmd Reply ε α) (f : α → Prog Cmd Reply ε β)
    (g : β → Prog Cmd Reply ε γ) : (p.bind f).bind g = p.bind fun a => (f a).bind g := by
  induction p with
  | pure a => rfl
  | throw e => rfl
  | call c next ih => exact congrArg (call c) (funext ih)

/-- Issue one command and return its reply. -/
def request (c : Cmd) : Prog Cmd Reply ε (Reply c) := call c pure

/-! ### Running alone -/

section Run

variable {W : Type} (exec : (c : Cmd) → W → Reply c × W)

/-- Run a program alone: every command is answered by the handler. -/
def run : Prog Cmd Reply ε α → W → Except ε α × W
  | pure a, w => (.ok a, w)
  | throw e, w => (.error e, w)
  | call c next, w => run (next (exec c w).1) (exec c w).2

/-- A program that returns. -/
@[simp] theorem run_pure (a : α) (w : W) :
    run exec (Pure.pure a : Prog Cmd Reply ε α) w = (.ok a, w) := rfl

/-- A program that throws. -/
@[simp] theorem run_throw (e : ε) (w : W) :
    run exec (throw e : Prog Cmd Reply ε α) w = (.error e, w) := rfl

/-- A single command. -/
@[simp] theorem run_request (c : Cmd) (w : W) :
    run exec (request c : Prog Cmd Reply ε (Reply c)) w = (.ok (exec c w).1, (exec c w).2) := rfl

/-- A sequence runs its parts one after the other. -/
theorem run_bind (p : Prog Cmd Reply ε α) (f : α → Prog Cmd Reply ε β) (w : W) :
    run exec (p >>= f) w =
      match run exec p w with
      | (.ok a, w') => run exec (f a) w'
      | (.error e, w') => (.error e, w') := by
  induction p generalizing w with
  | pure a => rfl
  | throw e => rfl
  | call c next ih => exact ih (exec c w).1 (exec c w).2

/-- What holds of the result and of the world when the program has run alone. -/
def Ends (Q : Except ε α → W → Prop) (p : Prog Cmd Reply ε α) (w : W) : Prop :=
  Q (run exec p w).1 (run exec p w).2

/-- One command followed by the rest. -/
theorem Ends.request {exec : (c : Cmd) → W → Reply c × W} {Q : Except ε α → W → Prop} {c : Cmd}
    {f : Reply c → Prog Cmd Reply ε α} {w : W} {r : Reply c} {w' : W} (he : exec c w = (r, w'))
    (h : Ends exec Q (f r) w') : Ends exec Q (request c >>= f) w := by
  show Ends exec Q (f (exec c w).1) (exec c w).2
  rw [he]
  exact h

/-- What every end of the program implies. -/
theorem Ends.mono {exec : (c : Cmd) → W → Reply c × W} {Q R : Except ε α → W → Prop}
    {p : Prog Cmd Reply ε α} {w : W} (h : Ends exec Q p w)
    (hqr : ∀ res w', Q res w' → R res w') : Ends exec R p w :=
  hqr _ _ h

/-- What every end of the program makes equivalent to a condition on its start. -/
theorem Ends.iff_of {exec : (c : Cmd) → W → Reply c × W} {Q R : Except ε α → W → Prop}
    {p : Prog Cmd Reply ε α} {w : W} {C : Prop} (h : Ends exec Q p w)
    (hc : ∀ res w', Q res w' → (R res w' ↔ C)) : Ends exec R p w ↔ C :=
  hc _ _ h

/-- A result that is looked at from outside. -/
theorem ends_map {exec : (c : Cmd) → W → Reply c × W} {Q : Except ε β → W → Prop} (f : α → β)
    (p : Prog Cmd Reply ε α) (w : W) :
    Ends exec Q (do return f (← p)) w ↔ Ends exec (fun res w' => Q (res.map f) w') p w := by
  induction p generalizing w with
  | pure a => exact Iff.rfl
  | throw e => exact Iff.rfl
  | call c next ih => exact ih _ _

/-! ### Frames -/

/-- Whatever the replies, the program issues only allowed commands. -/
def Uses (allow : Cmd → Prop) : Prog Cmd Reply ε α → Prop
  | pure _ => True
  | throw _ => True
  | call c next => allow c ∧ ∀ r, Uses allow (next r)

/-- Returning uses no command. -/
theorem uses_pure {allow : Cmd → Prop} (a : α) :
    Uses allow (Pure.pure a : Prog Cmd Reply ε α) := trivial

/-- Throwing uses no command. -/
theorem uses_throw {allow : Cmd → Prop} (e : ε) :
    Uses allow (throw e : Prog Cmd Reply ε α) := trivial

/-- A single command is used. -/
theorem uses_request {allow : Cmd → Prop} {c : Cmd} (h : allow c) :
    Uses allow (request c : Prog Cmd Reply ε (Reply c)) := ⟨h, fun _ => trivial⟩

/-- A sequence uses what its parts use. -/
theorem uses_bind {allow : Cmd → Prop} {p : Prog Cmd Reply ε α} {f : α → Prog Cmd Reply ε β}
    (hp : Uses allow p) (hf : ∀ a, Uses allow (f a)) : Uses allow (p >>= f) := by
  induction p with
  | pure a => exact hf a
  | throw e => trivial
  | call c next ih => exact ⟨hp.1, fun r => ih r (hp.2 r)⟩

/-- What every allowed command leaves true, the whole program leaves true. -/
theorem Uses.run_preserves {allow : Cmd → Prop} (Inv : W → Prop)
    (hexec : ∀ c, allow c → ∀ w, Inv w → Inv (exec c w).2) {p : Prog Cmd Reply ε α}
    (hp : Uses allow p) {w : W} (hw : Inv w) : Inv (run exec p w).2 := by
  induction p generalizing w with
  | pure a => exact hw
  | throw e => exact hw
  | call c next ih => exact ih _ (hp.2 _) (hexec c hp.1 w hw)

/-- Handlers that agree on the allowed commands run the program alike. -/
theorem Uses.run_congr {allow : Cmd → Prop} (Inv : W → Prop)
    {exec exec' : (c : Cmd) → W → Reply c × W}
    (hagree : ∀ c, allow c → ∀ w, Inv w → exec c w = exec' c w ∧ Inv (exec' c w).2)
    {p : Prog Cmd Reply ε α} (hp : Uses allow p) {w : W} (hw : Inv w) :
    run exec p w = run exec' p w := by
  induction p generalizing w with
  | pure a => rfl
  | throw e => rfl
  | call c next ih =>
    obtain ⟨heq, hinv⟩ := hagree c hp.1 w hw
    show run exec (next (exec c w).1) (exec c w).2 = _
    rw [heq]
    exact ih _ (hp.2 _) hinv

end Run

end Prog

/-! ### Protocols -/

/-- Which commands may be issued in a phase, and where a reply leads. -/
structure Protocol (Cmd : Type) (Reply : Cmd → Type) (Φ : Type) where
  allow : Φ → Cmd → Prop
  next : Φ → (c : Cmd) → Reply c → Φ

namespace Protocol

variable {Cmd : Type} {Reply : Cmd → Type} {ε α β Φ : Type} (P : Protocol Cmd Reply Φ)

/-- Whatever the replies, the program only issues allowed commands, and ends in a phase and
with a result that `Q` accepts. -/
def Follows (Q : Φ → Except ε α → Prop) : Φ → Prog Cmd Reply ε α → Prop
  | φ, .pure a => Q φ (.ok a)
  | φ, .throw e => Q φ (.error e)
  | φ, .call c next => P.allow φ c ∧ ∀ r, Follows Q (P.next φ c r) (next r)

variable {P}

/-- A weaker condition on the end. -/
theorem Follows.mono {Q R : Φ → Except ε α → Prop} (hqr : ∀ φ res, Q φ res → R φ res) {φ : Φ}
    {p : Prog Cmd Reply ε α} (h : P.Follows Q φ p) : P.Follows R φ p := by
  induction p generalizing φ with
  | pure a => exact hqr _ _ h
  | throw e => exact hqr _ _ h
  | call c next ih => exact ⟨h.1, fun r => ih r (h.2 r)⟩

/-- A program that follows a protocol issues commands that it allows in some phase. -/
theorem Follows.uses {Q : Φ → Except ε α → Prop} {φ : Φ} {p : Prog Cmd Reply ε α}
    (h : P.Follows Q φ p) : p.Uses fun c => ∃ φ, P.allow φ c := by
  induction p generalizing φ with
  | pure a => trivial
  | throw e => trivial
  | call c next ih => exact ⟨⟨φ, h.1⟩, fun r => ih r (h.2 r)⟩

/-- Sequencing: the second part follows from wherever the first one ends. -/
theorem Follows.bind {Q : Φ → Except ε β → Prop} {φ : Φ} {p : Prog Cmd Reply ε α}
    {f : α → Prog Cmd Reply ε β}
    (h : P.Follows (fun φ' res => match res with
      | .ok a => P.Follows Q φ' (f a)
      | .error e => Q φ' (.error e)) φ p) : P.Follows Q φ (p >>= f) := by
  induction p generalizing φ with
  | pure a => exact h
  | throw e => exact h
  | call c next ih => exact ⟨h.1, fun r => ih r (h.2 r)⟩

/-- One command followed by the rest. -/
theorem Follows.request {Q : Φ → Except ε α → Prop} {φ : Φ} {c : Cmd}
    {f : Reply c → Prog Cmd Reply ε α} (ha : P.allow φ c)
    (hf : ∀ r, P.Follows Q (P.next φ c r) (f r)) :
    P.Follows Q φ (Prog.request c >>= f) := ⟨ha, hf⟩

/-- A part whose commands are allowed and keep the phase is passed over. -/
theorem Follows.bind_of_uses {Q : Φ → Except ε β → Prop} {φ : Φ} {allow : Cmd → Prop}
    {p : Prog Cmd Reply ε α} {f : α → Prog Cmd Reply ε β} (hp : Prog.Uses allow p)
    (hkeep : ∀ c, allow c → P.allow φ c ∧ ∀ r, P.next φ c r = φ)
    (herr : ∀ e, Q φ (.error e)) (hf : ∀ a, P.Follows Q φ (f a)) :
    P.Follows Q φ (p >>= f) := by
  induction p with
  | pure a => exact hf a
  | throw e => exact herr e
  | call c next ih =>
    obtain ⟨ha, hn⟩ := hkeep c hp.1
    refine ⟨ha, fun r => ?_⟩
    rw [hn]
    exact ih r (hp.2 r)

/-- In a phase that allows everything and is never left, every program follows. -/
theorem Follows.of_absorbing {Q : Φ → Except ε α → Prop} {φ : Φ} (ha : ∀ c, P.allow φ c)
    (hn : ∀ c r, P.next φ c r = φ) (hq : ∀ res, Q φ res) (p : Prog Cmd Reply ε α) :
    P.Follows Q φ p := by
  induction p with
  | pure a => exact hq _
  | throw e => exact hq _
  | call c next ih =>
    refine ⟨ha c, fun r => ?_⟩
    rw [hn]
    exact ih r

/-- A part that keeps the phase, whatever it returns, is passed over if its errors are accepted. -/
theorem Follows.after {Q : Φ → Except ε β → Prop} {φ : Φ} {E : ε → Prop}
    {p : Prog Cmd Reply ε α} {f : α → Prog Cmd Reply ε β}
    (hp : P.Follows (fun φ' res => φ' = φ ∧ ∀ e, res = .error e → E e) φ p)
    (herr : ∀ e, E e → Q φ (.error e)) (hf : ∀ a, P.Follows Q φ (f a)) :
    P.Follows Q φ (p >>= f) := by
  refine .bind (hp.mono fun φ' res h => ?_)
  obtain ⟨rfl, he⟩ := h
  cases res with
  | ok a => exact hf a
  | error e => exact herr e (he e rfl)

/-! ### Watching a run -/

section Observe

variable {W : Type}

/-- Run the commands and follow the phase beside the world. -/
def observe (exec : (c : Cmd) → W → Reply c × W) (P : Protocol Cmd Reply Φ) (c : Cmd)
    (s : W × Φ) : Reply c × (W × Φ) :=
  ((exec c s.1).1, (exec c s.1).2, P.next s.2 c (exec c s.1).1)

/-- To watch a run does not change it. -/
theorem run_observe (exec : (c : Cmd) → W → Reply c × W) (P : Protocol Cmd Reply Φ)
    (p : Prog Cmd Reply ε α) (s : W × Φ) :
    (p.run (observe exec P) s).1 = (p.run exec s.1).1 ∧
      (p.run (observe exec P) s).2.1 = (p.run exec s.1).2 := by
  induction p generalizing s with
  | pure a => exact ⟨rfl, rfl⟩
  | throw e => exact ⟨rfl, rfl⟩
  | call c next ih => exact ih _ _

/-- A run ends in a phase and with a result that are accepted. -/
theorem Follows.ends {exec : (c : Cmd) → W → Reply c × W} {Q : Φ → Except ε α → Prop} {φ : Φ}
    {p : Prog Cmd Reply ε α} (h : P.Follows Q φ p) (w : W) :
    p.Ends (observe exec P) (fun res s => Q s.2 res) (w, φ) := by
  induction p generalizing w φ with
  | pure a => exact h
  | throw e => exact h
  | call c next ih => exact ih _ (h.2 _) _

end Observe

end Protocol

/-! ### Interleaving -/

/-- Threads `ι` over one world, with the phase each of them has reached. -/
structure Config (ι Cmd : Type) (Reply : Cmd → Type) (ε α W Φ : Type) where
  world : W
  phase : ι → Φ
  thread : ι → Prog Cmd Reply ε α

namespace Config

variable {ι Cmd : Type} {Reply : Cmd → Type} {ε α W Φ : Type}

/-- The command a thread is about to issue. -/
def nextCommand (s : Config ι Cmd Reply ε α W Φ) (i : ι) : Option Cmd :=
  match s.thread i with
  | .call c _ => some c
  | _ => none

/-- A thread that has returned or thrown. -/
def Ended (s : Config ι Cmd Reply ε α W Φ) (i : ι) : Prop := s.nextCommand i = none

/-- A thread that has ended is in a phase that accepts its result. -/
theorem Ended.exists_result {P : Protocol Cmd Reply Φ} {Q : Φ → Except ε α → Prop}
    {s : Config ι Cmd Reply ε α W Φ} {i : ι} (h : s.Ended i)
    (hf : P.Follows Q (s.phase i) (s.thread i)) : ∃ res, Q (s.phase i) res := by
  unfold Ended nextCommand at h
  cases ht : s.thread i with
  | pure a =>
    rw [ht] at hf
    exact ⟨_, hf⟩
  | throw e =>
    rw [ht] at hf
    exact ⟨_, hf⟩
  | call c next =>
    rw [ht] at h
    cases h

variable [DecidableEq ι]

/-- Let one thread issue its next command; a thread that has ended does nothing. -/
def step (exec : (c : Cmd) → W → Reply c × W) (P : ι → Protocol Cmd Reply Φ)
    (s : Config ι Cmd Reply ε α W Φ) (i : ι) : Config ι Cmd Reply ε α W Φ :=
  match s.thread i with
  | .call c next =>
    { world := (exec c s.world).2
      phase := Function.update s.phase i ((P i).next (s.phase i) c (exec c s.world).1)
      thread := Function.update s.thread i (next (exec c s.world).1) }
  | _ => s

variable {exec : (c : Cmd) → W → Reply c × W} {P : ι → Protocol Cmd Reply Φ}

/-- A thread that is not scheduled stays where it is. -/
theorem foldl_step_of_notMem {i : ι} {schedule : List ι} (hi : i ∉ schedule)
    (s : Config ι Cmd Reply ε α W Φ) :
    (schedule.foldl (step exec P) s).phase i = s.phase i ∧
      (schedule.foldl (step exec P) s).thread i = s.thread i := by
  induction schedule generalizing s with
  | nil => exact ⟨rfl, rfl⟩
  | cons j schedule ih =>
    rw [List.mem_cons, not_or] at hi
    obtain ⟨hphase, hthread⟩ := ih hi.2 (step exec P s j)
    have hstep : (step exec P s j).phase i = s.phase i ∧
        (step exec P s j).thread i = s.thread i := by
      unfold step
      split
      · exact ⟨Function.update_of_ne hi.1 _ _, Function.update_of_ne hi.1 _ _⟩
      · exact ⟨rfl, rfl⟩
    exact ⟨hphase.trans hstep.1, hthread.trans hstep.2⟩

/-- The phase of a thread that has returned, or that was never scheduled. -/
theorem phase_of_returned {Q : Φ → Except ε α → Prop} {R : Φ → Prop} {i : ι}
    {schedule : List ι} {s : Config ι Cmd Reply ε α W Φ}
    (hfollow : (P i).Follows Q ((schedule.foldl (step exec P) s).phase i)
      ((schedule.foldl (step exec P) s).thread i))
    (hret : i ∈ schedule → ∃ a, (schedule.foldl (step exec P) s).thread i = .pure a)
    (hstart : R (s.phase i)) (hok : ∀ φ a, Q φ (.ok a) → R φ) :
    R ((schedule.foldl (step exec P) s).phase i) := by
  by_cases hi : i ∈ schedule
  · obtain ⟨a, ha⟩ := hret hi
    rw [ha] at hfollow
    exact hok _ a hfollow
  · rw [(foldl_step_of_notMem hi s).1]
    exact hstart

/-- A step leaves every thread following its protocol. -/
theorem follows_step {Q : ι → Φ → Except ε α → Prop} {s : Config ι Cmd Reply ε α W Φ}
    (h : ∀ i, (P i).Follows (Q i) (s.phase i) (s.thread i)) (i j : ι) :
    (P j).Follows (Q j) ((step exec P s i).phase j) ((step exec P s i).thread j) := by
  cases ht : s.thread i with
  | pure a => simpa [step, ht] using h j
  | throw e => simpa [step, ht] using h j
  | call c next =>
    have hf := h i
    rw [ht] at hf
    by_cases hj : j = i
    · subst hj
      simpa [step, ht] using hf.2 (exec c s.world).1
    · simpa [step, ht, hj] using h j

/-- If every allowed command that meets the condition preserves an invariant of worlds and
phases, the invariant holds after every schedule that meets the condition. -/
theorem run_invariant {Q : ι → Φ → Except ε α → Prop} {Inv : W → (ι → Φ) → Prop}
    {cond : Config ι Cmd Reply ε α W Φ → ι → Prop}
    (hstep : ∀ (s : Config ι Cmd Reply ε α W Φ) (i : ι) (c : Cmd), Inv s.world s.phase →
      s.nextCommand i = some c → (P i).allow (s.phase i) c → cond s i →
      Inv (exec c s.world).2
        (Function.update s.phase i ((P i).next (s.phase i) c (exec c s.world).1)))
    (schedule : List ι) {s : Config ι Cmd Reply ε α W Φ} (hinv : Inv s.world s.phase)
    (hfollow : ∀ i, (P i).Follows (Q i) (s.phase i) (s.thread i))
    (hl : Legal (fun s i => some (step exec P s i)) cond s schedule) :
    Inv (schedule.foldl (step exec P) s).world (schedule.foldl (step exec P) s).phase ∧
      ∀ i, (P i).Follows (Q i) ((schedule.foldl (step exec P) s).phase i)
        ((schedule.foldl (step exec P) s).thread i) := by
  induction schedule generalizing s with
  | nil => exact ⟨hinv, hfollow⟩
  | cons i schedule ih =>
    refine ih ?_ (follows_step hfollow i) hl.2
    cases ht : s.thread i with
    | pure a => simpa [step, ht] using hinv
    | throw e => simpa [step, ht] using hinv
    | call c next =>
      have hf := hfollow i
      rw [ht] at hf
      simpa [step, ht] using hstep s i c hinv (by simp [nextCommand, ht]) hf.1 hl.1

end Config
end IMServer.Base
