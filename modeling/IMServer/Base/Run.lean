import Mathlib.Data.List.Basic

/-!
# Runs of partial step functions

Library: a step function that may fail, the run of a list of events, and what it means
that every event of a run meets its precondition in the state it finds. A simulation of
single steps lifts to whole runs, failures included.
-/

namespace IMServer.Base

universe u v w

variable {S : Type u} {A : Type v} {E : Type w}

/-- Run the events one after the other; `none` as soon as one step fails. -/
def run (step : S → E → Option S) : S → List E → Option S
  | s, [] => some s
  | s, e :: es => (step s e).bind fun s' => run step s' es

/-- Events in two parts. -/
theorem run_append (step : S → E → Option S) (s : S) (xs ys : List E) :
    run step s (xs ++ ys) = (run step s xs).bind fun s' => run step s' ys := by
  induction xs generalizing s with
  | nil => rfl
  | cons x xs ih =>
    simp only [List.cons_append, run, ih, Option.bind_assoc]

/-- Every event meets its precondition in the state in which it is executed. -/
def Legal (step : S → E → Option S) (pre : S → E → Prop) : S → List E → Prop
  | _, [] => True
  | s, e :: es => pre s e ∧
    match step s e with
    | some s' => Legal step pre s' es
    | none => True

/-- Legality of a concrete run is decided by running it. -/
instance decidableLegal (step : S → E → Option S) (pre : S → E → Prop)
    [∀ s e, Decidable (pre s e)] : ∀ s es, Decidable (Legal step pre s es)
  | _, [] => .isTrue trivial
  | s, e :: es =>
    match h : step s e with
    | some s' =>
      have := decidableLegal step pre s' es
      decidable_of_iff (pre s e ∧ Legal step pre s' es) (by rw [Legal, h])
    | none => decidable_of_iff (pre s e) (by rw [Legal, h, and_true])

/-- A legal run goes on legally after its first step. -/
theorem Legal.tail {step : S → E → Option S} {pre : S → E → Prop} {s s' : S} {e : E}
    {es : List E} (h : Legal step pre s (e :: es)) (hs : step s e = some s') :
    Legal step pre s' es := by
  simpa [Legal, hs] using h.2

/-- A precondition on the events alone. -/
theorem Legal.of_forall {step : S → E → Option S} {pre : E → Prop} {es : List E}
    (h : ∀ e ∈ es, pre e) (s : S) : Legal step (fun _ e => pre e) s es := by
  induction es generalizing s with
  | nil => trivial
  | cons e es ih =>
    refine ⟨h e List.mem_cons_self, ?_⟩
    split
    · exact ih (fun e' he => h e' (List.mem_cons_of_mem e he)) _
    · trivial

/-- A weaker condition on the events. -/
theorem Legal.mono {step : S → E → Option S} {P Q : S → E → Prop} {s : S} {es : List E}
    (h : Legal step P s es) (hPQ : ∀ s e, P s e → Q s e) : Legal step Q s es := by
  induction es generalizing s with
  | nil => trivial
  | cons e es ih =>
    refine ⟨hPQ s e h.1, ?_⟩
    split
    · next s' hs => exact ih (h.tail hs)
    · trivial

/-- An initial part of a legal run is legal. -/
theorem Legal.of_append {step : S → E → Option S} {pre : S → E → Prop} {s : S} {xs ys : List E}
    (h : Legal step pre s (xs ++ ys)) : Legal step pre s xs := by
  induction xs generalizing s with
  | nil => trivial
  | cons e es ih =>
    refine ⟨h.1, ?_⟩
    split
    · next s' hs => exact ih (h.tail hs)
    · trivial

/-- A legal run goes on legally after an initial part. -/
theorem Legal.of_append_right {step : S → E → Option S} {pre : S → E → Prop} {s s' : S}
    {xs ys : List E} (h : Legal step pre s (xs ++ ys)) (hs : run step s xs = some s') :
    Legal step pre s' ys := by
  induction xs generalizing s with
  | nil => exact Option.some.inj hs ▸ h
  | cons e es ih =>
    obtain ⟨s₁, h₁, h₂⟩ := Option.bind_eq_some_iff.mp hs
    exact ih (h.tail h₁) h₂

/-- Two properties of single steps that agree in every state an invariant allows, and that
preserve it, hold along the same runs. -/
theorem legal_congr_of_legal {step : S → E → Option S} {pre P Q : S → E → Prop} (Inv : S → Prop)
    (hstep : ∀ s e, Inv s → pre s e →
      (P s e ↔ Q s e) ∧ (Q s e → ∀ s', step s e = some s' → Inv s'))
    (es : List E) {s : S} (hs : Inv s) (hl : Legal step pre s es) :
    Legal step P s es ↔ Legal step Q s es := by
  induction es generalizing s with
  | nil => exact Iff.rfl
  | cons e es ih =>
    obtain ⟨hPQ, hnext⟩ := hstep s e hs hl.1
    rw [Legal, Legal, hPQ]
    refine and_congr_right fun hq => ?_
    split
    · next s' he => exact ih (hnext hq s' he) (hl.tail he)
    · exact Iff.rfl

/-- The same for a precondition on the events alone. -/
theorem legal_congr {step : S → E → Option S} {pre : E → Prop} {P Q : S → E → Prop}
    (Inv : S → Prop)
    (hstep : ∀ s e, Inv s → pre e →
      (P s e ↔ Q s e) ∧ (Q s e → ∀ s', step s e = some s' → Inv s'))
    (es : List E) (hes : ∀ e ∈ es, pre e) {s : S} (hs : Inv s) :
    Legal step P s es ↔ Legal step Q s es :=
  legal_congr_of_legal Inv hstep es hs (Legal.of_forall hes s)

/-- Along every run, the steps succeed with a good outcome exactly when they meet a condition: those
that meet it do so and preserve an invariant, and a good outcome shows that it was met. -/
theorem legal_outcome_iff {step : S → E → Option S} {good : S → S → Prop} {Q : S → E → Prop}
    (Inv : S → Prop)
    (hgood : ∀ s e, Inv s → Q s e → ∃ s', step s e = some s' ∧ Inv s' ∧ good s s')
    (hcond : ∀ s e s', Inv s → step s e = some s' → good s s' → Q s e) (es : List E) {s : S}
    (hs : Inv s) :
    Legal step (fun s e => ∃ s', step s e = some s' ∧ good s s') s es ↔ Legal step Q s es := by
  have hall : ∀ e ∈ es, True := fun _ _ => trivial
  refine legal_congr Inv (fun s e h _ => ⟨⟨?_, fun hq => ?_⟩, fun hq s' he => ?_⟩) es hall hs
  · rintro ⟨s', he, hg⟩
    exact hcond s e s' h he hg
  · obtain ⟨s', he, -, hg⟩ := hgood s e h hq
    exact ⟨s', he, hg⟩
  · obtain ⟨s'', he', hinv, -⟩ := hgood s e h hq
    exact Option.some.inj (he'.symm.trans he) ▸ hinv

/-- If every legal step succeeds and is matched by an abstract step, every legal run
succeeds and is matched by the abstract run. -/
theorem run_simulation {step : S → E → Option S} {pre : S → E → Prop} {astep : A → E → A}
    (R : S → A → Prop)
    (hstep : ∀ s a e, R s a → pre s e → ∃ s', step s e = some s' ∧ R s' (astep a e))
    (es : List E) {s : S} {a : A} (hR : R s a) (hl : Legal step pre s es) :
    ∃ s', run step s es = some s' ∧ R s' (es.foldl astep a) := by
  induction es generalizing s a with
  | nil => exact ⟨s, rfl, hR⟩
  | cons e es ih =>
    obtain ⟨s₁, h₁, hR₁⟩ := hstep s a e hR hl.1
    obtain ⟨s₂, h₂, hR₂⟩ := ih hR₁ (hl.tail h₁)
    exact ⟨s₂, by simp [run, h₁, h₂], hR₂⟩

/-- If every step is matched by an abstract step as long as a condition on the abstract state holds,
and fails otherwise, a whole run is matched or fails by the same condition. -/
theorem run_simulation_or_fails {step : S → E → Option S} {astep : A → E → A}
    {pre ok : A → E → Prop} (R : S → A → Prop)
    (hok : ∀ s a e, R s a → pre a e → ok a e → ∃ s', step s e = some s' ∧ R s' (astep a e))
    (hbad : ∀ s a e, R s a → pre a e → ¬ ok a e → step s e = none) (es : List E) {s : S} {a : A}
    (hR : R s a) (hl : Legal (fun a e => some (astep a e)) pre a es) :
    (Legal (fun a e => some (astep a e)) ok a es →
        ∃ s', run step s es = some s' ∧ R s' (es.foldl astep a)) ∧
      (¬ Legal (fun a e => some (astep a e)) ok a es → run step s es = none) := by
  induction es generalizing s a with
  | nil => exact ⟨fun _ => ⟨s, rfl, hR⟩, fun h => absurd trivial h⟩
  | cons e es ih =>
    by_cases he : ok a e
    · obtain ⟨s₁, h₁, hR₁⟩ := hok s a e hR hl.1 he
      obtain ⟨hgood, hfail⟩ := ih hR₁ (hl.tail rfl)
      rw [run, h₁, Option.bind_some]
      exact ⟨fun h => hgood h.2, fun h => hfail fun ht => h ⟨he, ht⟩⟩
    · refine ⟨fun h => absurd h.1 he, fun _ => ?_⟩
      rw [run, hbad s a e hR hl.1 he, Option.bind_none]

/-- If every legal step succeeds and preserves an invariant, every legal run does. -/
theorem run_invariant {step : S → E → Option S} {pre : S → E → Prop} (Inv : S → Prop)
    (hstep : ∀ s e, Inv s → pre s e → ∃ s', step s e = some s' ∧ Inv s')
    (es : List E) {s : S} (hs : Inv s) (hl : Legal step pre s es) :
    ∃ s', run step s es = some s' ∧ Inv s' :=
  @run_simulation S Unit E step pre (fun a _ => a) (fun s _ => Inv s) (fun s _ e => hstep s e) es s
    () hs hl

/-- If every step succeeds, preserves an invariant and leaves a state that is good exactly when it
was good before and the step met a condition, a whole run does the same. -/
theorem run_good_iff {step : S → E → Option S} {pre : S → E → Prop} {good : S → Prop}
    {Q : S → E → Prop} (Inv : S → Prop)
    (hstep : ∀ s e, Inv s → pre s e →
      ∃ s', step s e = some s' ∧ Inv s' ∧ (good s' ↔ good s ∧ Q s e))
    (es : List E) {s : S} (hs : Inv s) (hl : Legal step pre s es) :
    ∃ s', run step s es = some s' ∧ Inv s' ∧ (good s' ↔ good s ∧ Legal step Q s es) := by
  induction es generalizing s with
  | nil => exact ⟨s, rfl, hs, (and_iff_left trivial).symm⟩
  | cons e es ih =>
    obtain ⟨s₁, h₁, hinv₁, hgood₁⟩ := hstep s e hs hl.1
    obtain ⟨s₂, h₂, hinv₂, hgood₂⟩ := ih hinv₁ (hl.tail h₁)
    refine ⟨s₂, by simp [run, h₁, h₂], hinv₂, ?_⟩
    rw [hgood₂, hgood₁, and_assoc]
    simp only [Legal, h₁]

/-- An invariant of the legal steps that succeed holds after every legal run that succeeds. -/
theorem legal_some_invariant {step : S → E → Option S} {pre : S → E → Prop} (Inv : S → Prop)
    (hstep : ∀ s e s', Inv s → pre s e → step s e = some s' → Inv s') (es : List E) {s s' : S}
    (hl : Legal step pre s es) (hs : Inv s) (h : run step s es = some s') : Inv s' := by
  induction es generalizing s with
  | nil => exact Option.some.inj h ▸ hs
  | cons e es ih =>
    obtain ⟨s₁, h₁, h₂⟩ := Option.bind_eq_some_iff.mp h
    exact ih (hl.tail h₁) (hstep s e s₁ hs hl.1 h₁) h₂

/-- An invariant of the steps that succeed holds after every run that succeeds. -/
theorem run_some_invariant {step : S → E → Option S} {pre : E → Prop} (Inv : S → Prop)
    (hstep : ∀ s e s', Inv s → pre e → step s e = some s' → Inv s') (es : List E)
    (hes : ∀ e ∈ es, pre e) {s s' : S} (hs : Inv s) (h : run step s es = some s') : Inv s' :=
  legal_some_invariant Inv hstep es (Legal.of_forall hes s) hs h

/-- A run of a step function that never fails is legal when its two parts are. -/
theorem legal_append {step : S → E → S} {pre : S → E → Prop} {s : S} {xs ys : List E} :
    Legal (fun s e => some (step s e)) pre s (xs ++ ys) ↔
      Legal (fun s e => some (step s e)) pre s xs ∧
        Legal (fun s e => some (step s e)) pre (xs.foldl step s) ys := by
  induction xs generalizing s with
  | nil => exact (and_iff_right trivial).symm
  | cons e xs ih =>
    rw [List.cons_append, Legal, Legal, and_assoc]
    exact and_congr_right fun _ => ih

/-- A run that is not legal comes to a step that does not meet its precondition. -/
theorem exists_of_not_legal {step : S → E → S} {pre : S → E → Prop} {s : S} {es : List E}
    (h : ¬ Legal (fun s e => some (step s e)) pre s es) :
    ∃ xs e ys, es = xs ++ e :: ys ∧ ¬ pre (xs.foldl step s) e := by
  induction es generalizing s with
  | nil => exact absurd trivial h
  | cons e es ih =>
    by_cases he : pre s e
    · obtain ⟨xs, e', ys, rfl, hn⟩ := ih fun hl => h ⟨he, hl⟩
      exact ⟨e :: xs, e', ys, rfl, hn⟩
    · exact ⟨[], e, es, rfl, he⟩

/-- An invariant of a step function that never fails. -/
theorem foldl_invariant {step : S → E → S} {pre : S → E → Prop} (Inv : S → Prop)
    (hstep : ∀ s e, Inv s → pre s e → Inv (step s e)) (es : List E) {s : S} (hs : Inv s)
    (hl : Legal (fun s e => some (step s e)) pre s es) : Inv (es.foldl step s) := by
  induction es generalizing s with
  | nil => exact hs
  | cons e es ih => exact ih (hstep s e hs hl.1) (hl.tail rfl)

/-- If every legal step lowers a measure, a legal run is not longer than the measure at its
start. -/
theorem length_le_of_legal {step : S → E → S} {pre : S → E → Prop} (Inv : S → Prop)
    (rank : S → Nat)
    (hstep : ∀ s e, Inv s → pre s e → Inv (step s e) ∧ rank (step s e) < rank s)
    (es : List E) {s : S} (hs : Inv s) (hl : Legal (fun s e => some (step s e)) pre s es) :
    es.length ≤ rank s := by
  induction es generalizing s with
  | nil => exact Nat.zero_le _
  | cons e es ih =>
    obtain ⟨hinv, hlt⟩ := hstep s e hs hl.1
    have hle := ih hinv (hl.tail rfl)
    rw [List.length_cons]
    omega

end IMServer.Base
