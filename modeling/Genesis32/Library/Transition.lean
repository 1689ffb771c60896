import Mathlib.Data.List.Basic

/-!
# Runs of a labelled transition system

A transition system is a relation `step s e s'` between a state, a label and a next state. A run is
a finite chain of transitions together with the list of the transitions it took, so that a
statement can speak about every step of a run and not only about its last state. An invariant that
every step preserves holds at both ends of every step of a run.
-/

/-- One transition of a run: the state before, the label, the state after. -/
structure Transition (σ ε : Type*) where
  before : σ
  event : ε
  after : σ

/-- `Run step s trace s'`: the transitions of `trace`, in order, lead from `s` to `s'`. -/
inductive Run {σ ε : Type*} (step : σ → ε → σ → Prop) (s : σ) :
    List (Transition σ ε) → σ → Prop where
  | nil : Run step s [] s
  | snoc {trace : List (Transition σ ε)} {t u : σ} {e : ε} :
      Run step s trace t → step t e u → Run step s (trace ++ [⟨t, e, u⟩]) u

/-- The transitions of a list of labels, where a state and a label determine the next state. -/
def transitions {σ ε : Type*} (next : σ → ε → σ) : σ → List ε → List (Transition σ ε)
  | _, [] => []
  | s, e :: es => ⟨s, e, next s e⟩ :: transitions next (next s e) es

theorem mem_transitions {σ ε : Type*} {next : σ → ε → σ} : ∀ {es : List ε} {s : σ},
    ∀ x ∈ transitions next s es, x.event ∈ es ∧ x.after = next x.before x.event := by
  intro es
  induction es with
  | nil => exact fun x hx => absurd hx List.not_mem_nil
  | cons e es ih =>
      intro s x hx
      rcases List.mem_cons.mp hx with rfl | hx
      · exact ⟨List.mem_cons_self, rfl⟩
      · obtain ⟨hevent, hafter⟩ := ih x hx
        exact ⟨List.mem_cons_of_mem e hevent, hafter⟩

namespace Run

variable {σ ε : Type*} {step : σ → ε → σ → Prop} {s t : σ} {trace : List (Transition σ ε)}

/-- An invariant that every step preserves holds at the end of every run. -/
theorem invariant {inv : σ → Prop} (hstep : ∀ s e s', inv s → step s e s' → inv s')
    (h : Run step s trace t) (hs : inv s) : inv t := by
  induction h with
  | nil => exact hs
  | snoc _ hlast ih => exact hstep _ _ _ ih hlast

/-- Every transition of a run is a step from a state in which the invariant holds. -/
theorem of_mem {inv : σ → Prop} (hstep : ∀ s e s', inv s → step s e s' → inv s')
    (h : Run step s trace t) (hs : inv s) :
    ∀ x ∈ trace, inv x.before ∧ step x.before x.event x.after := by
  induction h with
  | nil => simp
  | snoc hrun hlast ih =>
      intro x hx
      rcases List.mem_append.mp hx with hx | hx
      · exact ih x hx
      · obtain rfl := List.mem_singleton.mp hx
        exact ⟨hrun.invariant hstep hs, hlast⟩

/-- A run whose transitions all satisfy a condition is a run of the steps that satisfy it. -/
theorem guarded {cond : σ → ε → Prop} (h : Run step s trace t)
    (hcond : ∀ x ∈ trace, cond x.before x.event) :
    Run (fun s e s' => step s e s' ∧ cond s e) s trace t := by
  induction h with
  | nil => exact .nil
  | snoc _ hlast ih =>
      refine .snoc (ih fun x hx => hcond x (List.mem_append_left _ hx)) ⟨hlast, ?_⟩
      exact hcond _ (List.mem_append_right _ (List.mem_singleton.mpr rfl))

/-- Where an invariant makes two conditions on a step the same and the second keeps the invariant,
every step of a run meets the first exactly when every step meets the second. -/
theorem forall_iff {inv : σ → Prop} {p q : Transition σ ε → Prop}
    (hstep : ∀ x : Transition σ ε, inv x.before → step x.before x.event x.after →
      (p x ↔ q x) ∧ (q x → inv x.after))
    (h : Run step s trace t) (hs : inv s) :
    ((∀ x ∈ trace, p x) ↔ ∀ x ∈ trace, q x) ∧ ((∀ x ∈ trace, q x) → inv t) := by
  induction h with
  | nil => exact ⟨by simp, fun _ => hs⟩
  | snoc _ hlast ih =>
      obtain ⟨hiff, hinv⟩ := ih
      simp only [List.forall_mem_append, List.forall_mem_singleton]
      refine ⟨⟨fun hp => ?_, fun hq => ?_⟩, fun hq => ?_⟩
      · have hq := hiff.mp hp.1
        exact ⟨hq, (hstep _ (hinv hq) hlast).1.mp hp.2⟩
      · exact ⟨hiff.mpr hq.1, (hstep _ (hinv hq.1) hlast).1.mpr hq.2⟩
      · exact (hstep _ (hinv hq.1) hlast).2 hq.2

/-- A run that goes on with labels that determine the next state. -/
theorem append_transitions {next : σ → ε → σ} : ∀ {es : List ε} {trace : List (Transition σ ε)}
    {t : σ}, Run step s trace t →
      (∀ x ∈ transitions next t es, step x.before x.event x.after) →
      Run step s (trace ++ transitions next t es) (es.foldl next t) := by
  intro es
  induction es with
  | nil =>
      intro trace t h _
      rwa [transitions, List.append_nil]
  | cons e es ih =>
      intro trace t h hsteps
      rw [transitions, List.forall_mem_cons] at hsteps
      have hrest := ih (.snoc h hsteps.1) hsteps.2
      rwa [List.append_assoc, List.singleton_append] at hrest

/-- The run of a list of labels. -/
theorem of_transitions {next : σ → ε → σ} {es : List ε}
    (h : ∀ x ∈ transitions next s es, step x.before x.event x.after) :
    Run step s (transitions next s es) (es.foldl next s) :=
  append_transitions .nil h

end Run
