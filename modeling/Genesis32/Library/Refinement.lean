import Mathlib.Data.List.Basic

/-!
# Refinement of objects

An object answers calls and changes its state; a call may have no result. A contract says in terms
of an abstract state when a call is allowed and what may come of it. An object refines a contract if
every allowed call has a result that the contract permits. Over a list of calls that is allowed
whatever comes of its calls, the object then has results that the contract permits one after the
other. A client chooses its calls by the results before them; what the contract gives it, the object
gives it too.
-/

/-- An object with states `σ`, calls `κ` and results `ρ`. -/
abbrev Object (σ κ ρ : Type*) := κ → σ → Option (ρ × σ)

/-- A contract for calls `κ` with results `ρ`, over abstract states `τ`. -/
structure Contract (τ κ ρ : Type*) where
  pre : κ → τ → Prop
  post : κ → τ → ρ → τ → Prop

variable {σ τ κ ρ : Type*}

/-- The calls of a list, one after the other. -/
def Object.runCalls (o : Object σ κ ρ) : List κ → σ → Option (List ρ × σ)
  | [], s => some ([], s)
  | call :: calls, s =>
      (o call s).bind fun (result, s) =>
        (Object.runCalls o calls s).map fun (results, s) => (result :: results, s)

theorem Object.run_calls_cons {o : Object σ κ ρ} {call : κ} {calls : List κ} {s s₁ s' : σ}
    {result : ρ} {results : List ρ} (hcall : o call s = some (result, s₁))
    (hcalls : Object.runCalls o calls s₁ = some (results, s')) :
    Object.runCalls o (call :: calls) s = some (result :: results, s') := by
  rw [Object.runCalls, hcall, Option.bind_some]
  simp only [hcalls, Option.map_some]

/-- `o` gives every allowed call a result that `spec` permits. -/
def Object.Refines (o : Object σ κ ρ) (spec : Contract τ κ ρ) (R : σ → τ → Prop) : Prop :=
  ∀ {call s t}, R s t → spec.pre call t →
    ∃ result s' t', o call s = some (result, s') ∧ spec.post call t result t' ∧ R s' t'

namespace Contract

variable {o : Object σ κ ρ} {spec : Contract τ κ ρ} {R : σ → τ → Prop} {call : κ}
  {calls calls' : List κ} {s s' : σ} {t t' u : τ} {results results' : List ρ}

/-- Every call of a list is allowed, whatever comes of those before it. -/
def Allows (spec : Contract τ κ ρ) : List κ → τ → Prop
  | [], _ => True
  | call :: calls, t =>
      spec.pre call t ∧ ∀ result t', spec.post call t result t' → Allows spec calls t'

/-- What may come of a list of calls. -/
inductive Outcome (spec : Contract τ κ ρ) : List κ → τ → List ρ → τ → Prop where
  | nil {t : τ} : Outcome spec [] t [] t
  | cons {call : κ} {calls : List κ} {t t₁ t' : τ} {result : ρ} {results : List ρ} :
      spec.post call t result t₁ → Outcome spec calls t₁ results t' →
      Outcome spec (call :: calls) t (result :: results) t'

/-- A list of calls is allowed if its first part is and the rest is behind every outcome of it. -/
theorem allows_append (h : spec.Allows calls t)
    (h' : ∀ results t', spec.Outcome calls t results t' → spec.Allows calls' t') :
    spec.Allows (calls ++ calls') t := by
  induction calls generalizing t with
  | nil => exact h' [] t .nil
  | cons call calls ih =>
      exact ⟨h.1, fun result t₁ hpost => ih (h.2 result t₁ hpost)
        fun results t' hout => h' (result :: results) t' (.cons hpost hout)⟩

/-- The outcome of two lists of calls is one of the first and one of the second behind it. -/
theorem outcome_append (h : spec.Outcome (calls ++ calls') t results t') :
    ∃ first u rest, spec.Outcome calls t first u ∧ spec.Outcome calls' u rest t' ∧
      results = first ++ rest := by
  induction calls generalizing t results with
  | nil => exact ⟨[], t, results, .nil, h, rfl⟩
  | cons call calls ih =>
      cases h with
      | cons hpost hout =>
          obtain ⟨first, u, rest, hfirst, hrest, rfl⟩ := ih hout
          exact ⟨_ :: first, u, rest, .cons hpost hfirst, hrest, rfl⟩

/-- A refinement of every call is one of every list of calls. -/
theorem run_calls (h : o.Refines spec R) (hR : R s t) (hallows : spec.Allows calls t) :
    ∃ results s' t', o.runCalls calls s = some (results, s') ∧
      spec.Outcome calls t results t' ∧ R s' t' := by
  induction calls generalizing s t with
  | nil => exact ⟨[], s, t, rfl, .nil, hR⟩
  | cons call calls ih =>
      obtain ⟨result, s₁, t₁, hcall, hpost, hR₁⟩ := h hR hallows.1
      obtain ⟨results, s', t', hcalls, hout, hR'⟩ := ih hR₁ (hallows.2 result t₁ hpost)
      exact ⟨result :: results, s', t', Object.run_calls_cons hcall hcalls, .cons hpost hout, hR'⟩

end Contract

/-! ## Clients -/

/-- A client that ends with an `α`: it makes a call and goes on by what comes of it. -/
inductive Client (κ ρ α : Type*) where
  | done (a : α)
  | call (c : κ) (next : ρ → Client κ ρ α)

/-- A client with an object. -/
def Client.run {α : Type*} (o : Object σ κ ρ) : Client κ ρ α → σ → Option (α × σ)
  | .done a, s => some (a, s)
  | .call c next, s => (o c s).bind fun (result, s) => Client.run o (next result) s

namespace Contract

variable {α : Type*} {o : Object σ κ ρ} {spec : Contract τ κ ρ} {R : σ → τ → Prop}

/-- The weakest precondition of a client: every call is allowed, and `Q` is at the end, whatever
comes of the calls. -/
def wp (spec : Contract τ κ ρ) (Q : α → τ → Prop) : Client κ ρ α → τ → Prop
  | .done a, t => Q a t
  | .call c next, t => spec.pre c t ∧ ∀ result t', spec.post c t result t' →
      wp spec Q (next result) t'

/-- What a contract gives a client, an object that refines it gives the client. -/
theorem run_client (h : o.Refines spec R) (Q : α → τ → Prop) :
    ∀ (client : Client κ ρ α) {s t}, R s t → spec.wp Q client t →
      ∃ a s' t', client.run o s = some (a, s') ∧ Q a t' ∧ R s' t' := by
  intro client
  induction client with
  | done a => exact fun hR hQ => ⟨a, _, _, rfl, hQ, hR⟩
  | call c next ih =>
      intro s t hR hwp
      obtain ⟨result, s₁, t₁, hcall, hpost, hR₁⟩ := h hR hwp.1
      obtain ⟨a, s', t', hrun, hQ, hR'⟩ := ih result hR₁ (hwp.2 result t₁ hpost)
      refine ⟨a, s', t', ?_, hQ, hR'⟩
      rw [Client.run, hcall, Option.bind_some]
      exact hrun

end Contract
