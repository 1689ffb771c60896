import Mathlib.Data.List.Basic

/-!
# Programs that talk to a device

A port program is a tree of inputs and outputs. It can be run against a device, a state machine that
answers inputs and takes outputs, and it can be replayed on a sequence of answers. A run against a
device is a replay of the answers that the device gave, so what holds of every replay holds of every
device. A program that uses the ports of one part of a device runs on that part alone.
-/

/-- A program that reads inputs `I`, which are answered by values `V`, writes outputs `O`, and
returns an `α`. -/
inductive PortProgram (I O V : Type*) (α : Type*) where
  | ret (a : α)
  | input (i : I) (next : V → PortProgram I O V α)
  | output (o : O) (next : PortProgram I O V α)

/-- A device: its answer to an input with the state after it, and the state after an output. -/
structure Device (σ I O V : Type*) where
  answer : σ → I → V × σ
  take : σ → O → σ

namespace PortProgram

section

variable {I O V α β : Type*}

/-- One program, and then another one that depends on its result. -/
def andThen : PortProgram I O V α → (α → PortProgram I O V β) → PortProgram I O V β
  | ret a, f => f a
  | input i next, f => input i fun v => andThen (next v) f
  | output o next, f => output o (andThen next f)

/-- The outputs of a list, in order, and then a program. -/
def outputs (os : List O) (p : PortProgram I O V α) : PortProgram I O V α := os.foldr output p

/-! ## Runs against a device -/

variable {σ τ : Type*} (D : Device σ I O V)

/-- The result of a program on a device, and the state of the device after it. -/
def run : PortProgram I O V α → σ → α × σ
  | ret a, s => (a, s)
  | input i next, s => run (next (D.answer s i).1) (D.answer s i).2
  | output o next, s => run next (D.take s o)

@[simp] theorem run_ret (a : α) (s : σ) : run D (ret a : PortProgram I O V α) s = (a, s) := rfl

@[simp] theorem run_input (i : I) (next : V → PortProgram I O V α) (s : σ) :
    run D (input i next) s = run D (next (D.answer s i).1) (D.answer s i).2 := rfl

@[simp] theorem run_output (o : O) (next : PortProgram I O V α) (s : σ) :
    run D (output o next) s = run D next (D.take s o) := rfl

theorem run_and_then (p : PortProgram I O V α) (f : α → PortProgram I O V β) (s : σ) :
    run D (p.andThen f) s = run D (f (run D p s).1) (run D p s).2 := by
  induction p generalizing s with
  | ret a => rfl
  | input i next ih => exact ih _ _
  | output o next ih => exact ih _

theorem run_outputs (os : List O) (p : PortProgram I O V α) (s : σ) :
    run D (outputs os p) s = run D p (os.foldl D.take s) := by
  induction os generalizing s with
  | nil => rfl
  | cons o os ih => exact ih _

/-! ## Replays of answers -/

/-- The result of a program whose `n`-th input is answered by `values n`, when its first input is
the one with index `n`, with the index behind the last one and the outputs in order. -/
def replay (values : Nat → V) : PortProgram I O V α → Nat → α × Nat × List O
  | ret a, n => (a, n, [])
  | input _ next, n => replay values (next (values n)) (n + 1)
  | output o next, n =>
      match replay values next n with
      | (a, n, os) => (a, n, o :: os)

theorem replay_and_then (values : Nat → V) (p : PortProgram I O V α)
    (f : α → PortProgram I O V β) (n : Nat) :
    replay values (p.andThen f) n =
      match replay values p n with
      | (a, n, os) =>
          match replay values (f a) n with
          | (b, n, os') => (b, n, os ++ os') := by
  induction p generalizing n with
  | ret a => rfl
  | input i next ih => exact ih _ _
  | output o next ih =>
      rw [andThen, replay, ih, replay]
      rfl

theorem replay_outputs (values : Nat → V) (os : List O) (p : PortProgram I O V α) (n : Nat) :
    replay values (outputs os p) n =
      match replay values p n with
      | (a, n, os') => (a, n, os ++ os') := by
  induction os with
  | nil => rfl
  | cons o os ih =>
      rw [show outputs (o :: os) p = output o (outputs os p) from rfl, replay, ih]
      rfl

/-- The answers that a device gives in a run. -/
def answers : PortProgram I O V α → σ → List V
  | ret _, _ => []
  | input i next, s => (D.answer s i).1 :: answers (next (D.answer s i).1) (D.answer s i).2
  | output o next, s => answers next (D.take s o)

/-- The outputs that a device takes in a run. -/
def sent : PortProgram I O V α → σ → List O
  | ret _, _ => []
  | input i next, s => sent (next (D.answer s i).1) (D.answer s i).2
  | output o next, s => o :: sent next (D.take s o)

theorem replay_answers {values : Nat → V} (p : PortProgram I O V α) (s : σ) (n : Nat)
    (h : ∀ i v, (answers D p s)[i]? = some v → values (n + i) = v) :
    (replay values p n).1 = (run D p s).1 ∧ (replay values p n).2.2 = sent D p s := by
  induction p generalizing s n with
  | ret a => exact ⟨rfl, rfl⟩
  | input i next ih =>
      have hfirst : values n = (D.answer s i).1 := h 0 _ rfl
      rw [replay, run, sent, hfirst]
      refine ih _ _ _ fun j v hj => ?_
      rw [Nat.add_assoc, Nat.add_comm 1 j]
      exact h (j + 1) v hj
  | output o next ih =>
      obtain ⟨hresult, hsent⟩ := ih _ _ h
      exact ⟨hresult, congrArg (o :: ·) hsent⟩

/-- Every run against a device is a replay. -/
theorem exists_replay [Inhabited V] (p : PortProgram I O V α) (s : σ) :
    ∃ values : Nat → V, (replay values p 0).1 = (run D p s).1 ∧
      (replay values p 0).2.2 = sent D p s := by
  refine ⟨fun i => (answers D p s)[i]?.getD default, replay_answers D p s 0 fun i v hi => ?_⟩
  rw [Nat.zero_add, hi, Option.getD_some]

/-! ## Parts of a device -/

/-- All inputs and outputs of a program, whatever is answered, are among the given ones. -/
def Uses (inputs : I → Prop) (outs : O → Prop) : PortProgram I O V α → Prop
  | ret _ => True
  | input i next => inputs i ∧ ∀ v, Uses inputs outs (next v)
  | output o next => outs o ∧ Uses inputs outs next

variable {inputs : I → Prop} {outs : O → Prop}

theorem Uses.and_then {p : PortProgram I O V α} {f : α → PortProgram I O V β}
    (hp : p.Uses inputs outs) (hf : ∀ a, (f a).Uses inputs outs) :
    (p.andThen f).Uses inputs outs := by
  induction p with
  | ret a => exact hf a
  | input i next ih => exact ⟨hp.1, fun v => ih v (hp.2 v)⟩
  | output o next ih => exact ⟨hp.1, ih hp.2⟩

theorem Uses.outputs {os : List O} {p : PortProgram I O V α} (hos : ∀ o ∈ os, outs o)
    (hp : p.Uses inputs outs) : (PortProgram.outputs os p).Uses inputs outs := by
  induction os with
  | nil => exact hp
  | cons o os ih =>
      exact ⟨hos o List.mem_cons_self, ih fun o' ho' => hos o' (List.mem_cons_of_mem o ho')⟩

variable {D}

/-- A device `E` is the part of `D` behind the given inputs and outputs. -/
structure Part (D : Device σ I O V) (E : Device τ I O V) (get : σ → τ) (set : σ → τ → σ)
    (inputs : I → Prop) (outs : O → Prop) : Prop where
  answer : ∀ s i, inputs i →
    D.answer s i = ((E.answer (get s) i).1, set s (E.answer (get s) i).2)
  take : ∀ s o, outs o → D.take s o = set s (E.take (get s) o)
  get_set : ∀ s t, get (set s t) = t
  set_set : ∀ s t u, set (set s t) u = set s u
  set_get : ∀ s, set s (get s) = s

/-- A program that uses the ports of a part runs on the part, and nothing else changes. -/
theorem Part.run_eq {E : Device τ I O V} {get : σ → τ} {set : σ → τ → σ}
    (h : Part D E get set inputs outs) {p : PortProgram I O V α} (hp : p.Uses inputs outs)
    (s : σ) : run D p s = ((run E p (get s)).1, set s (run E p (get s)).2) := by
  induction p generalizing s with
  | ret a => rw [run_ret, run_ret, h.set_get]
  | input i next ih =>
      rw [run_input, run_input, h.answer s i hp.1]
      simp only
      rw [ih _ (hp.2 _), h.get_set, h.set_set]
  | output o next ih =>
      rw [run_output, run_output, h.take s o hp.1, ih hp.2, h.get_set, h.set_set]

end

end PortProgram
