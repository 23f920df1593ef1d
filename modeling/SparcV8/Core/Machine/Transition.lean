import Mathlib.Logic.Basic

/-!
# Machines and their runs

A machine is given by what an event does to a state, if it can happen there. Where several parties
take steps, an event says who takes which, so that the runs are all the interleavings.
-/

namespace SparcV8

open Option

/-- What an event does to a state; `none` if it cannot happen there. -/
structure Machine (σ ε : Type) where
  step : σ → ε → Option σ

namespace Machine

variable {σ ε : Type} (M : Machine σ ε)

/-- The state after a sequence of events. -/
def run : List ε → σ → Option σ
  | [], s => some s
  | e :: es, s => (M.step s e).bind (run es)

/-- Some run from a state that satisfies `init` ends here. -/
def Reachable (init : σ → Prop) (s : σ) : Prop := ∃ s₀ es, init s₀ ∧ M.run es s₀ = some s

variable {M}
variable {es : List ε} {s : σ}
variable {s' : σ}

theorem run_cons_eq_some {e : ε} (h : M.run (e :: es) s = some s') :
    ∃ t, M.step s e = some t ∧ M.run es t = some s' :=
  bind_eq_some_iff.1 h

theorem run_append (es es' : List ε) (s : σ) :
    M.run (es ++ es') s = (M.run es s).bind (M.run es') := by
  induction es generalizing s with
  | nil => rfl
  | cons e es ih =>
    rw [List.cons_append, run, run, bind_assoc]
    exact congrArg _ (funext ih)

theorem run_append_of_eq_some {es' : List ε} {t : σ} (h : M.run es s = some t) :
    M.run (es ++ es') s = M.run es' t := by
  rw [run_append, h, bind_some]

variable (M) in
/-- Every step of a run is of this kind, in the state it is taken in. -/
def AllSteps (P : σ → ε → Prop) : List ε → σ → Prop
  | [], _ => True
  | e :: es, s => P s e ∧ ∀ s', M.step s e = some s' → AllSteps P es s'

instance decidableAllSteps {P : σ → ε → Prop} [∀ s e, Decidable (P s e)] :
    (es : List ε) → (s : σ) → Decidable (M.AllSteps P es s)
  | [], _ => .isTrue trivial
  | e :: es, s =>
    have := decidableAllSteps (P := P) es
    inferInstanceAs (Decidable (P s e ∧ ∀ s' ∈ M.step s e, M.AllSteps P es s'))

theorem allSteps_of_forall_mem {P : ε → Prop} (hes : ∀ e ∈ es, P e) (s : σ) :
    M.AllSteps (fun _ => P) es s := by
  induction es generalizing s with
  | nil => trivial
  | cons e es ih =>
    obtain ⟨he, hes⟩ := List.forall_mem_cons.1 hes
    exact ⟨he, fun s' _ => ih hes s'⟩

variable {I : σ → Prop}
variable {P : σ → ε → Prop}

/-- What every step of a kind keeps, every run of such steps keeps. -/
theorem invariant_allSteps (hstep : ∀ {s e s'}, I s → P s e → M.step s e = some s' → I s')
    (hes : M.AllSteps P es s) (hs : I s) (h : M.run es s = some s') : I s' := by
  induction es generalizing s with
  | nil =>
    cases h
    exact hs
  | cons e es ih =>
    obtain ⟨t, ht, hrest⟩ := run_cons_eq_some h
    exact ih (hes.2 t ht) (hstep hs hes.1 ht) hrest

/-- Steps of a kind that keep an invariant are of every kind that follows from it. -/
theorem AllSteps.imp_of_invariant {Q : σ → ε → Prop} (hes : M.AllSteps P es s)
    (hPQ : ∀ {s e}, I s → P s e → Q s e)
    (hstep : ∀ {s e s'}, I s → P s e → M.step s e = some s' → I s') (hs : I s) :
    M.AllSteps Q es s := by
  induction es generalizing s with
  | nil => trivial
  | cons e es ih => exact ⟨hPQ hs hes.1, fun t ht => ih (hes.2 t ht) (hstep hs hes.1 ht)⟩

/-- A run goes through exactly if every step is of the kind that can happen. -/
theorem isSome_run_iff (hP : ∀ {s e}, I s → ((M.step s e).isSome = true ↔ P s e))
    (hstep : ∀ {s e s'}, I s → M.step s e = some s' → I s') (es : List ε) (hs : I s) :
    (M.run es s).isSome = true ↔ M.AllSteps P es s := by
  induction es generalizing s with
  | nil => exact iff_of_true rfl trivial
  | cons e es ih =>
    rw [run, AllSteps, ← hP hs]
    cases ht : M.step s e with
    | none => simp
    | some t =>
      rw [bind_some, ih (hstep hs ht)]
      exact ⟨fun h => ⟨rfl, fun _ heq => some.inj heq ▸ h⟩, fun h => h.2 t rfl⟩

/-- What every step keeps, every run keeps. -/
theorem invariant_run (hstep : ∀ {s e s'}, I s → M.step s e = some s' → I s') (es : List ε)
    (hs : I s) (h : M.run es s = some s') : I s' :=
  invariant_allSteps (fun hs _ h => hstep hs h)
    (allSteps_of_forall_mem (P := fun _ => True) (fun _ _ => trivial) s) hs h

/-- A reachable state satisfies whatever holds at the start and every step keeps. -/
theorem Reachable.invariant {init : σ → Prop} (h : M.Reachable init s) (hinit : ∀ s, init s → I s)
    (hstep : ∀ {s e s'}, I s → M.step s e = some s' → I s') : I s := by
  obtain ⟨s₀, es, hs₀, hrun⟩ := h
  exact invariant_run hstep es (hinit s₀ hs₀) hrun

end Machine

end SparcV8
