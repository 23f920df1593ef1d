import Mathlib.Logic.Basic

/-!
# Progress of a deterministic system

A system takes one step after the other, unless it stops. What a state leads to holds after some
number of steps; it is proved step by step, or by a measure that falls.
-/

namespace SparcV8

namespace Progress

variable {σ : Type} (next : σ → Option σ)

/-- The state after `k` steps. -/
def iterate : Nat → σ → Option σ
  | 0, s => some s
  | k + 1, s => (next s).bind (iterate k)

/-- After some number of steps, `Q` holds. -/
def Leads (Q : σ → Prop) (s : σ) : Prop := ∃ k s', iterate next k s = some s' ∧ Q s'

variable {next} {Q R : σ → Prop} {s s' : σ}

theorem iterate_add (k k' : Nat) (s : σ) :
    iterate next (k + k') s = (iterate next k s).bind (iterate next k') := by
  induction k generalizing s with
  | zero => rw [Nat.zero_add, iterate, Option.bind_some]
  | succ k ih =>
    rw [Nat.succ_add, iterate, iterate, Option.bind_assoc]
    exact congrArg _ (funext ih)

theorem Leads.now (h : Q s) : Leads next Q s := ⟨0, s, rfl, h⟩

theorem Leads.bind (h : Leads next Q s) (hQ : ∀ s', Q s' → Leads next R s') : Leads next R s := by
  obtain ⟨k, s', hs', hq⟩ := h
  obtain ⟨k', s'', hs'', hr⟩ := hQ s' hq
  refine ⟨k + k', s'', ?_, hr⟩
  rw [iterate_add, hs']
  exact hs''

theorem Leads.step (hstep : next s = some s') (h : Leads next Q s') : Leads next Q s := by
  obtain ⟨k, s'', hs'', hq⟩ := h
  refine ⟨k + 1, s'', ?_, hq⟩
  rw [iterate, hstep]
  exact hs''

/-- What is reached as long as a measure falls that cannot fall for ever. -/
theorem Leads.of_measure {I : σ → Prop} (measure : σ → Nat)
    (h : ∀ s, I s → Leads next (fun s' => Q s' ∨ I s' ∧ measure s' < measure s) s) (hs : I s) :
    Leads next Q s := by
  induction hm : measure s using Nat.strongRecOn generalizing s with
  | ind m ih =>
    refine (h s hs).bind fun s' hs' => ?_
    rcases hs' with hq | ⟨hI, hlt⟩
    · exact .now hq
    · exact ih (measure s') (hm ▸ hlt) hI rfl

end Progress

end SparcV8
