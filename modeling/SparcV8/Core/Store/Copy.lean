import Mathlib.Logic.Basic

/-!
# Copies piece by piece

A copy has indices, each with a place to read and a place to write. It can be made in pieces, in any
order, if no place is written twice and none is read after it has been written.
-/

namespace SparcV8

variable {ι κ L V : Type}

/-- The memory `m` is the memory `m₀` after the copies with the indices `done`. -/
structure Copied (dst src : ι → L) (done : ι → Prop) (m₀ m : L → V) : Prop where
  copied : ∀ x, done x → m (dst x) = m₀ (src x)
  others : ∀ l, (∀ x, done x → dst x ≠ l) → m l = m₀ l

/-- No place is written twice, and none is both read and written. -/
structure CopySeparate (dst src : ι → L) (all : ι → Prop) : Prop where
  injective : ∀ x y, all x → all y → dst x = dst y → x = y
  apart : ∀ x y, all x → all y → src x ≠ dst y

namespace Copied

variable {dst src : ι → L} {done piece all : ι → Prop} {m₀ m m' : L → V}

theorem nothing (h : ∀ x, ¬ done x) (m : L → V) : Copied dst src done m m :=
  ⟨fun x hx => absurd hx (h x), fun _ _ => rfl⟩

theorem congr (h : Copied dst src done m₀ m) (hiff : ∀ x, done x ↔ piece x) :
    Copied dst src piece m₀ m :=
  ⟨fun x hx => h.copied x ((hiff x).2 hx), fun l hl => h.others l fun x hx => hl x ((hiff x).1 hx)⟩

/-- The indices of a piece as indices of the whole copy. -/
theorem image {f : κ → ι} {part : κ → Prop} (h : Copied (dst ∘ f) (src ∘ f) part m₀ m) :
    Copied dst src (fun x => ∃ k, part k ∧ f k = x) m₀ m := by
  refine ⟨?_, fun l hl => h.others l fun k hk => hl (f k) ⟨k, hk, rfl⟩⟩
  rintro x ⟨k, hk, rfl⟩
  exact h.copied k hk

/-- One piece after others. -/
theorem trans (h : Copied dst src done m₀ m) (hpiece : Copied dst src piece m m')
    (hsep : CopySeparate dst src all) (hdone : ∀ x, done x → all x) (hall : ∀ x, piece x → all x) :
    Copied dst src (fun x => done x ∨ piece x) m₀ m' := by
  constructor
  · intro x hx
    by_cases hp : piece x
    · rw [hpiece.copied x hp]
      exact h.others _ fun y hy => (hsep.apart x y (hall x hp) (hdone y hy)).symm
    · have hd : done x := hx.resolve_right hp
      rw [hpiece.others, h.copied x hd]
      intro y hy heq
      exact hp (hsep.injective y x (hall y hy) (hdone x hd) heq ▸ hy)
  · intro l hl
    rw [hpiece.others l fun x hx => hl x (.inr hx), h.others l fun x hx => hl x (.inl hx)]

end Copied

end SparcV8
