import SparcV8.Mmu.Simulation

/-!
# Plain memories below an MMU

An MMU over a plain memory does, access by access, what it does over the abstract word memory: same
responses, same registers and TLB, and contents that correspond.
-/

namespace SparcV8

namespace PlainMemory

variable {τ : Type} {phys : PhysicalMemory τ} (p : PlainMemory phys)

/-- The abstract memory of a plain memory. -/
abbrev abstract : PhysicalMemory Words := Words.ram p.dom

/-- Abstract the memory below an MMU. -/
def lift₂ {α β : Type} (x : α × β × τ) : α × β × Words := (x.1, x.2.1, p.contents x.2.2)

/-- A memory and its contents give the same responses, and stay memory and contents. -/
theorem simulates : Simulates phys p.abstract (fun m c => p.contents m = c) fun _ => True where
  aligned _ := trivial
  read := by
    rintro q m _ - rfl
    exact ⟨p.response_eq q m, p.contents_eq q m⟩
  write := by
    rintro q m _ - rfl
    exact ⟨p.response_eq q m, p.contents_eq q m⟩

theorem eq_lift₂ {α β : Type} {x : α × β × τ} {y : α × β × Words}
    (h : Related₂ (fun m c => p.contents m = c) x y) : y = p.lift₂ x := by
  obtain ⟨a, b, m, _, rfl, rfl, rfl⟩ := h.exists
  rfl

/-- A translation over a plain memory is that over its contents. -/
theorem lift_translate (u : MmuCore) (va asi : Word) (isFetch isWrite isAtomic : Bool) (m : τ) :
    u.translate p.abstract va asi isFetch isWrite isAtomic (p.contents m) =
      p.lift₂ (u.translate phys va asi isFetch isWrite isAtomic m) :=
  p.eq_lift₂ (p.simulates.translate u va asi isFetch isWrite isAtomic rfl)

/-- One access over a plain memory is the access over its abstract contents. -/
theorem lift_mmuAccess (request : VirtualMemoryRequest) (u : MmuCore) (m : τ) :
    MmuCore.access p.abstract request (u, p.contents m) =
      p.lift₂ (MmuCore.access phys request (u, m)) :=
  p.eq_lift₂ (p.simulates.access u (fun _ _ _ => trivial) rfl)

end PlainMemory

end SparcV8
