import SparcV8.Mmu.Access
import SparcV8.Correctness.Transparency

/-!
# A refused access has no effect

An access that the page tables refuse is recorded in the fault registers, and leaves everything
else. No translation looks at the fault registers, so nothing translated later can tell.
-/

namespace SparcV8

open MmuCore SystemBus

namespace MmuCore

/-! ## MMUs that differ in the fault registers -/

section State

variable {τ : Type} (phys : PhysicalMemory τ)

/-- A state without what the MMU has recorded about faults. -/
def dropFault (x : MmuCore × τ) : MmuCore × τ := (x.1.withoutFault, x.2)

variable (u : MmuCore)

theorem commitTranslation_withoutFault (va context : Word) (r : WalkResult) (hit : Bool) :
    (u.withoutFault.commitTranslation va context r hit).1 =
      (u.commitTranslation va context r hit).1.withoutFault := by
  unfold commitTranslation
  rw [show u.withoutFault.tlbEnabled = u.tlbEnabled from rfl]
  split <;> rfl

theorem updateRM_withoutFault (va : Word) (r : WalkResult) (isWrite : Bool) (m : τ) :
    u.withoutFault.updateRM phys va r isWrite m = dropFault (u.updateRM phys va r isWrite m) := by
  unfold updateRM commitRMTlbUpdate
  rw [show u.withoutFault.tlbEnabled = u.tlbEnabled from rfl,
    show u.withoutFault.atomicRMUpdates = u.atomicRMUpdates from rfl]
  cases computeAndStageRMUpdate r.pte isWrite with
  | none => rfl
  | some staged => cases u.atomicRMUpdates <;> cases u.tlbEnabled <;> rfl

/-- A translation does not look at the fault registers. -/
theorem translate_withoutFault (va asi : Word) (isFetch isWrite isAtomic : Bool) (m : τ) :
    (u.withoutFault.translate phys va asi isFetch isWrite isAtomic m).1 =
        (u.translate phys va asi isFetch isWrite isAtomic m).1 ∧
      dropFault (u.withoutFault.translate phys va asi isFetch isWrite isAtomic m).2 =
        dropFault (u.translate phys va asi isFetch isWrite isAtomic m).2 := by
  cases ht : u.translates with
  | false =>
    have hoff (v : MmuCore) (hv : v.translates = false) :
        v.translate phys va asi isFetch isWrite isAtomic m = (some _, v, m) :=
      if_pos (by rw [not_translates, hv]; rfl)
    rw [hoff u ht, hoff u.withoutFault ht]
    exact ⟨rfl, rfl⟩
  | true =>
    rw [translate_eq u phys ht, translate_eq u.withoutFault phys ht,
      show u.withoutFault.findEntry phys va m = u.findEntry phys va m from rfl]
    dsimp only
    split
    · refine ⟨rfl, ?_⟩
      rw [show u.withoutFault.contextRegister = u.contextRegister from rfl,
        commitTranslation_withoutFault, updateRM_withoutFault]
      rfl
    · refine ⟨rfl, ?_⟩
      dsimp only [dropFault]
      rw [withoutFault_recordFault, withoutFault_recordFault]
      rfl

/-- Translations side by side give the same, and leave MMUs that differ in the fault registers only.
-/
theorem exists_translate_withoutFault (va asi : Word) (isFetch isWrite isAtomic : Bool) (m : τ) :
    ∃ o v v' n,
      u.withoutFault.translate phys va asi isFetch isWrite isAtomic m = (o, v', n) ∧
        u.translate phys va asi isFetch isWrite isAtomic m = (o, v, n) ∧
        v'.withoutFault = v.withoutFault := by
  obtain ⟨ho, hx⟩ := translate_withoutFault phys u va asi isFetch isWrite isAtomic m
  generalize u.withoutFault.translate phys va asi isFetch isWrite isAtomic m = y at ho hx ⊢
  generalize u.translate phys va asi isFetch isWrite isAtomic m = x at ho hx ⊢
  obtain ⟨hv, hn⟩ := Prod.mk.inj hx
  exact ⟨x.1, x.2.1, y.2.1, x.2.2, Prod.ext ho (Prod.ext rfl hn), rfl, hv⟩

/-- So do the accesses after them. -/
theorem complete_withoutFault {v v' : MmuCore} (h : v'.withoutFault = v.withoutFault)
    (r : VirtualMemoryRequest) (t : Translation) (m : τ) :
    dropFault (v'.complete phys r t m).2 = dropFault (v.complete phys r t m).2 := by
  have hlast (n : τ) : dropFault ({ v' with lastPhysicalAddress := t.physicalAddr }, n) =
      dropFault ({ v with lastPhysicalAddress := t.physicalAddr }, n) :=
    congrArg (fun w : MmuCore => ({ w with lastPhysicalAddress := t.physicalAddr }, n)) h
  unfold complete
  cases r.accessType with
  | STORE => exact hlast _
  | ATOMIC_LS => exact hlast _
  | READ_LINE =>
    have hlayout : v'.withoutFault.layout = v.withoutFault.layout := by rw [h]
    have hline : v'.readLineAt phys t r.byteMask m = v.readLineAt phys t r.byteMask m := by
      unfold readLineAt isCacheableTarget
      rw [show v'.layout = v.layout from hlayout]
    dsimp only
    rw [hline]
    exact congrArg (fun w => (w, _)) h
  | _ => exact congrArg (fun w => (w, _)) h

/-- The effect of an access on the rest does not depend on the fault registers. -/
theorem access_withoutFault (r : VirtualMemoryRequest) (u : MmuCore) (m : τ) :
    dropFault (access phys r (u.withoutFault, m)).2 = dropFault (access phys r (u, m)).2 := by
  rw [access_eq, access_eq, show u.withoutFault.route r = u.route r from rfl]
  cases u.route r with
  | readRegister =>
    unfold follow readRegister
    dsimp only
    split <;> rfl
  | writeRegister =>
    unfold follow writeRegister
    dsimp only
    rw [show u.withoutFault.tlbEnabled = u.tlbEnabled from rfl]
    split
    · rfl
    · cases u.tlbEnabled <;> rfl
    · rfl
    · rfl
  | flush =>
    unfold follow flush
    rw [show u.withoutFault.tlbEnabled = u.tlbEnabled from rfl]
    cases u.tlbEnabled <;> rfl
  | physical =>
    have hsame : u.withoutFault.withoutFault = u.withoutFault := rfl
    exact congrArg (fun y => (u.withoutFault, y.2))
      (complete_withoutFault phys (v := u) hsame r (u.passedTo r) m)
  | translated =>
    obtain ⟨o, v, v', n, hy, hx, hv⟩ := exists_translate_withoutFault phys u r.address r.asi
      r.isFetch r.isWrite r.isAtomic m
    rw [follow, follow, translateRequest, translateRequest, hy, hx]
    cases o with
    | none => exact congrArg (fun w => (w, n)) hv
    | some t => exact complete_withoutFault phys hv r t n
  | _ => rfl

/-- Nor does what a run does. -/
theorem accessAll_withoutFault (rs : List VirtualMemoryRequest) {x y : MmuCore × τ}
    (h : dropFault x = dropFault y) :
    dropFault (accessAll phys rs x).2 = dropFault (accessAll phys rs y).2 := by
  induction rs generalizing x y with
  | nil => exact h
  | cons r rs ih =>
    have hstep : dropFault (access phys r x).2 = dropFault (access phys r y).2 := by
      obtain ⟨hu, hm⟩ := Prod.mk.inj h
      rw [← access_withoutFault phys r x.1 x.2, ← access_withoutFault phys r y.1 y.2, hu, hm]
    exact ih hstep

/-- MMUs that differ in the fault registers only. -/
theorem eq_of_withoutFault {u v : MmuCore} (h : v.withoutFault = u.withoutFault) :
    v = { u with faultStatusRegister := v.faultStatusRegister,
                 faultAddressRegister := v.faultAddressRegister, faultClass := v.faultClass } :=
  congrArg (fun w : MmuCore =>
    { w with faultStatusRegister := v.faultStatusRegister,
             faultAddressRegister := v.faultAddressRegister, faultClass := v.faultClass }) h

end State

/-- A translation from a state is that of its contents, without what was recorded. -/
theorem lift_translate_withoutFault {τ : Type} {phys : PhysicalMemory τ} (p : PlainMemory phys)
    (v : MmuCore × τ) (va asi : Word) (isFetch isWrite isAtomic : Bool) :
    (v.1.withoutFault.translate p.abstract va asi isFetch isWrite isAtomic
        (p.contents v.2)).1 =
      (v.1.translate phys va asi isFetch isWrite isAtomic v.2).1 ∧
    (v.1.withoutFault.translate p.abstract va asi isFetch isWrite isAtomic
        (p.contents v.2)).2.2 =
      p.contents (v.1.translate phys va asi isFetch isWrite isAtomic v.2).2.2 := by
  obtain ⟨hfst, hsnd⟩ := translate_withoutFault p.abstract v.1 va asi isFetch isWrite
    isAtomic (p.contents v.2)
  obtain ⟨-, hmem⟩ := Prod.mk.inj hsnd
  rw [p.lift_translate v.1] at hfst hmem
  exact ⟨hfst, hmem⟩

end MmuCore

/-- An access that records a fault leaves the memory and all of the MMU but the fault registers,
and no later translation, after whatever other accesses, gives another result for it. -/
theorem refused_access_has_no_effect {τ : Type} {phys : PhysicalMemory τ} (p : PlainMemory phys)
    (u : MmuCore) (m : τ) (r : VirtualMemoryRequest) (h : u.recordsFault phys r m = true) :
    let x := (access phys r (u, m)).2
    p.contents x.2 = p.contents m ∧
    x.1 = { u with faultStatusRegister := x.1.faultStatusRegister,
                   faultAddressRegister := x.1.faultAddressRegister,
                   faultClass := x.1.faultClass } ∧
    ∀ (rs : List VirtualMemoryRequest) (va asi : Word) (isFetch isWrite isAtomic : Bool),
      let y := (accessAll phys rs x).2
      let z := (accessAll phys rs (u, m)).2
      (y.1.translate phys va asi isFetch isWrite isAtomic y.2).1 =
          (z.1.translate phys va asi isFetch isWrite isAtomic z.2).1 ∧
        p.contents (y.1.translate phys va asi isFetch isWrite isAtomic y.2).2.2 =
          p.contents (z.1.translate phys va asi isFetch isWrite isAtomic z.2).2.2 := by
  intro x
  rw [recordsFault_eq p] at h
  have haccess : access p.abstract r (u, p.contents m) = _ :=
    access_of_faultsRequest h
  rw [p.lift_mmuAccess] at haccess
  have hmmu : x.1 = u.afterRefusal p.dom (p.contents m) r := congrArg (fun y => y.2.1) haccess
  have hmem : p.contents x.2 = p.contents m := congrArg (fun y => y.2.2) haccess
  have hfault : x.1.withoutFault = u.withoutFault := by
    rw [hmmu, withoutFault_afterRefusal]
  refine ⟨hmem, eq_of_withoutFault hfault, ?_⟩
  · intro rs va asi isFetch isWrite isAtomic y z
    -- over the contents of the memory the two runs differ in the fault registers only
    have hrun := accessAll_withoutFault p.abstract rs
      (show dropFault (x.1, p.contents x.2) = dropFault (u, p.contents m) by
        rw [dropFault, dropFault, hfault, hmem])
    rw [lift_accessAll, lift_accessAll] at hrun
    obtain ⟨hu, hm⟩ := Prod.mk.inj hrun
    change y.1.withoutFault = z.1.withoutFault at hu
    change p.contents y.2 = p.contents z.2 at hm
    obtain ⟨hy, hy'⟩ := lift_translate_withoutFault p y va asi isFetch isWrite
      isAtomic
    obtain ⟨hz, hz'⟩ := lift_translate_withoutFault p z va asi isFetch isWrite
      isAtomic
    rw [← hy, ← hy', ← hz, ← hz', hu, hm]
    exact ⟨rfl, rfl⟩

/-- A load without page tables. -/
def unmappedLoad : VirtualMemoryRequest := wordAccess .LOAD 0x1000 asiSupervisorData 0

theorem refused_load_has_no_effect :
    let u := mmuOn
    let phys := physicalMemory {} noDevices
    u.recordsFault phys unmappedLoad zeroBus = true ∧
      (access phys unmappedLoad (u, zeroBus)).2.1.faultStatusRegister = 0x26 ∧
      plain.contents (access phys unmappedLoad (u, zeroBus)).2.2 =
        plain.contents zeroBus := by
  intro u phys
  have h : u.recordsFault phys unmappedLoad zeroBus = true := by decide
  exact ⟨h, by decide, (refused_access_has_no_effect plain u zeroBus unmappedLoad h).1⟩

end SparcV8
