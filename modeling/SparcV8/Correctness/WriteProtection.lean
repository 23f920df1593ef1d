import SparcV8.Mmu.Access
import SparcV8.Mmu.Reference

/-!
# Write protection

A store or an atomic that is translated through a page writes memory only if the page may be
written, as far as its address space is one of the four ordinary ones. For every other space the
code checks the right to load as a user; and an atomic is translated in every space.
-/

namespace SparcV8

open ReferenceMmu MmuCore SystemBus Access Pte VirtualMemoryRequest

/-- The privilege of an address space; those other than the user's two need privileged instructions.
-/
def privilegeOf (asi : Word) : Privilege :=
  if asi = asiUserInstruction ∨ asi = asiUserData then .user else .supervisor

/-- An access without a fault that writes has the right to. -/
theorem write_of_fault_eq_none {a : ReferenceMmu.Access} {entry : Word}
    (h : a.fault entry = .NONE) (hw : a.writes = true) :
    (rights (entry.toNat / 4 % 8) a.privilege).write = true := by
  have hallowed : a.allowed (entry.toNat / 4 % 8) = true := by
    unfold fault at h
    split at h
    · cases h
    · cases h
    · cases h
    · by_contra hnot
      rw [pageFault, if_neg hnot] at h
      split at h <;> cases h
  simp only [allowed, hw, Bool.not_true, Bool.false_or, Bool.and_eq_true] at hallowed
  exact hallowed.1.2

namespace MmuCore

/-- The memories differ at most in two bits of the entry. -/
def SameButRM (dom : Nat → Bool) (entry : WalkResult) (c c' : Words) : Prop :=
  ∀ i, c'.read dom i = c.read dom i ∨
    i = entry.phyAddrOfPte.toNat / 4 ∧
      c'.read dom i &&& ~~~0x60 = c.read dom i &&& ~~~0x60

/-- A translated request that changes memory, beyond referenced and modified bits, goes through an
entry that lets the privilege of its address space write. -/
def WriteProtected {τ : Type} {phys : PhysicalMemory τ} (p : PlainMemory phys) (u : MmuCore) (m : τ)
    (r : VirtualMemoryRequest) : Prop :=
  let entry := u.foundEntry p.dom (p.contents m) r.address
  u.translatesRequest r = true →
    ¬SameButRM p.dom entry (p.contents m) (p.contents (access phys r (u, m)).2.2) →
    (rights (acc entry.pte).toNat (privilegeOf r.asi)).write = true

variable (kind : MemAccessType)

/-- The requests that are protected, by their kind and address space. -/
def protectsWrites (asi : Word) : Prop :=
  ordinaryAsi asi ∨ kind = .STORE ∧ asiSpace asi ≠ .ordinary

section Ordinary

variable {dom : Nat → Bool} {u : MmuCore} {c : Words} {r : VirtualMemoryRequest}

/-- In the ordinary spaces an entry that does not refuse a write lets it write. -/
theorem write_of_not_faultsRequest (ht : u.translatesRequest r = true)
    (hasi : ordinaryAsi r.asi) (hw : r.isWrite = true) (h : u.faultsRequest dom c r = false) :
    (rights (acc (u.foundEntry dom c r.address).pte).toNat (privilegeOf r.asi)).write =
      true := by
  have hnone : (checkFault r.asi true r.isAtomic
      (u.foundEntry dom c r.address).pte).2 = .NONE := by
    rw [faultsRequest, ht, Bool.true_and, faults, translates_of_translatesRequest ht, Bool.true_and,
      hw] at h
    exact of_not_not fun hne => absurd (bne_iff_ne.2 hne) (by rw [h]; exact Bool.false_ne_true)
  rw [checkFault_eq hasi] at hnone
  have hacc : (acc (u.foundEntry dom c r.address).pte).toNat =
      (u.foundEntry dom c r.address).pte.toNat / 4 % 8 :=
    toNat_readBits _ (by decide)
  rw [hacc]
  exact write_of_fault_eq_none hnone rfl

end Ordinary

/-- Outside the ordinary spaces a store is checked as a load by the user. -/
theorem computeAccessType_of_not_ordinary {asi : Word} (h : ¬ordinaryAsi asi) (isWrite : Bool) :
    computeAccessType asi isWrite = .LOAD_USER_DATA := by
  simp only [ordinaryAsi, not_or] at h
  obtain ⟨hui, hsi, hud, hsd⟩ := h
  cases isWrite <;> simp [computeAccessType, hui, hsi, hud, hsd]

/-- One page for all addresses, to be read only, referenced and modified. -/
def readOnlyPage : MemCore × Unit := pageBus 0x62

/-- A write of 1 to the word at address 8. -/
def writeRequest (asi : Word) : VirtualMemoryRequest :=
  wordAccess kind 8 asi 1

theorem foundEntry_readOnlyPage :
    mmuOn.foundEntry plain.dom (plain.contents readOnlyPage) 8 =
      { pte := 0x62, level := 0, phyAddrOfPte := 0 } := rfl

theorem updatedMemory_readOnlyPage :
    mmuOn.updatedMemory plain.dom (plain.contents readOnlyPage)
        { pte := 0x62, level := 0, phyAddrOfPte := 0 } true =
      plain.contents readOnlyPage := rfl

/-- Through a read-only page, any other space writes. -/
theorem writes_readOnlyPage {kind : MemAccessType} {asi : Word}
    (hkind : kind = .STORE ∨ kind = .ATOMIC_LS) (h : ¬protectsWrites kind asi) :
    mmuOn.translatesRequest (writeRequest kind asi) = true ∧
      (plain.contents (access (physicalMemory {} noDevices)
        (writeRequest kind asi) (mmuOn, readOnlyPage)).2.2).word 2 = 1 := by
  rw [protectsWrites, not_or, not_and_or] at h
  obtain ⟨hasi, hspace⟩ := h
  have ht : mmuOn.translatesRequest (writeRequest kind asi) = true := by
    rcases hkind with rfl | rfl
    · have hord := of_not_not (hspace.resolve_left (fun hne => hne rfl))
      rw [translatesRequest]
      change (true && (asiSpace asi == .ordinary)) = true
      rw [hord]
      rfl
    · rfl
  refine ⟨ht, ?_⟩
  have hfaults : mmuOn.faultsRequest plain.dom
      (plain.contents readOnlyPage) (writeRequest kind asi) = false := by
    have hcheck (isAtomic : Bool) : (checkFault asi true isAtomic 0x62).2 = .NONE := by
      unfold checkFault
      simp only [computeAccessType_of_not_ordinary hasi]
      cases isAtomic <;> decide
    have hw : (writeRequest kind asi).isWrite = true := by
      rcases hkind with rfl | rfl <;> rfl
    rw [faultsRequest, ht, Bool.true_and, faults, hw]
    change (mmuOn.translates && (checkFault asi true _ (mmuOn.foundEntry
      plain.dom (plain.contents readOnlyPage) 8).pte).2 != .NONE) = false
    rw [foundEntry_readOnlyPage, bne_eq_false_iff_eq.2 (hcheck _), Bool.and_false]
  have hlift := plain.lift_mmuAccess (writeRequest kind asi) mmuOn readOnlyPage
  have haccess : access plain.abstract (writeRequest kind asi)
      (mmuOn, plain.contents readOnlyPage) = _ :=
    access_of_not_faultsRequest ht hfaults
  rw [hlift] at haccess
  refine (congrArg (fun x => x.2.2.word 2) haccess).trans ?_
  rcases hkind with rfl | rfl
  all_goals
    dsimp only [writeRequest, wordAccess, isWrite, complete]
    rw [foundEntry_readOnlyPage, updatedMemory_readOnlyPage]
    rfl

end MmuCore

/-- A store or an atomic with a given address space is write-protected, for every MMU that is on,
every memory and every address and data, just when the space is one of 8 to 0xB, or the request is
a store that is not translated. -/
theorem write_protection_iff {kind : MemAccessType} (hkind : kind = .STORE ∨ kind = .ATOMIC_LS)
    (asi : Word) :
    (∀ (τ : Type) (phys : PhysicalMemory τ) (p : PlainMemory phys) (u : MmuCore) (m : τ)
        (r : VirtualMemoryRequest), u.translates = true → r.accessType = kind → r.asi = asi →
        WriteProtected p u m r) ↔
      protectsWrites kind asi := by
  constructor
  · intro h
    by_contra hnot
    obtain ⟨ht, hword⟩ := writes_readOnlyPage hkind hnot
    have hentry : foundEntry plain.dom mmuOn
        (plain.contents readOnlyPage) (writeRequest kind asi).address =
        { pte := 0x62, level := 0, phyAddrOfPte := 0 } := foundEntry_readOnlyPage
    have hwrite := h _ _ plain mmuOn readOnlyPage
      (writeRequest kind asi) rfl rfl rfl ht
    rw [hentry] at hwrite
    refine absurd (hwrite fun hsame => ?_) ?_
    · rcases hsame 2 with h2 | ⟨h2, -⟩
      · cases hword.symm.trans h2
      · cases h2
    · cases privilegeOf (writeRequest kind asi).asi <;> decide
  · rintro h τ phys p u m r - rfl rfl ht hchanges
    rcases h with hasi | ⟨hstore, hspace⟩
    · refine write_of_not_faultsRequest ht hasi ?_ ?_
      · rcases hkind with hk | hk <;> rw [isWrite, hk]
      · by_contra hfaults
        rw [Bool.not_eq_false] at hfaults
        have hsame : access p.abstract r (u, p.contents m) = _ :=
          access_of_faultsRequest hfaults
        rw [p.lift_mmuAccess] at hsame
        have hmem : p.contents (access phys r (u, m)).2.2 = p.contents m :=
          congrArg (fun x => x.2.2) hsame
        exact hchanges fun i => .inl (by rw [hmem])
    · rw [translatesRequest, hstore, beq_eq_false_iff_ne.2 hspace, Bool.and_false] at ht
      cases ht

/-- A store to user data writes through a page that the user may write. -/
theorem write_protection_user_data :
    (access (physicalMemory {} noDevices) (writeRequest .STORE asiUserData)
        (mmuOn, pageBus 0x6E)).2.2.1.readWord 8 = 1 ∧
      (rights (acc 0x6E).toNat .user).write = true := by
  refine ⟨by decide, (write_protection_iff (.inl rfl) asiUserData).2
    (.inl (.inr (.inr (.inl rfl)))) _ _ plain mmuOn (pageBus 0x6E)
    (writeRequest .STORE asiUserData) rfl rfl rfl rfl fun hsame => ?_⟩
  rcases hsame 2 with h2 | ⟨h2, -⟩ <;> exact absurd h2 (by decide)

/-- A store with space 0x30 is translated through the read-only page and writes. -/
theorem store_writes_readOnlyPage :
    mmuOn.translatesRequest (writeRequest .STORE 0x30) = true ∧
      (mmuOn.foundEntry plain.dom
        (plain.contents readOnlyPage) 8).pte = 0x62 ∧
      (∀ privilege, (rights (acc 0x62).toNat privilege).write = false) ∧
      readOnlyPage.1.readWord 8 = 0 ∧
      (access (physicalMemory {} noDevices)
        (writeRequest .STORE 0x30)
        (mmuOn, readOnlyPage)).2.2.1.readWord 8 = 1 := by
  refine ⟨by decide, by decide, ?_, by decide, by decide⟩
  intro privilege
  cases privilege <;> decide

end SparcV8
