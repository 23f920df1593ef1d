import SparcV8.Mmu.Fetch

/-!
# What accesses do to the TLB and the page tables

An access leaves the TLB alone, flushes it, or fills and updates it by one translation. So every
cached entry has its referenced bit set, and a fetch writes to memory only after a walk, and then
just the referenced bit of the entry found.
-/

namespace SparcV8

open Pte Tlb Bool Option BitVec Words

/-! ## Staged updates -/

namespace MmuCore

variable {pte : Word} {isWrite : Bool}
variable {staged : Word}

theorem referenced_of_staged (h : computeAndStageRMUpdate pte isWrite = some staged) :
    referenced staged ≠ 0 := by
  unfold computeAndStageRMUpdate at h
  dsimp only at h
  split at h
  · cases h
  · cases h
    by_cases hr : referenced pte = 0
    · simp only [hr, beq_self_eq_true, if_true]
      split <;> simp
    · have hb : (referenced pte == 0) = false := beq_eq_false_iff_ne.2 hr
      simp only [hb, if_off]
      split
      · rw [referenced_setModified]
        exact hr
      · exact hr

theorem referenced_of_not_staged (h : computeAndStageRMUpdate pte isWrite = none) :
    referenced pte ≠ 0 := by
  intro hr
  simp [computeAndStageRMUpdate, hr] at h

/-- A read of a referenced page stages nothing. -/
theorem computeAndStageRMUpdate_read (h : referenced pte ≠ 0) :
    computeAndStageRMUpdate pte false = none := by
  have hb : (referenced pte == 0) = false := beq_eq_false_iff_ne.2 h
  simp only [computeAndStageRMUpdate, hb, Bool.not_false, Bool.false_and, Bool.and_self, if_true]

theorem modified_setReferenced (pte : Word) : modified (setReferenced pte) = modified pte :=
  readBits_writeBits_off (by decide)

theorem computeAndStageRMUpdate_write (hm : modified pte = 0) :
    computeAndStageRMUpdate pte true =
      some (setModified (if referenced pte = 0 then setReferenced pte else pte)) := by
  have hset : (modified pte == 0) = true := beq_iff_eq.2 hm
  simp only [computeAndStageRMUpdate, hset, Bool.and_self, Bool.not_true, Bool.and_false,
    if_off, if_true, beq_iff_eq]

/-- What is staged for a write is modified. -/
theorem modified_of_staged (h : computeAndStageRMUpdate pte true = some staged) :
    modified staged ≠ 0 := by
  by_cases hm : modified pte = 0
  · rw [computeAndStageRMUpdate_write hm] at h
    cases h
    exact (readBits_writeBits_self (by decide)).trans_ne (by decide)
  · unfold computeAndStageRMUpdate at h
    dsimp only at h
    rw [beq_eq_false_iff_ne.2 hm, Bool.and_false] at h
    split at h
    · cases h
    · cases h
      rw [if_off]
      split
      · rw [modified_setReferenced]
        exact hm
      · exact hm

theorem modified_of_not_staged (h : computeAndStageRMUpdate pte true = none) :
    modified pte ≠ 0 := by
  intro hm
  rw [computeAndStageRMUpdate_write hm] at h
  cases h

/-- What is staged is the entry with some of the two bits set. -/
theorem exists_bits_of_staged (h : computeAndStageRMUpdate pte isWrite = some staged) :
    ∃ bits, staged = pte ||| bits ∧ bits &&& ~~~0x60 = 0 := by
  unfold computeAndStageRMUpdate at h
  dsimp only at h
  split at h
  · cases h
  · cases h
    rw [setReferenced_eq, setModified_eq]
    split
    · split
      · exact ⟨0x20 ||| 0x40, BitVec.or_assoc _ _ _, by decide⟩
      · exact ⟨0x40, rfl, by decide⟩
    · split
      · exact ⟨0x20, rfl, by decide⟩
      · exact ⟨0, or_zero.symm, by decide⟩

/-- Setting the staged bits on the entry they are for, or on one that has them, gives the staged
entry. -/
theorem stageRMUpdateOnCurrentPte_eq {bits current : Word} (h : entryType current = etPte)
    (hc : current = pte ∨ current = pte ||| bits) :
    stageRMUpdateOnCurrentPte pte (pte ||| bits) current = pte ||| bits := by
  rw [stageRMUpdateOnCurrentPte, if_pos h]
  apply BitVec.eq_of_getLsbD_eq
  intro i _
  rcases hc with rfl | rfl
  · simp only [getLsbD_or, getLsbD_xor]
    cases current.getLsbD i <;> cases bits.getLsbD i <;> rfl
  · simp only [getLsbD_or, getLsbD_xor]
    cases pte.getLsbD i <;> cases bits.getLsbD i <;> rfl

/-! ## The TLB -/

/-- The request writes the context table pointer. -/
def writesTablePointer (u : MmuCore) (r : VirtualMemoryRequest) : Bool :=
  u.mmuIsPresent && r.accessType == .STORE && asiSpace r.asi == .register &&
    readBits r.address 31 8 == 1

section Tlb

variable {τ : Type} (phys : PhysicalMemory τ)

theorem tlb_updateFsrFar (u : MmuCore) (fsrVal farVal : Word) (faultClass : FaultClass) :
    (u.updateFsrFar fsrVal farVal faultClass).tlb = u.tlb := by
  unfold updateFsrFar
  split <;> rfl

/-- The part of the MMU its entries and their origin are in. -/
structure Tables where
  enabled : Bool
  tlb : Tlb
  contextTablePointer : Word

def tables (u : MmuCore) : Tables :=
  { enabled := u.tlbEnabled, tlb := u.tlb, contextTablePointer := u.contextTablePointerRegister }

theorem tlb_of_tables {u : MmuCore} {t : Tables} (h : u.tables = t) : u.tlb = t.tlb :=
  congrArg Tables.tlb h

/-- What an access can do to the TLB and to the pointer its entries were found from. -/
inductive TlbStep (u : MmuCore) (r : VirtualMemoryRequest) (m : τ) (u' : MmuCore) : Prop
  | same (hr : u.translatesRequest r = false) (hw : u.writesTablePointer r = false)
      (h : u'.tables = u.tables)
  /-- A write of the context table pointer empties the TLB. -/
  | clear (hr : u.translatesRequest r = false) (hw : u.writesTablePointer r = true) (ctp : Word)
      (h : u'.tables =
        { u.tables with
          tlb := if u.tlbEnabled then u.tlb.clear else u.tlb, contextTablePointer := ctp })
  | flush (hr : u.translatesRequest r = false) (hw : u.writesTablePointer r = false)
      (flushType va context : Word)
      (h : u'.tables = { u.tables with tlb := u.tlb.flush flushType va context })
  | translate (hr : u.translatesRequest r = true) (hw : u.writesTablePointer r = false)
      (h : u'.tables = (u.translateRequest phys r m).2.1.tables)

variable {phys} {u : MmuCore} {r : VirtualMemoryRequest} {m : τ}

theorem translatesRequest_of_not_present (hp : u.mmuIsPresent = false) :
    u.translatesRequest r = false := by
  rw [translatesRequest, translates, hp, Bool.false_and, Bool.false_and]

theorem writesTablePointer_of_ne (h : r.accessType ≠ .STORE) : u.writesTablePointer r = false := by
  rw [writesTablePointer, beq_eq_false_iff_ne.2 h, Bool.and_false, Bool.false_and, Bool.false_and]

theorem writesTablePointer_of_asiSpace {space : AsiSpace} (h : asiSpace r.asi = space)
    (hs : space ≠ .register) : u.writesTablePointer r = false := by
  rw [writesTablePointer, h, beq_eq_false_iff_ne.2 hs, Bool.and_false, Bool.false_and]

/-- Fetches, loads and stores are translated in the ordinary spaces. -/
theorem translatesRequest_eq
    (hk : r.accessType = .IFETCH ∨ r.accessType = .LOAD ∨ r.accessType = .STORE) :
    u.translatesRequest r = (u.translates && asiSpace r.asi == .ordinary) := by
  unfold translatesRequest
  rcases hk with h | h | h <;> rw [h]

/-- A request for a register of the MMU. -/
def accessesRegister (u : MmuCore) (r : VirtualMemoryRequest) : Bool :=
  u.mmuIsPresent && asiSpace r.asi == .register &&
    (r.accessType == .IFETCH || r.accessType == .LOAD || r.accessType == .STORE)

/-- What an access that is not translated can do to the MMU. -/
inductive UntranslatedStep (u : MmuCore) (r : VirtualMemoryRequest) : MmuCore → Prop
  | same (h : u.accessesRegister r = false) (physicalAddress : BitVec 64) :
      UntranslatedStep u r { u with lastPhysicalAddress := physicalAddress }
  | read (h : u.accessesRegister r = true) (hk : r.accessType ≠ .STORE) :
      UntranslatedStep u r (u.readRegister r.address).2
  | write (h : u.accessesRegister r = true) (hk : r.accessType = .STORE) :
      UntranslatedStep u r (u.writeRegister r.address r.word0 r.word1 r.byteMask)
  | flush (h : u.accessesRegister r = false) (hk : r.accessType = .STORE) :
      UntranslatedStep u r (u.flush r.address)

/-- Registers are written, and the TLB is flushed, by stores. -/
theorem accessesRegister_route :
    u.accessesRegister r = (u.route r == .readRegister || u.route r == .writeRegister) ∧
      (u.route r = .readRegister → r.accessType ≠ .STORE) ∧
      (u.route r = .writeRegister ∨ u.route r = .flush → r.accessType = .STORE) := by
  obtain ⟨accessType, address, asi, word0, word1, byteMask⟩ := r
  unfold accessesRegister route
  cases u.mmuIsPresent with
  | false => cases accessType <;> exact ⟨rfl, nofun, nofun⟩
  | true =>
    cases accessType with
    | READ_LINE =>
      dsimp only
      split <;> exact ⟨Bool.and_false _, nofun, nofun⟩
    | FLUSH => exact ⟨Bool.and_false _, nofun, nofun⟩
    | NO_ACCESS => exact ⟨Bool.and_false _, nofun, nofun⟩
    | ATOMIC_LS => exact ⟨Bool.and_false _, nofun, nofun⟩
    | STORE =>
      dsimp only
      cases asiSpace asi <;> exact ⟨rfl, nofun, fun _ => rfl⟩
    | _ =>
      dsimp only
      cases asiSpace asi <;> exact ⟨rfl, nofun, nofun⟩

/-- An untranslated access goes to a register, flushes, or leaves the MMU. -/
theorem untranslatedStep_access (hr : u.translatesRequest r = false) :
    UntranslatedStep u r (access phys r (u, m)).2.1 := by
  obtain ⟨hregister, hread, hstore⟩ := accessesRegister_route (u := u) (r := r)
  rw [access_eq]
  cases hroute : u.route r with
  | readRegister => exact .read (by rw [hregister, hroute]; rfl) (hread hroute)
  | writeRegister => exact .write (by rw [hregister, hroute]; rfl) (hstore (.inl hroute))
  | flush => exact .flush (by rw [hregister, hroute]; rfl) (hstore (.inr hroute))
  | translated =>
    have hsame : u.accessesRegister r = false := by rw [hregister, hroute]; rfl
    rw [follow_of_not_translatesRequest phys hr hroute, complete]
    cases r.accessType with
    | STORE => exact .same hsame _
    | ATOMIC_LS => exact .same hsame _
    | _ => exact .same hsame u.lastPhysicalAddress
  | _ => exact .same (by rw [hregister, hroute]; rfl) u.lastPhysicalAddress

theorem writesTablePointer_of_not_accessesRegister (h : u.accessesRegister r = false) :
    u.writesTablePointer r = false := by
  rw [← Bool.not_eq_true] at h ⊢
  simp only [writesTablePointer, accessesRegister, and_eq_true, Bool.or_eq_true] at h ⊢
  tauto

theorem tlbStep_writeRegister (hr : u.translatesRequest r = false)
    (hreg : u.accessesRegister r = true) (hk : r.accessType = .STORE) (word0 word1 mask : Word) :
    TlbStep phys u r m (u.writeRegister r.address word0 word1 mask) := by
  have hw : u.writesTablePointer r = (readBits r.address 31 8 == 1) := by
    simp only [accessesRegister, and_eq_true] at hreg
    rw [writesTablePointer, hreg.1.1, hreg.1.2, hk]
    rfl
  unfold writeRegister
  dsimp only
  by_cases hid : readBits r.address 31 8 = 1
  · rw [hid]
    refine .clear hr (hw.trans (by rw [hid]; rfl)) (if mask = 0xF0 then word1 else word0) ?_
    by_cases hen : u.tlbEnabled = true
    · rw [if_pos hen, if_pos hen]
      rfl
    · rw [if_neg hen, if_neg hen]
      rfl
  · have hw' : u.writesTablePointer r = false := hw.trans (beq_eq_false_iff_ne.2 hid)
    split
    · exact .same hr hw' rfl
    · next h => exact absurd (BitVec.eq_of_toNat_eq h) hid
    · exact .same hr hw' rfl
    · exact .same hr hw' rfl

/-- A translated request does not write the context table pointer. -/
theorem writesTablePointer_of_translatesRequest (hr : u.translatesRequest r = true) :
    u.writesTablePointer r = false := by
  by_cases hk : r.accessType = .STORE
  · rw [translatesRequest_eq (.inr (.inr hk)), and_eq_true, beq_iff_eq] at hr
    exact writesTablePointer_of_asiSpace hr.2 (by decide)
  · exact writesTablePointer_of_ne hk

variable (phys u r m)

/-- Every access leaves the TLB in one of these ways. -/
theorem tlbStep_access : TlbStep phys u r m (access phys r (u, m)).2.1 := by
  cases hr : u.translatesRequest r with
  | true =>
    refine .translate hr (writesTablePointer_of_translatesRequest hr) ?_
    rw [access_of_translatesRequest phys hr]
    rcases u.translateRequest phys r m with ⟨_ | t, u', m'⟩
    · rfl
    · dsimp only [complete]
      cases r.accessType <;> rfl
  | false =>
    have hstep : UntranslatedStep u r (access phys r (u, m)).2.1 := untranslatedStep_access hr
    generalize (access phys r (u, m)).2.1 = u' at hstep ⊢
    cases hstep with
    | same h _ => exact .same hr (writesTablePointer_of_not_accessesRegister h) rfl
    | read h hk =>
      refine .same hr (writesTablePointer_of_ne hk) ?_
      unfold readRegister
      split <;> rfl
    | write h hk => exact tlbStep_writeRegister hr h hk _ _ _
    | flush h hk =>
      have hw := writesTablePointer_of_not_accessesRegister h
      unfold flush
      split
      · exact .flush hr hw _ _ _ rfl
      · exact .same hr hw rfl

end Tlb

/-! ## Cached entries are referenced -/

/-- Every cached entry has its referenced bit set. -/
def EntriesReferenced (t : Tlb) : Prop :=
  ∀ level e, t.Holds level e → referenced e.pte ≠ 0

variable {va : Word}
variable {r : WalkResult}

/-- The entries after a translation: old ones, one filled in after a miss, and one updated after a
hit. -/
theorem holds_afterTranslation {u : MmuCore} {level : Level} {e : Entry}
    (h : (u.afterTranslation va r (u.tlbLookup va u.contextRegister).isSome isWrite).tlb.Holds
      level e) :
    u.tlb.Holds level e ∨
      (level = r.level ∧ u.tlbLookup va u.contextRegister = none ∧
        e = { vaTag := vaTagForLevel va r.level, context := u.contextRegister,
              pte := (computeAndStageRMUpdate r.pte isWrite).getD r.pte,
              phyAddrOfPte := r.phyAddrOfPte }) ∨
      (level = r.level ∧ u.tlbLookup va u.contextRegister ≠ none ∧ ∃ staged e',
        computeAndStageRMUpdate r.pte isWrite = some staged ∧ u.tlb.Holds r.level e' ∧
        hits va u.contextRegister r.level e' = true ∧ e = { e' with pte := staged }) := by
  unfold afterTranslation commitTranslation at h
  cases hen : u.tlbEnabled with
  | false =>
    left
    simp only [hen, Bool.and_false, if_off] at h
    cases hs : computeAndStageRMUpdate r.pte isWrite with
    | none => simpa only [hs] using h
    | some staged =>
      simpa [hs, commitRMTlbUpdate, hen] using h
  | true =>
    cases hl : u.tlbLookup va u.contextRegister with
    | some r' =>
      simp only [hl, isSome_some, Bool.not_true, Bool.false_and, false_eq_true, if_false] at h
      cases hs : computeAndStageRMUpdate r.pte isWrite with
      | none =>
        left
        simpa only [hs] using h
      | some staged =>
        simp only [hs, commitRMTlbUpdate, hen, if_true] at h
        rcases holds_updatePte h with ho | ⟨hlevel, e', he', hhit, he⟩
        · exact .inl ho
        · exact .inr (.inr ⟨hlevel, nofun, staged, e', rfl, he', hhit, he⟩)
    | none =>
      have hmiss : u.tlb.lookup va u.contextRegister = none := by
        simpa [tlbLookup, hen] using hl
      simp only [hl, hen, isSome_none, Bool.not_false, Bool.true_and, if_true] at h
      cases hs : computeAndStageRMUpdate r.pte isWrite with
      | none =>
        simp only [hs] at h
        rcases holds_insert h with ho | ⟨hlevel, he⟩
        · exact .inl ho
        · exact .inr (.inl ⟨hlevel, rfl, he⟩)
      | some staged =>
        simp only [hs, commitRMTlbUpdate, if_true] at h
        rcases holds_updatePte_insert hmiss h with ho | ⟨hlevel, he⟩
        · exact .inl ho
        · exact .inr (.inl ⟨hlevel, rfl, he⟩)

theorem referenced_getD_staged (pte : Word) (isWrite : Bool) :
    referenced ((computeAndStageRMUpdate pte isWrite).getD pte) ≠ 0 := by
  cases hs : computeAndStageRMUpdate pte isWrite with
  | none => exact referenced_of_not_staged hs
  | some staged => exact referenced_of_staged hs

theorem entriesReferenced_afterTranslation {u : MmuCore} (h : EntriesReferenced u.tlb) :
    EntriesReferenced
      (u.afterTranslation va r (u.tlbLookup va u.contextRegister).isSome isWrite).tlb := by
  intro level e he
  rcases holds_afterTranslation he with ho | ⟨-, -, rfl⟩ | ⟨-, -, staged, e', hs, -, -, rfl⟩
  · exact h level e ho
  · exact referenced_getD_staged r.pte isWrite
  · exact referenced_of_staged hs

variable (dom : Nat → Bool)

theorem entriesReferenced_translate {u : MmuCore} (c : Words) (va asi : Word)
    (isFetch isWrite isAtomic : Bool) (h : EntriesReferenced u.tlb) :
    EntriesReferenced (u.translate (ram dom) va asi isFetch
      isWrite isAtomic c).2.1.tlb := by
  cases ht : u.translates with
  | false =>
    rw [translate_of_not_translates _ u c ht]
    exact h
  | true =>
    cases hf : u.faults dom c va asi isWrite isAtomic with
    | true =>
      rw [translate_of_faults dom u c hf]
      dsimp only [recordFault]
      rw [tlb_updateFsrFar]
      exact h
    | false =>
      rw [translate_of_not_faults dom u c ht hf]
      exact entriesReferenced_afterTranslation h

/-- An access keeps the invariant. -/
theorem entriesReferenced_access (request : VirtualMemoryRequest) {u : MmuCore} (c : Words)
    (h : EntriesReferenced u.tlb) :
    EntriesReferenced (access (ram dom) request (u, c)).2.1.tlb := by
  cases tlbStep_access (ram dom) u request c with
  | same _ _ ht =>
    rw [tlb_of_tables ht]
    exact h
  | clear _ _ ctp ht =>
    rw [tlb_of_tables ht]
    split
    · exact fun level e he => absurd he (not_holds_clear _ level e)
    · exact h
  | flush _ _ flushType va context ht =>
    rw [tlb_of_tables ht]
    exact fun level e he => h level e (holds_of_holds_flush he)
  | translate _ _ ht =>
    rw [tlb_of_tables ht]
    exact entriesReferenced_translate dom c _ _ _ _ _ h

theorem lookup_of_tlbLookup {u : MmuCore} {context : Word} (h : u.tlbLookup va context = some r) :
    u.tlb.lookup va context = some r := by
  unfold tlbLookup at h
  split at h
  · exact h
  · cases h

/-- A hit of the TLB has nothing to set for a read. -/
theorem writtenEntry_of_hit {u : MmuCore} (c : Words) (h : EntriesReferenced u.tlb)
    (hl : u.tlbLookup va u.contextRegister = some r) : u.writtenEntry dom c r false = none := by
  obtain ⟨e, he, -, hpte, -⟩ := exists_of_lookup (lookup_of_tlbLookup hl)
  rw [writtenEntry, computeAndStageRMUpdate_read (hpte ▸ h r.level e he)]
  rfl

/-! ## Referenced and modified bits -/

/-- Two memories differ at most in two bits of entries that walks end at. -/
def OnlyRMBits (dom : Nat → Bool) (u : MmuCore) (c c' : Words) : Prop :=
  ∀ i, c'.word i = c.word i ∨
    (∃ va, (u.walkEnd dom c va).phyAddrOfPte.toNat / 4 = i) ∧
      entryType (c.word i) = etPte ∧ c'.word i &&& ~~~0x60 = c.word i &&& ~~~0x60

/-- Only a leaf lets an access through. -/
theorem entryType_of_checkFault {asi : Word} {isAtomic : Bool}
    (h : (checkFault asi isWrite isAtomic pte).2 = .NONE) : entryType pte = etPte := by
  unfold checkFault at h
  dsimp only at h
  split at h
  · next hboth => exact entryType_of_computeFaultType hboth.2
  · exact entryType_of_computeFaultType h

variable {c : Words}

theorem entryType_of_not_faults {dom : Nat → Bool} {u : MmuCore} {va asi : Word}
    {isAtomic : Bool} (ht : u.translates = true)
    (hf : u.faults dom c va asi isWrite isAtomic = false) :
    entryType (u.foundEntry dom c va).pte = etPte := by
  have hnone : (checkFault asi isWrite isAtomic (u.foundEntry dom c va).pte).2 = .NONE := by
    simpa [faults, ht] using hf
  exact entryType_of_checkFault hnone

/-- If the entry is the one in memory, the update writes what it stages. -/
theorem writtenEntry_of_current (u : MmuCore) (isWrite : Bool)
    (hpte : r.pte = c.entryAt dom r.phyAddrOfPte) (het : entryType r.pte = etPte) :
    u.writtenEntry dom c r isWrite = computeAndStageRMUpdate r.pte isWrite := by
  unfold writtenEntry
  cases hs : computeAndStageRMUpdate r.pte isWrite with
  | none => rfl
  | some staged =>
    obtain ⟨bits, rfl, -⟩ := exists_bits_of_staged hs
    rw [map_some, ← hpte, stageRMUpdateOnCurrentPte_eq het (.inl rfl), ite_self]

/-- After a walk an update changes at most the two bits of the entry found. -/
theorem onlyRMBits_updatedMemory (u : MmuCore) (c : Words) (va : Word) (isWrite : Bool)
    (het : entryType (u.walkEnd dom c va).pte = etPte) :
    OnlyRMBits dom u c (u.updatedMemory dom c (u.walkEnd dom c va) isWrite) := by
  have hpte : (u.walkEnd dom c va).pte =
      c.entryAt dom (u.walkEnd dom c va).phyAddrOfPte := Walk.pte_find _ _ _ _
  rw [updatedMemory, writtenEntry_of_current dom u isWrite hpte het]
  intro i
  cases hs : computeAndStageRMUpdate (u.walkEnd dom c va).pte isWrite with
  | none => exact .inl rfl
  | some staged =>
    obtain ⟨bits, rfl, hbits⟩ := exists_bits_of_staged hs
    rw [Words.word_write]
    split
    · next hi =>
      right
      have hword : c.word i = (u.walkEnd dom c va).pte := by
        rw [hpte, Words.entryAt, Words.read, if_pos hi.2, hi.1]
      refine ⟨⟨va, hi.1.symm⟩, by rw [hword]; exact het, ?_⟩
      rw [hword, BitVec.and_or_distrib_right, hbits]
      exact or_zero
    · exact .inl rfl

/-- A fetch's translation sets at most the referenced bit of its walk's entry. -/
theorem onlyRMBits_fetchedMemory {u : MmuCore} (c : Words) (va asi : Word)
    (h : EntriesReferenced u.tlb) : OnlyRMBits dom u c (u.fetchedMemory dom c va asi) := by
  unfold fetchedMemory
  split
  · next hc =>
    simp only [and_eq_true, Bool.not_eq_true'] at hc
    have het := entryType_of_not_faults hc.1 hc.2
    cases hl : u.tlbLookup va u.contextRegister with
    | some r =>
      have hfound : u.foundEntry dom c va = r := by rw [foundEntry, hl, getD_some]
      rw [hfound, updatedMemory, writtenEntry_of_hit dom c h hl]
      exact fun i => .inl rfl
    | none =>
      have hfound : u.foundEntry dom c va = u.walkEnd dom c va := by
        rw [foundEntry, hl, getD_none]
      rw [hfound] at het ⊢
      exact onlyRMBits_updatedMemory dom u c va false het
  · exact fun i => .inl rfl

end MmuCore

end SparcV8
