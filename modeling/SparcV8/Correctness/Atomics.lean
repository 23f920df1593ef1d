import SparcV8.Mmu.Access
import SparcV8.Mmu.Doubleword
import SparcV8.Mmu.Reference
import Mathlib.Tactic.IntervalCases

/-!
# Atomics, loads and stores

An atomic is meant to be a load and a store in one. But it is translated in every address space, and
it sets the modified bit before it reads. Where it does not fault, it agrees with the load and the
store except where one of these shows.
-/

namespace SparcV8

open ReferenceMmu MmuCore Words Pte BitVec SystemBus

/-! ## Doublewords of a plain memory -/

variable {a : BitVec 64}
variable {c : Words}

namespace Words

variable (dom : Nat → Bool)

/-- The two words of the doubleword at a physical address. -/
def wordsAt (c : Words) (a : BitVec 64) : Word × Word :=
  (c.read dom (a.toNat / 4), c.read dom (a.toNat / 4 + 1))

/-- The memory after a masked write of a doubleword. -/
def writeDoubleword (c : Words) (a : BitVec 64) (word0 word1 byteMask : Word) : Words :=
  (writePhysicalMaskedDoubleWord (ram dom) a word0 word1 byteMask c).2

/-- Some word of the doubleword exists. -/
def dwordPresent (a : BitVec 64) : Bool :=
  dom (a.toNat / 4) || dom (a.toNat / 4 + 1)

variable {dom}

theorem writeDoubleword_empty (c : Words) (a : BitVec 64) (word0 word1 : Word) :
    c.writeDoubleword dom a word0 word1 0 = c := by
  unfold writeDoubleword writePhysicalMaskedDoubleWord ram access
  dsimp only
  rw [show readBits ((setWidth 8 (0 : Word)).setWidth 32) 3 0 = 0 by decide,
    show readBits ((setWidth 8 (0 : Word)).setWidth 32) 7 4 = 0 by decide,
    mergeMaskedBytes_empty, mergeMaskedBytes_empty, write_read_self, write_read_self]

theorem writeDoubleword_full (c : Words) (a : BitVec 64) (word0 word1 : Word) :
    c.writeDoubleword dom a word0 word1 0xFF =
      (c.write dom (a.toNat / 4) word0).write dom (a.toNat / 4 + 1) word1 := by
  unfold writeDoubleword writePhysicalMaskedDoubleWord ram access
  dsimp only
  rw [show readBits ((setWidth 8 (0xFF : Word)).setWidth 32) 3 0 = 0xF by decide,
    show readBits ((setWidth 8 (0xFF : Word)).setWidth 32) 7 4 = 0xF by decide,
    mergeMaskedBytes_full, mergeMaskedBytes_full, lowWord_doubleword, highWord_doubleword]

/-- A doubleword that is not there ignores writes. -/
theorem writeDoubleword_of_absent (h : dwordPresent dom a = false) (c : Words)
    (word0 word1 byteMask : Word) : c.writeDoubleword dom a word0 word1 byteMask = c := by
  rw [dwordPresent, Bool.or_eq_false_iff] at h
  unfold writeDoubleword writePhysicalMaskedDoubleWord ram access write
  simp [h.1, h.2]

theorem wordsAt_of_absent (h : dwordPresent dom a = false) (c : Words) :
    c.wordsAt dom a = (0, 0) := by
  rw [dwordPresent, Bool.or_eq_false_iff] at h
  simp [wordsAt, read, h.1, h.2]

variable {b : BitVec 64}

/-- A word that writes to its doubleword leave as writes to another one do is not there. -/
theorem absent_of_writes_eq (ha : a.toNat % 8 = 0) (hb : b.toNat % 8 = 0) (hne : a ≠ b)
    (h : ∀ word0 word1, c.writeDoubleword dom a word0 word1 0xFF = c.writeDoubleword dom b word0
      word1 0xFF) : dwordPresent dom a = false := by
  have hnat : a.toNat ≠ b.toNat := fun heq => hne (eq_of_toNat_eq heq)
  have hw := h (~~~c.read dom (a.toNat / 4)) (~~~c.read dom (a.toNat / 4 + 1))
  rw [writeDoubleword_full, writeDoubleword_full] at hw
  have hnot (w : Word) : ~~~w ≠ w := by
    intro heq
    have := congrArg (fun x => x.getLsbD 0) heq
    simp at this
  rw [dwordPresent, Bool.or_eq_false_iff]
  constructor
  · by_contra hp
    rw [Bool.not_eq_false] at hp
    have h0 := congrArg (fun x => x.read dom (a.toNat / 4)) hw
    simp only [read_write] at h0
    rw [if_neg (by omega), if_pos trivial, if_pos hp, if_neg (by omega), if_neg (by omega)] at h0
    exact hnot _ h0
  · by_contra hp
    rw [Bool.not_eq_false] at hp
    have h1 := congrArg (fun x => x.read dom (a.toNat / 4 + 1)) hw
    simp only [read_write] at h1
    rw [if_pos trivial, if_pos hp, if_neg (by omega), if_neg (by omega)] at h1
    exact hnot _ h1

/-- Two memories are the same after every write, to two doublewords, just when they are the same
before and the doublewords are one, or neither is there. -/
theorem writes_eq_iff (c c' : Words) (ha : a.toNat % 8 = 0) (hb : b.toNat % 8 = 0) :
    (∀ word0 word1 byteMask, c'.writeDoubleword dom a word0 word1 byteMask =
      c.writeDoubleword dom b word0 word1 byteMask) ↔
    c' = c ∧ (a = b ∨ dwordPresent dom a = false ∧ dwordPresent dom b = false) := by
  constructor
  · intro h
    have hc : c' = c := by
      have h0 := h 0 0 0
      rw [writeDoubleword_empty, writeDoubleword_empty] at h0
      exact h0
    subst hc
    refine ⟨rfl, ?_⟩
    by_cases hab : a = b
    · exact .inl hab
    · exact .inr ⟨absent_of_writes_eq ha hb hab fun w w' => h w w' 0xFF,
        absent_of_writes_eq hb ha (Ne.symm hab) fun w w' => (h w w' 0xFF).symm⟩
  · rintro ⟨rfl, rfl | ⟨hpa, hpb⟩⟩ word0 word1 byteMask
    · rfl
    · rw [writeDoubleword_of_absent hpa, writeDoubleword_of_absent hpb]

end Words

/-! ## The update of an entry, by a load and by a store -/

namespace MmuCore

/-- The word an access leaves in memory for an entry. -/
def updatedWord (u : MmuCore) (pte word : Word) (isWrite : Bool) : Word :=
  match computeAndStageRMUpdate pte isWrite with
  | none => word
  | some staged => if u.atomicRMUpdates then stageRMUpdateOnCurrentPte pte staged word else staged

/-- A store leaves the word of an entry as a load does. -/
def sameUpdate (u : MmuCore) (pte word : Word) : Bool :=
  modified pte != 0 ||
    if u.atomicRMUpdates then entryType word != etPte || modified word != 0
    else referenced pte != 0 && word == setModified pte

/-- Setting the modified bit changes nothing just when it is set. -/
theorem eq_setModified_iff (pte : Word) : pte = setModified pte ↔ modified pte ≠ 0 := by
  constructor
  · intro h
    rw [h, modified_setModified]
    decide
  · exact fun h => (setModified_of_modified h).symm

variable {pte : Word}

/-- On a leaf, the update for a store is that for a load and the modified bit. -/
theorem stageRMUpdateOnCurrentPte_setModified {word : Word} (hm : modified pte = 0)
    (ht : entryType word = etPte) (staged : Word) :
    stageRMUpdateOnCurrentPte pte (setModified staged) word =
      setModified (stageRMUpdateOnCurrentPte pte staged word) := by
  have hclear : pte.getLsbD 6 = false := by
    have hnot := mt (readBits_ne_zero_iff pte (show 6 < 32 by decide)).2 (not_not.2 hm)
    exact Bool.not_eq_true _ ▸ hnot
  rw [stageRMUpdateOnCurrentPte, stageRMUpdateOnCurrentPte, if_pos ht, if_pos ht]
  apply BitVec.eq_of_getLsbD_eq
  intro i _
  simp only [setModified_eq, getLsbD_or, getLsbD_xor,
    show (0x40 : Word) = BitVec.twoPow 32 6 from rfl, BitVec.getLsbD_twoPow]
  by_cases hi : 6 = i
  · subst hi
    simp only [hclear, decide_true, Bool.and_self, Bool.or_true, Bool.xor_false,
      show decide (6 < 32) = true from rfl]
  · simp [hi]

theorem computeAndStageRMUpdate_load (pte : Word) :
    computeAndStageRMUpdate pte false =
      if referenced pte = 0 then some (setReferenced pte) else none := by
  by_cases hr : referenced pte = 0
  · rw [if_pos hr]
    have hset : (referenced pte == 0) = true := beq_iff_eq.2 hr
    simp only [computeAndStageRMUpdate, hset, Bool.not_true, Bool.false_and, Bool.false_eq_true,
      if_false, if_true]
  · rw [if_neg hr, computeAndStageRMUpdate_read hr]

/-- Of a modified entry, a store and a load leave the same. -/
theorem updatedWord_of_modified (u : MmuCore) (hm : modified pte ≠ 0) (word : Word) :
    u.updatedWord pte word true = u.updatedWord pte word false := by
  have hclear : (modified pte == 0) = false := beq_eq_false_iff_ne.2 hm
  simp only [updatedWord, computeAndStageRMUpdate, hclear, Bool.and_false]

variable {u : MmuCore}

/-- Of an unmodified entry, when the update goes to the word now in memory. -/
theorem updatedWord_eq_iff_of_atomic (hu : u.atomicRMUpdates = true) (hm : modified pte = 0)
    (word : Word) :
    u.updatedWord pte word true = u.updatedWord pte word false ↔
      entryType word ≠ etPte ∨ modified word ≠ 0 := by
  have hload : u.updatedWord pte word false =
      stageRMUpdateOnCurrentPte pte (if referenced pte = 0 then setReferenced pte else pte)
        word := by
    rw [updatedWord, computeAndStageRMUpdate_load]
    by_cases hr : referenced pte = 0
    · simp only [if_pos hr, if_pos hu]
    · simp only [if_neg hr, stageRMUpdateOnCurrentPte, BitVec.xor_self, BitVec.or_zero, ite_self]
  have hstore : u.updatedWord pte word true =
      stageRMUpdateOnCurrentPte pte
        (setModified (if referenced pte = 0 then setReferenced pte else pte)) word := by
    rw [updatedWord, computeAndStageRMUpdate_write hm]
    exact if_pos hu
  rw [hload, hstore]
  generalize hx : (if referenced pte = 0 then setReferenced pte else pte) = x
  by_cases ht : entryType word = etPte
  · have hsame : x.getLsbD 6 = pte.getLsbD 6 := by
      rw [← hx]
      split
      · rw [setReferenced_eq, getLsbD_or, show (0x20 : Word).getLsbD 6 = false by decide,
          Bool.or_false]
      · rfl
    have hmod : modified (stageRMUpdateOnCurrentPte pte x word) ≠ 0 ↔ modified word ≠ 0 := by
      rw [modified, modified, readBits_ne_zero_iff _ (by decide),
        readBits_ne_zero_iff _ (by decide), stageRMUpdateOnCurrentPte, if_pos ht, getLsbD_or,
        getLsbD_xor, hsame, Bool.xor_self, Bool.or_false]
    rw [stageRMUpdateOnCurrentPte_setModified hm ht, eq_comm, eq_setModified_iff, hmod]
    exact ⟨.inr, fun h => h.resolve_left (not_not.2 ht)⟩
  · rw [stageRMUpdateOnCurrentPte, stageRMUpdateOnCurrentPte, if_neg ht, if_neg ht]
    exact iff_of_true rfl (.inl ht)

theorem updatedWord_eq_iff (u : MmuCore) (pte word : Word) :
    u.updatedWord pte word true = u.updatedWord pte word false ↔ u.sameUpdate pte word = true := by
  by_cases hm : modified pte = 0
  · have hfalse : (modified pte != 0) = false := bne_eq_false_iff_eq.2 hm
    rw [sameUpdate, hfalse, Bool.false_or]
    cases hu : u.atomicRMUpdates with
    | true =>
      rw [updatedWord_eq_iff_of_atomic hu hm, if_pos rfl, Bool.or_eq_true, bne_iff_ne, bne_iff_ne]
    | false =>
      rw [updatedWord, updatedWord, computeAndStageRMUpdate_write hm, computeAndStageRMUpdate_load,
        hu, if_off, Bool.and_eq_true, bne_iff_ne, beq_iff_eq]
      by_cases hr : referenced pte = 0
      · -- the load writes the entry back without the modified bit
        simp only [if_pos hr, if_off]
        refine iff_of_false ?_ (fun h => h.1 hr)
        intro h
        have hbit := congrArg modified h
        rw [modified_setModified, modified_setReferenced, hm] at hbit
        cases hbit
      · simp only [if_neg hr, if_off]
        exact ⟨fun h => ⟨hr, h.symm⟩, fun h => h.2.symm⟩
  · refine iff_of_true (updatedWord_of_modified u hm word) ?_
    rw [sameUpdate, bne_iff_ne.2 hm, Bool.true_or]

section Update

variable (dom : Nat → Bool) (u : MmuCore) (c : Words)
variable (e : WalkResult)

theorem updatedMemory_eq (isWrite : Bool) :
    u.updatedMemory dom c e isWrite =
      c.write dom (e.phyAddrOfPte.toNat / 4)
        (u.updatedWord e.pte (c.entryAt dom e.phyAddrOfPte) isWrite) := by
  unfold updatedMemory writtenEntry updatedWord
  cases computeAndStageRMUpdate e.pte isWrite with
  | none => exact (write_read_self dom c _).symm
  | some staged => rfl

/-- The load sees at the doubleword what the atomic sees. -/
def readsSameEntry (e : WalkResult) (a : BitVec 64) : Bool :=
  !dom (e.phyAddrOfPte.toNat / 4) ||
    (e.phyAddrOfPte.toNat / 4 != a.toNat / 4 && e.phyAddrOfPte.toNat / 4 != a.toNat / 4 + 1) ||
    u.sameUpdate e.pte (c.entryAt dom e.phyAddrOfPte)

theorem wordsAt_updatedMemory_iff (a : BitVec 64) :
    (u.updatedMemory dom c e true).wordsAt dom a =
        (u.updatedMemory dom c e false).wordsAt dom a ↔
      u.readsSameEntry dom c e a = true := by
  have hsame := u.updatedWord_eq_iff e.pte (c.entryAt dom e.phyAddrOfPte)
  unfold wordsAt readsSameEntry
  rw [updatedMemory_eq, updatedMemory_eq, Prod.mk.injEq]
  simp only [read_write, Bool.or_eq_true, Bool.and_eq_true, Bool.not_eq_true', bne_iff_ne]
  by_cases hp : dom (e.phyAddrOfPte.toNat / 4) = true
  · simp only [hp, if_true, Bool.true_eq_false, false_or, ← hsame]
    by_cases h0 : a.toNat / 4 = e.phyAddrOfPte.toNat / 4
    · rw [if_pos h0, if_pos h0, if_neg (by omega), if_neg (by omega)]
      constructor
      · exact fun h => .inr h.1
      · exact fun h => ⟨h.resolve_left fun hne => hne.1 h0.symm, rfl⟩
    · rw [if_neg h0, if_neg h0]
      by_cases h1 : a.toNat / 4 + 1 = e.phyAddrOfPte.toNat / 4
      · rw [if_pos h1, if_pos h1]
        constructor
        · exact fun h => .inr h.2
        · exact fun h => ⟨rfl, h.resolve_left fun hne => hne.2 h1.symm⟩
      · rw [if_neg h1, if_neg h1]
        exact iff_of_true ⟨rfl, rfl⟩ (.inl ⟨Ne.symm h0, Ne.symm h1⟩)
  · rw [Bool.not_eq_true] at hp
    simp [hp]

end Update

/-! ## The three accesses -/

variable {asi : Word}

theorem alignedDword_of_aligned (h : a.toNat % 8 = 0) : alignedDword a = a := by
  apply eq_of_toNat_eq
  rw [toNat_alignedDword]
  omega

theorem toNat_constructPhysicalAddr_mod (pte va : Word) (level : Level) (h : va.toNat % 8 = 0) :
    (constructPhysicalAddr pte level va).toNat % 8 = 0 := by
  have hoffset := toNat_constructPhysicalAddr_offset pte va level
  omega

variable {address : Word}

theorem toNat_setWidth_mod (h : address.toNat % 8 = 0) : (address.setWidth 64).toNat % 8 = 0 := by
  rw [BitVec.toNat_setWidth]
  have := address.isLt
  omega

section Accesses

variable {dom : Nat → Bool} {r : VirtualMemoryRequest}

/-- The words of a response. -/
def responseWords (x : VirtualMemoryResponse) : Word × Word := (x.readWord0, x.readWord1)

theorem readData_doubleword (c : Words) (a : BitVec 64) (mask : BitVec 8) :
    readData (ram dom) a true mask c =
      ({ word0 := (c.wordsAt dom (alignedDword a)).1,
         word1 := (c.wordsAt dom (alignedDword a)).2, mae := false }, c) := by
  unfold readData readPhysicalDoubleword ram Words.access
  simp [wordsAt]

theorem atomicReadModifyWritePhysical_eq (c : Words) (a : BitVec 64) (word0 word1 byteMask : Word) :
    atomicReadModifyWritePhysical (ram dom) a word0 word1 byteMask c =
      ({ word0 := (c.wordsAt dom a).1, word1 := (c.wordsAt dom a).2, mae := false },
        c.writeDoubleword dom a word0 word1 byteMask) := by
  refine Prod.ext ?_ rfl
  change ReadWords.mk (lowWord (doubleword (c.wordsAt dom a).2 (c.wordsAt dom a).1))
    (highWord (doubleword (c.wordsAt dom a).2 (c.wordsAt dom a).1)) false = _
  rw [lowWord_doubleword, highWord_doubleword]

/-- What a load or an atomic returns, once its address is known. -/
theorem words_complete {t : Translation} (hal : t.physicalAddr.toNat % 8 = 0)
    (hk : r.accessType = .LOAD ∨ r.accessType = .ATOMIC_LS) :
    responseWords (u.complete (ram dom) r t c).1 =
      c.wordsAt dom t.physicalAddr := by
  unfold complete
  rcases hk with hk | hk
  · simp only [hk, readData_doubleword, alignedDword_of_aligned hal]
    rfl
  · simp only [hk, atomicReadModifyWritePhysical_eq]
    rfl

/-- What a store or an atomic leaves. -/
theorem contents_complete (t : Translation) (hk : r.Stores) :
    (u.complete (ram dom) r t c).2.2 =
      c.writeDoubleword dom t.physicalAddr r.word0 r.word1 r.byteMask := by
  unfold complete
  rcases hk with hk | hk <;> rw [hk] <;> rfl

variable (dom) in
/-- Ordinary and pass-through spaces reach memory. -/
theorem data_untranslated (hal : r.address.toNat % 8 = 0)
    (hspace : asiSpace r.asi = .ordinary ∨ asiSpace r.asi = .passThrough)
    (h : u.translatesRequest r = false) :
    (r.accessType = .LOAD ∨ r.accessType = .ATOMIC_LS →
      responseWords (access (ram dom) r (u, c)).1 =
        c.wordsAt dom (r.address.setWidth 64)) ∧
    (r.Stores →
      (access (ram dom) r (u, c)).2.2 =
        c.writeDoubleword dom (r.address.setWidth 64) r.word0 r.word1 r.byteMask) := by
  have hroute (hk : r.accessType = .LOAD ∨ r.Stores) :
      u.route r = .physical ∨ u.route r = .translated := by
    unfold route
    cases u.mmuIsPresent <;> rcases hk with hk | hk | hk <;>
      rcases hspace with hspace | hspace <;> simp [hk, hspace, spaceRoute]
  rw [access_eq]
  constructor
  · intro hk
    rcases hroute (hk.imp id .inr) with hroute | hroute
    · refine Eq.trans ?_ (words_complete (u := u) (t := u.passedTo r) (toNat_setWidth_mod hal) hk)
      rw [hroute, follow, passOn]
      split <;> rfl
    · rw [hroute, follow_of_not_translatesRequest _ h hroute]
      exact words_complete (toNat_setWidth_mod hal) hk
  · intro hk
    rcases hroute (.inr hk) with hroute | hroute
    · rw [hroute]
      exact contents_complete _ hk
    · rw [hroute, follow_of_not_translatesRequest _ h hroute]
      exact contents_complete _ hk

/-- The physical address that an address is translated to. -/
def foundAddress (dom : Nat → Bool) (u : MmuCore) (c : Words) (address : Word) : BitVec 64 :=
  (translationOf address (u.foundEntry dom c address)).physicalAddr

variable (dom) in
theorem toNat_foundAddress_mod (hal : address.toNat % 8 = 0) :
    (u.foundAddress dom c address).toNat % 8 = 0 :=
  toNat_constructPhysicalAddr_mod _ _ _ hal

variable (dom) in
/-- Through a page they reach what the address is translated to. -/
theorem data_translated (hal : r.address.toNat % 8 = 0) (ht : u.translatesRequest r = true)
    (h : u.faultsRequest dom c r = false) :
    let c' := u.updatedMemory dom c (u.foundEntry dom c r.address) r.isWrite
    (r.accessType = .LOAD ∨ r.accessType = .ATOMIC_LS →
      responseWords (access (ram dom) r (u, c)).1 =
        c'.wordsAt dom (u.foundAddress dom c r.address)) ∧
    (r.Stores →
      (access (ram dom) r (u, c)).2.2 =
        c'.writeDoubleword dom (u.foundAddress dom c r.address) r.word0 r.word1
          r.byteMask) := by
  rw [access_of_not_faultsRequest ht h]
  exact ⟨words_complete (toNat_foundAddress_mod _ hal), contents_complete _⟩

/-- An atomic has the rights of a load and of a store. -/
theorem checkFault_of_atomic (h : (checkFault asi true true pte).2 = .NONE) :
    (checkFault asi true false pte).2 = .NONE ∧ (checkFault asi false false pte).2 = .NONE := by
  unfold checkFault at h ⊢
  simp only [Bool.false_eq_true, false_and, if_false, true_and, Bool.not_true] at h ⊢
  by_cases hstore : computeFaultType (computeAccessType asi true) pte = .NONE
  · rw [if_pos hstore] at h
    by_cases hload : computeFaultType (computeAccessType asi false) pte = .NONE
    · exact ⟨hstore, hload⟩
    · rw [if_pos hload] at h
      exact absurd h hload
  · rw [if_neg hstore] at h
    exact absurd h hstore

end Accesses

/-! ## Agreement -/

/-- A request for data. -/
def dataAccess (kind : MemAccessType) (address asi word0 word1 byteMask : Word) :
    VirtualMemoryRequest :=
  { accessType := kind, address := address, asi := asi, word0 := word0, word1 := word1,
    byteMask := byteMask }

/-- The atomic returns what a load returns, and leaves the memory that a store leaves. -/
structure AtomicAgrees {τ : Type} {phys : PhysicalMemory τ} (p : PlainMemory phys) (u : MmuCore)
    (m : τ) (address asi word0 word1 byteMask : Word) : Prop where
  words_eq :
    responseWords
        (access phys (dataAccess .ATOMIC_LS address asi word0 word1 byteMask) (u, m)).1 =
      responseWords (access phys (dataAccess .LOAD address asi word0 word1 byteMask) (u, m)).1
  contents_eq :
    p.contents (access phys (dataAccess .ATOMIC_LS address asi word0 word1 byteMask) (u, m)).2.2 =
      p.contents (access phys (dataAccess .STORE address asi word0 word1 byteMask) (u, m)).2.2

section Condition

variable (dom : Nat → Bool) (u : MmuCore) (c : Words)

/-- A store leaves the word of an entry as it is. -/
def keepsEntry (e : WalkResult) : Bool :=
  !dom (e.phyAddrOfPte.toNat / 4) ||
    u.updatedWord e.pte (c.entryAt dom e.phyAddrOfPte) true == c.entryAt dom e.phyAddrOfPte

/-- The two doublewords are one, or neither is there. -/
def sameDwords (a b : BitVec 64) : Bool :=
  a == b || !dwordPresent dom a && !dwordPresent dom b

/-- Where an atomic agrees with a load and a store: it is not translated; or it is in an ordinary
space, and the data are not the entry whose modified bit it sets; or it is in a pass-through space,
its translation is the address itself, and there is no bit to set. -/
def atomicAgreesAt (address asi : Word) : Bool :=
  let e := u.foundEntry dom c address
  let a := (translationOf address e).physicalAddr
  !u.translates ||
    if asiSpace asi = .ordinary then u.readsSameEntry dom c e a
    else u.keepsEntry dom c e && sameDwords dom a (address.setWidth 64)

theorem sameDwords_iff (a b : BitVec 64) :
    sameDwords dom a b = true ↔
      a = b ∨ dwordPresent dom a = false ∧
        dwordPresent dom b = false := by
  rw [sameDwords, Bool.or_eq_true, beq_iff_eq, Bool.and_eq_true, Bool.not_eq_true',
    Bool.not_eq_true']

theorem updatedMemory_eq_self_iff (e : WalkResult) :
    u.updatedMemory dom c e true = c ↔ u.keepsEntry dom c e = true := by
  rw [updatedMemory_eq, keepsEntry, Bool.or_eq_true, Bool.not_eq_true', beq_iff_eq]
  constructor
  · intro h
    by_cases hp : dom (e.phyAddrOfPte.toNat / 4) = true
    · right
      have hread := congrArg (fun x => x.read dom (e.phyAddrOfPte.toNat / 4)) h
      simp only [read_write, if_true, hp] at hread
      exact hread
    · exact .inl (Bool.not_eq_true _ ▸ hp)
  · rintro (hp | hword)
    · rw [Words.write, hp, if_off]
    · rw [hword]
      exact write_read_self dom c _

end Condition

/-- The spaces of the agreement. -/
theorem asiSpace_of_data (hasi : ordinaryAsi asi ∨ 0x20 ≤ asi.toNat ∧ asi.toNat ≤ 0x2F) :
    asiSpace asi = .ordinary ∨ asiSpace asi = .passThrough := by
  rcases hasi with (rfl | rfl | rfl | rfl) | h
  · exact .inl rfl
  · exact .inl rfl
  · exact .inl rfl
  · exact .inl rfl
  · right
    obtain ⟨hlow, hhigh⟩ := h
    have hasi : asi = BitVec.ofNat 32 asi.toNat := by rw [BitVec.ofNat_toNat, BitVec.setWidth_eq]
    generalize asi.toNat = n at hasi hlow hhigh
    interval_cases n <;> rw [hasi] <;> decide

section Agreement

/-- The agreement over the contents of a memory. -/
def ContentsAgree (dom : Nat → Bool) (u : MmuCore) (c : Words)
    (address asi word0 word1 byteMask : Word) : Prop :=
  let result := fun kind => access (ram dom)
    (dataAccess kind address asi word0 word1 byteMask) (u, c)
  responseWords (result .ATOMIC_LS).1 = responseWords (result .LOAD).1 ∧
    (result .ATOMIC_LS).2.2 = (result .STORE).2.2

theorem atomicAgrees_iff {τ : Type} {phys : PhysicalMemory τ} (p : PlainMemory phys) (u : MmuCore)
    (m : τ) (address asi word0 word1 byteMask : Word) :
    AtomicAgrees p u m address asi word0 word1 byteMask ↔
      ContentsAgree p.dom u (p.contents m) address asi word0 word1 byteMask := by
  have hlift (kind : MemAccessType) :
      access (ram p.dom)
          (dataAccess kind address asi word0 word1 byteMask) (u, p.contents m) =
        p.lift₂ (access phys (dataAccess kind address asi word0 word1 byteMask) (u, m)) :=
    p.lift_mmuAccess _ u m
  unfold ContentsAgree
  dsimp only
  rw [hlift, hlift, hlift]
  exact ⟨fun h => ⟨h.words_eq, h.contents_eq⟩, fun h => ⟨h.1, h.2⟩⟩

variable {dom : Nat → Bool}

/-- Without translation all three go to the address itself. -/
theorem contentsAgree_of_not_translates (hal : address.toNat % 8 = 0)
    (hspace : asiSpace asi = .ordinary ∨ asiSpace asi = .passThrough) (ht : u.translates = false)
    (word0 word1 byteMask : Word) : ContentsAgree dom u c address asi word0 word1 byteMask := by
  have hdata (kind : MemAccessType) :=
    data_untranslated dom (r := dataAccess kind address asi word0 word1 byteMask) (c := c)
      hal hspace (by rw [translatesRequest, ht, Bool.false_and])
  rw [ContentsAgree, (hdata .ATOMIC_LS).1 (.inr rfl), (hdata .ATOMIC_LS).2 (.inr rfl),
    (hdata .LOAD).1 (.inl rfl), (hdata .STORE).2 (.inl rfl)]
  exact ⟨rfl, rfl⟩

section Translated

variable (ht : u.translates = true) (hf : u.faults dom c address asi true true = false)

include ht hf

theorem atomic_translated (hal : address.toNat % 8 = 0) (word0 word1 byteMask : Word) :
    responseWords (access (ram dom)
        (dataAccess .ATOMIC_LS address asi word0 word1 byteMask) (u, c)).1 =
      (u.updatedMemory dom c (u.foundEntry dom c address) true).wordsAt dom
        (u.foundAddress dom c address) ∧
    (access (ram dom)
        (dataAccess .ATOMIC_LS address asi word0 word1 byteMask) (u, c)).2.2 =
      (u.updatedMemory dom c (u.foundEntry dom c address) true).writeDoubleword dom
        (u.foundAddress dom c address) word0 word1 byteMask := by
  have htr : u.translatesRequest (dataAccess .ATOMIC_LS address asi word0 word1 byteMask)
      = true := by
    rw [translatesRequest, ht]
    rfl
  have hdata := data_translated dom hal htr (by rw [faultsRequest, htr, Bool.true_and]; exact hf)
  exact ⟨hdata.1 (.inr rfl), hdata.2 (.inr rfl)⟩

/-- Through a page, in an ordinary space, the memory is the same and the words are unless they are
the entry's. -/
theorem contentsAgree_iff_of_ordinary (hal : address.toNat % 8 = 0)
    (hspace : asiSpace asi = .ordinary) (word0 word1 byteMask : Word) :
    ContentsAgree dom u c address asi word0 word1 byteMask ↔
      u.readsSameEntry dom c (u.foundEntry dom c address)
        (u.foundAddress dom c address) = true := by
  have hnone : (checkFault asi true true (u.foundEntry dom c address).pte).2 = .NONE := by
    simpa [faults, ht] using hf
  obtain ⟨hstore, hload⟩ := checkFault_of_atomic hnone
  have hdata (kind : MemAccessType) (hk : kind = .LOAD ∨ kind = .STORE) :=
    data_translated dom (u := u) (c := c)
      (r := dataAccess kind address asi word0 word1 byteMask) hal
      (by
        rw [translatesRequest, ht, Bool.true_and]
        rcases hk with rfl | rfl <;> exact beq_iff_eq.2 hspace)
      (by
        rw [faultsRequest, faults, ht, Bool.true_and, Bool.and_eq_false_iff, bne_eq_false_iff_eq]
        rcases hk with rfl | rfl
        · exact .inr hload
        · exact .inr hstore)
  obtain ⟨hwords, hmem⟩ := atomic_translated ht hf hal word0 word1 byteMask
  rw [ContentsAgree, hwords, hmem, (hdata .LOAD (.inl rfl)).1 (.inl rfl),
    (hdata .STORE (.inr rfl)).2 (.inl rfl), ← wordsAt_updatedMemory_iff]
  exact ⟨fun h => h.1, fun h => ⟨h, rfl⟩⟩

/-- In a pass-through space load and store go to the address itself. -/
theorem contentsAgree_iff_of_passThrough (hal : address.toNat % 8 = 0)
    (hspace : asiSpace asi = .passThrough) :
    (∀ word0 word1 byteMask, ContentsAgree dom u c address asi word0 word1 byteMask) ↔
      u.keepsEntry dom c (u.foundEntry dom c address) = true ∧
        sameDwords dom (u.foundAddress dom c address) (address.setWidth 64) = true := by
  have hiff (word0 word1 byteMask : Word) :
      ContentsAgree dom u c address asi word0 word1 byteMask ↔
        (u.updatedMemory dom c (u.foundEntry dom c address) true).wordsAt dom
            (u.foundAddress dom c address) = c.wordsAt dom (address.setWidth 64) ∧
        (u.updatedMemory dom c (u.foundEntry dom c address) true).writeDoubleword dom
            (u.foundAddress dom c address) word0 word1 byteMask =
          c.writeDoubleword dom (address.setWidth 64) word0 word1 byteMask := by
    have hdata (kind : MemAccessType) (hk : kind = .LOAD ∨ kind = .STORE) :=
      data_untranslated dom (u := u) (c := c)
        (r := dataAccess kind address asi word0 word1 byteMask) hal (.inr hspace)
        (by
          rw [translatesRequest_eq (.inr hk), dataAccess, hspace]
          exact Bool.and_false _)
    obtain ⟨hwords, hmem⟩ := atomic_translated ht hf hal word0 word1 byteMask
    rw [ContentsAgree, hwords, hmem, (hdata .LOAD (.inl rfl)).1 (.inl rfl),
      (hdata .STORE (.inr rfl)).2 (.inl rfl)]
    rfl
  have hphysical := toNat_foundAddress_mod dom (u := u) (c := c) hal
  have haddress := toNat_setWidth_mod hal
  simp only [hiff, ← updatedMemory_eq_self_iff, sameDwords_iff]
  rw [← writes_eq_iff c _ hphysical haddress]
  refine ⟨fun h word0 word1 byteMask => (h word0 word1 byteMask).2,
    fun h word0 word1 byteMask => ⟨?_, h word0 word1 byteMask⟩⟩
  obtain ⟨hc, hab | ⟨ha, hb⟩⟩ := (writes_eq_iff c _ hphysical haddress).1 h
  · rw [hc, hab]
  · rw [wordsAt_of_absent ha, wordsAt_of_absent hb]

end Translated

end Agreement

end MmuCore

/-- An atomic at a doubleword address, in the spaces 8 to 0xB and 0x20 to 0x2F, that does not fault
agrees with the load and the store for all data just where `atomicAgreesAt` says so. -/
theorem atomic_agrees_iff {τ : Type} {phys : PhysicalMemory τ} (p : PlainMemory phys) (u : MmuCore)
    (m : τ) {address asi : Word} (hal : address.toNat % 8 = 0)
    (hasi : ordinaryAsi asi ∨ 0x20 ≤ asi.toNat ∧ asi.toNat ≤ 0x2F)
    (hf : u.faults p.dom (p.contents m) address asi true true = false) :
    (∀ word0 word1 byteMask, AtomicAgrees p u m address asi word0 word1 byteMask) ↔
      u.atomicAgreesAt p.dom (p.contents m) address asi = true := by
  simp only [atomicAgrees_iff]
  have hspace := asiSpace_of_data hasi
  cases ht : u.translates with
  | false =>
    refine iff_of_true (fun word0 word1 byteMask =>
      contentsAgree_of_not_translates hal hspace ht word0 word1 byteMask) ?_
    rw [atomicAgreesAt, ht]
    rfl
  | true =>
    rw [atomicAgreesAt, ht, Bool.not_true, Bool.false_or]
    rcases hspace with hord | hpass
    · rw [if_pos hord]
      simp only [contentsAgree_iff_of_ordinary ht hf hal hord]
      exact ⟨fun h => h 0 0 0, fun h _ _ _ => h⟩
    · rw [if_neg (by rw [hpass]; decide), Bool.and_eq_true]
      exact contentsAgree_iff_of_passThrough ht hf hal hpass

/-- One page for all addresses, at physical address 0x10000, which has been referenced and modified.
-/
def shiftedPage : MemCore × Unit := pageBus 0x106E

/-- An atomic on supervisor data agrees. -/
theorem atomic_agrees_supervisor_data :
    mmuOn.faults plain.dom (plain.contents shiftedPage) 8
        asiSupervisorData true true = false ∧
      AtomicAgrees plain mmuOn shiftedPage 8 asiSupervisorData 1 2 0xFF := by
  have hf : mmuOn.faults plain.dom (plain.contents shiftedPage) 8
      asiSupervisorData true true = false := by decide
  exact ⟨hf, (atomic_agrees_iff plain mmuOn shiftedPage (by decide)
    (.inl (.inr (.inr (.inr rfl)))) hf).2 (by decide) 1 2 0xFF⟩

/-- In a pass-through space the load reads address 0, and the atomic, which is translated, 0x10000.
-/
theorem atomic_passThrough_translated :
    let phys := physicalMemory {} noDevices
    mmuOn.faults plain.dom (plain.contents shiftedPage) 0 0x20 true
        true = false ∧
      (access phys (dataAccess .LOAD 0 0x20 0 0 0xFF)
        (mmuOn, shiftedPage)).1.readWord0 = 0x106E ∧
      (access phys (dataAccess .ATOMIC_LS 0 0x20 0 0 0xFF)
        (mmuOn, shiftedPage)).1.readWord0 = 0 ∧
      (access phys (dataAccess .ATOMIC_LS 0 0x20 0 0 0xFF)
        (mmuOn, shiftedPage)).1.mae = false := by
  refine ⟨by decide, by decide, by decide, by decide⟩

end SparcV8
