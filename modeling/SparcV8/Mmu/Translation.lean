import SparcV8.Mmu.Refinement

/-!
# Translation over the word memory

Over the abstract word memory a walk is a function of the contents, and so are the entry an access
finds, its fault, and the word its update writes.
-/

namespace SparcV8

open BitVec Words

/-! ## Words -/

variable (a : BitVec 64)

theorem lowHalf_eq : lowHalf a = decide (a.toNat / 4 % 2 = 0) := by
  have hand : (a &&& 0x4).toNat = (a.toNat.testBit 2).toNat * 2 ^ 2 := by
    rw [toNat_and, ← Nat.and_two_pow]
    rfl
  rw [lowHalf, Bool.eq_iff_iff, beq_iff_eq, ← toNat_inj, hand, Nat.testBit_eq_decide_div_mod_eq]
  rcases Nat.mod_two_eq_zero_or_one (a.toNat / 4) with h | h <;> simp [h]

theorem toNat_alignedDword : (alignedDword a).toNat = a.toNat / 8 * 8 :=
  toNat_and_not_low a 3

namespace Words

variable (dom : Nat → Bool) (c : Words)

/-- The word at a physical address. -/
def entryAt (a : BitVec 64) : Word := c.read dom (a.toNat / 4)

theorem write_read_self (i : Nat) : c.write dom i (c.read dom i) = c := by
  unfold write read
  split <;> simp

theorem word_write (i j : Nat) (word : Word) :
    (c.write dom i word).word j = if j = i ∧ dom i = true then word else c.word j := by
  unfold write
  by_cases hi : dom i = true
  · by_cases hj : j = i
    · subst hj
      simp [hi]
    · simp [hi, hj]
  · simp [hi]

theorem readPhysicalWord_eq : readPhysicalWord (ram dom) a c = ((c.entryAt dom a, false), c) := by
  have ha := toNat_alignedDword a
  simp only [readPhysicalWord, ram, access, entryAt, selectWord, lowHalf_eq, ha]
  by_cases h : a.toNat / 4 % 2 = 0
  · have hi : a.toNat / 8 * 8 / 4 = a.toNat / 4 := by omega
    simp [h, hi]
  · have hi : a.toNat / 8 * 8 / 4 + 1 = a.toNat / 4 := by omega
    simp [h, hi]

theorem readPageTableEntryFromMemory_eq :
    readPageTableEntryFromMemory (ram dom) a c = (c.entryAt dom a, c) := by
  rw [readPageTableEntryFromMemory, readPhysicalWord_eq]

theorem writePageTableEntryToMemory_eq (value : Word) :
    writePageTableEntryToMemory (ram dom) a value c =
      c.write dom (a.toNat / 4) value := by
  have ha := toNat_alignedDword a
  have hlow : readBits ((setWidth 8 (0x0F : Word)).setWidth 32) 3 0 = 0xF := by decide
  have hlow' : readBits ((setWidth 8 (0x0F : Word)).setWidth 32) 7 4 = 0 := by decide
  have hhigh : readBits ((setWidth 8 (0xF0 : Word)).setWidth 32) 3 0 = 0 := by decide
  have hhigh' : readBits ((setWidth 8 (0xF0 : Word)).setWidth 32) 7 4 = 0xF := by decide
  simp only [writePageTableEntryToMemory, writePhysicalMaskedDoubleWord, ram, access,
    lowHalf_eq, ha, lowWord_doubleword, highWord_doubleword]
  -- the other half of the doubleword is written back as it is
  by_cases h : a.toNat / 4 % 2 = 0
  · have hi : a.toNat / 8 * 8 / 4 = a.toNat / 4 := by omega
    have hother : c.read dom (a.toNat / 4 + 1) =
        (c.write dom (a.toNat / 4) value).read dom (a.toNat / 4 + 1) := by
      rw [read_write, if_neg (by omega)]
    simp only [h, decide_true, if_true, hi, hlow, hlow', mergeMaskedBytes_full,
      mergeMaskedBytes_empty]
    rw [hother, write_read_self]
  · have hi : a.toNat / 8 * 8 / 4 + 1 = a.toNat / 4 := by omega
    simp only [h, decide_false, if_off, hi, hhigh, hhigh',
      mergeMaskedBytes_full, mergeMaskedBytes_empty, write_read_self]

end Words

/-! ## Walks -/

/-- Where a walk ends, when an entry is read by `read`. -/
def Walk.find (read : BitVec 64 → Word) (stopAtLevel : Level) : Nat → Walk → WalkResult
  | 0, w => w.result (read w.curPhyAddr)
  | steps + 1, w =>
    match w.recordWalkStep (read w.curPhyAddr) stopAtLevel with
    | some w' => w'.find read stopAtLevel steps
    | none => w.result (read w.curPhyAddr)

theorem runWalk_eq (dom : Nat → Bool) (stopAtLevel : Level) (steps : Nat) (w : Walk) (c : Words) :
    runWalk (ram dom) stopAtLevel steps w c =
      (w.find (c.entryAt dom) stopAtLevel steps, c) := by
  induction steps generalizing w with
  | zero => rw [runWalk, readPageTableEntryFromMemory_eq, Walk.find]
  | succ steps ih =>
    rw [runWalk, readPageTableEntryFromMemory_eq, Walk.find]
    dsimp only
    cases w.recordWalkStep (c.entryAt dom w.curPhyAddr) stopAtLevel with
    | none => rfl
    | some w' => exact ih w'

/-- A walk returns the word at the address it returns. -/
theorem Walk.pte_find (read : BitVec 64 → Word) (stopAtLevel : Level) (steps : Nat) (w : Walk) :
    (w.find read stopAtLevel steps).pte = read (w.find read stopAtLevel steps).phyAddrOfPte := by
  induction steps generalizing w with
  | zero => rfl
  | succ steps ih =>
    rw [Walk.find]
    cases w.recordWalkStep (read w.curPhyAddr) stopAtLevel with
    | none => rfl
    | some w' => exact ih w'

namespace MmuCore

variable (dom : Nat → Bool) (u : MmuCore) (c : Words)

/-- Where a walk for an address in the current context ends. -/
def walkEnd (va : Word) : WalkResult :=
  (u.beginWalk va u.contextRegister).find (c.entryAt dom) 3 3

/-- The entry an access to an address uses. -/
def foundEntry (va : Word) : WalkResult :=
  (u.tlbLookup va u.contextRegister).getD (u.walkEnd dom c va)

/-- The access is translated and the entry it finds refuses it. -/
def faults (va asi : Word) (isWrite isAtomic : Bool) : Bool :=
  u.translates && (checkFault asi isWrite isAtomic (u.foundEntry dom c va).pte).2 != .NONE

variable (r : WalkResult)

/-- The word that an update of the two bits writes, if there is one. -/
def writtenEntry (isWrite : Bool) : Option Word :=
  (computeAndStageRMUpdate r.pte isWrite).map fun staged =>
    if u.atomicRMUpdates then
      stageRMUpdateOnCurrentPte r.pte staged (c.entryAt dom r.phyAddrOfPte)
    else staged

/-- The memory after that update. -/
def updatedMemory (isWrite : Bool) : Words :=
  match u.writtenEntry dom c r isWrite with
  | none => c
  | some word => c.write dom (r.phyAddrOfPte.toNat / 4) word

/-- The MMU after a translation: filled after a miss, and the entry updated. -/
def afterTranslation (va : Word) (r : WalkResult) (hit isWrite : Bool) : MmuCore :=
  let u := (u.commitTranslation va u.contextRegister r hit).1
  match computeAndStageRMUpdate r.pte isWrite with
  | none => u
  | some staged => u.commitRMTlbUpdate va u.contextRegister r.level staged

/-- What a translation through an entry returns. -/
def translationOf (va : Word) (r : WalkResult) : Translation :=
  { physicalAddr := constructPhysicalAddr r.pte r.level va, cacheable := Pte.cacheable r.pte != 0,
    acc := Pte.acc r.pte }

theorem findEntry_eq (va : Word) :
    u.findEntry (ram dom) va c =
      (u.foundEntry dom c va, (u.tlbLookup va u.contextRegister).isSome, c) := by
  unfold findEntry foundEntry
  cases u.tlbLookup va u.contextRegister with
  | some r => rfl
  | none =>
    simp only [runWalk_eq]
    rfl

theorem updateRM_eq (va : Word) (r : WalkResult) (isWrite : Bool) :
    u.updateRM (ram dom) va r isWrite c =
      (match computeAndStageRMUpdate r.pte isWrite with
        | none => u
        | some staged => u.commitRMTlbUpdate va u.contextRegister r.level staged,
      u.updatedMemory dom c r isWrite) := by
  unfold updateRM updatedMemory writtenEntry
  cases computeAndStageRMUpdate r.pte isWrite with
  | none => rfl
  | some staged =>
    simp only [readPageTableEntryFromMemory_eq, writePageTableEntryToMemory_eq, Option.map_some]
    cases u.atomicRMUpdates <;> rfl

variable (va context : Word)

theorem atomicRMUpdates_commitTranslation (r : WalkResult) (hit : Bool) :
    (u.commitTranslation va context r hit).1.atomicRMUpdates = u.atomicRMUpdates := by
  unfold commitTranslation
  split <;> rfl

theorem updatedMemory_commitTranslation (r : WalkResult) (hit isWrite : Bool) :
    (u.commitTranslation va context r hit).1.updatedMemory dom c r isWrite =
      u.updatedMemory dom c r isWrite := by
  simp only [updatedMemory, writtenEntry, atomicRMUpdates_commitTranslation]

theorem not_translates : (!u.mmuIsPresent || !u.mmuEnabled) = !u.translates :=
  (Bool.not_and _ _).symm

variable {τ : Type}

theorem translate_of_not_translates (phys : PhysicalMemory τ) (u : MmuCore) (m : τ)
    (h : u.translates = false) (va asi : Word) (isFetch isWrite isAtomic : Bool) :
    u.translate phys va asi isFetch isWrite isAtomic m =
      (some { physicalAddr := va.setWidth 64, cacheable := !u.mmuIsPresent || u.alwaysCacheable,
              acc := 3 }, u, m) := by
  rw [translate, if_pos (by rw [not_translates, h]; rfl)]

/-- While the MMU is off, an address that would be translated is passed on. -/
theorem follow_of_not_translatesRequest (phys : PhysicalMemory τ) {u : MmuCore}
    {r : VirtualMemoryRequest} (h : u.translatesRequest r = false)
    (hroute : u.route r = .translated) (m : τ) :
    u.follow phys r m .translated =
      u.complete phys r { physicalAddr := r.address.setWidth 64,
                          cacheable := !u.mmuIsPresent || u.alwaysCacheable, acc := 3 } m := by
  rw [translatesRequest_eq_route, hroute, beq_self_eq_true, Bool.and_true] at h
  rw [follow, translateRequest, translate_of_not_translates _ u _ h]

variable {isWrite isAtomic : Bool}

theorem translate_of_faults {va asi : Word} (h : u.faults dom c va asi isWrite isAtomic = true)
    (isFetch : Bool) :
    u.translate (ram dom) va asi isFetch isWrite isAtomic c =
      (none, u.recordFault (checkFault asi isWrite isAtomic (u.foundEntry dom c va).pte).1
        (checkFault asi isWrite isAtomic (u.foundEntry dom c va).pte).2
        (u.foundEntry dom c va).level va isFetch, c) := by
  simp only [faults, Bool.and_eq_true, bne_iff_ne, ne_eq] at h
  rw [translate, if_neg (by rw [not_translates, h.1]; decide)]
  simp [findEntry_eq, checkAndRecordFault, if_neg h.2]

theorem translate_of_not_faults {va asi : Word} (ht : u.translates = true)
    (h : u.faults dom c va asi isWrite isAtomic = false) (isFetch : Bool) :
    u.translate (ram dom) va asi isFetch isWrite isAtomic c =
      (some (translationOf va (u.foundEntry dom c va)),
        u.afterTranslation va (u.foundEntry dom c va)
          (u.tlbLookup va u.contextRegister).isSome isWrite,
        u.updatedMemory dom c (u.foundEntry dom c va) isWrite) := by
  have hnone : (checkFault asi isWrite isAtomic (u.foundEntry dom c va).pte).2 = .NONE := by
    simpa [faults, ht] using h
  rw [translate, if_neg (by rw [not_translates, ht]; decide)]
  simp only [findEntry_eq, checkAndRecordFault, if_pos hnone, if_off,
    updateRM_eq, updatedMemory_commitTranslation]
  rfl

/-- A translation, by the entry found. -/
theorem translate_eq (phys : PhysicalMemory τ) (ht : u.translates = true) (va asi : Word)
    (isFetch isWrite isAtomic : Bool) (m : τ) :
    u.translate phys va asi isFetch isWrite isAtomic m =
      let x := u.findEntry phys va m
      let fault := checkFault asi isWrite isAtomic x.1.pte
      if fault.2 = .NONE then
        (some (translationOf va x.1),
          updateRM phys (u.commitTranslation va u.contextRegister x.1 x.2.1).1 va x.1 isWrite x.2.2)
      else (none, u.recordFault fault.1 fault.2 x.1.level va isFetch, x.2.2) := by
  rw [translate, if_neg (by rw [not_translates, ht]; decide)]
  dsimp only [checkAndRecordFault]
  split
  · simp only [if_off]
    rfl
  · rfl

end MmuCore

end SparcV8
