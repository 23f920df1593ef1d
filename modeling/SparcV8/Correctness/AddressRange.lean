import SparcV8.Core.Machine.Transition
import SparcV8.Correctness.TlbEntries
import SparcV8.Mmu.Access

/-!
# Physical addresses over main memory alone

Without the system bus main memory gets the addresses of the MMU, and asserts that each is below `2
^ 32`. Page tables give addresses of 36 bits, so the assertion holds exactly if bits 31:28 of the
entries and pointers that the requests meet are clear.
-/

namespace SparcV8

open MainMemory BitVec Bool Walk Tlb Option

/-! ## Main memory with its assertion -/

/-- The assertion of main memory. -/
def fitsMemory (a : BitVec 64) : Bool := decide (a.toNat < 2 ^ 32)

/-- Main memory below an MMU, and whether every assertion so far has held. After a failed one the
upper bits of the address are lost. -/
def MainMemory.physicalMemory : PhysicalMemory (MemCore × Bool) where
  access request x :=
    let y := accessAt (request.physicalAddress.setWidth 32) request x.1
    (y.1, (y.2, x.2 && (access request x.1).isSome))

theorem toMemCoreAddress_eq (a : BitVec 64) :
    toMemCoreAddress a = if fitsMemory a then some (a.setWidth 32) else none := by
  have hshift : a >>> 32 = 0 ↔ a.toNat < 2 ^ 32 := by
    rw [← toNat_inj, BitVec.toNat_ushiftRight, Nat.shiftRight_eq_div_pow]
    change a.toNat / 2 ^ 32 = 0 ↔ _
    omega
  rw [toMemCoreAddress, fitsMemory]
  simp only [hshift, decide_eq_true_eq]

theorem fitsMemory_alignedDword (a : BitVec 64) : fitsMemory (alignedDword a) = fitsMemory a := by
  rw [fitsMemory, fitsMemory, toNat_alignedDword, decide_eq_decide]
  omega

theorem fitsMemory_setWidth (va : Word) : fitsMemory (va.setWidth 64) = true := by
  have hlt := va.isLt
  rw [fitsMemory, toNat_setWidth_of_le (by decide), decide_eq_true hlt]

section Physical

variable (a : BitVec 64) (x : MemCore × Bool)
variable (request : PhysicalMemoryRequest)

/-- Every access checks its address. -/
theorem checked_access :
    (physicalMemory.access request x).2.2 =
      (x.2 && fitsMemory request.physicalAddress) := by
  simp only [physicalMemory, access, toMemCoreAddress_eq]
  cases fitsMemory request.physicalAddress <;> rfl

theorem memory_read {request : PhysicalMemoryRequest} (h : request.accessType = .READ) :
    (physicalMemory.access request x).2.1 = x.1 := by
  simp only [physicalMemory, accessAt, h]

/-- A page table entry in main memory. -/
def MemCore.entryAt (m : MemCore) (a : BitVec 64) : Word := m.readWord (a.setWidth 32)

/-- The word of a doubleword in the flat memory. -/
theorem selectWord_readWord (a : BitVec 64) (m : MemCore) :
    selectWord a (doubleword (m.readWord ((alignedDword a).setWidth 32 + 4))
      (m.readWord ((alignedDword a).setWidth 32))) = m.entryAt a := by
  have haligned : ((alignedDword a).setWidth 32 : Word).toNat =
      a.toNat / 8 * 8 % 2 ^ 32 := by
    rw [toNat_setWidth, toNat_alignedDword]
  have hplus : ((alignedDword a).setWidth 32 + 4 : Word).toNat =
      a.toNat / 8 * 8 % 2 ^ 32 + 4 := by
    rw [BitVec.toNat_add, haligned, show (4 : Word).toNat = 4 from rfl]
    omega
  have ha : (a.setWidth 32 : Word).toNat = a.toNat % 2 ^ 32 := toNat_setWidth ..
  have hindex : ∀ b b' : Word, b.toNat / 4 = b'.toNat / 4 → m.readWord b = m.readWord b' := by
    intro b b' hb
    simp only [MemCore.readWord, Nat.shiftRight_eq_div_pow]
    rw [hb]
  rw [selectWord, lowHalf_eq, lowWord_doubleword, highWord_doubleword]
  by_cases hlow : a.toNat / 4 % 2 = 0
  · rw [decide_eq_true hlow, if_pos rfl]
    exact hindex _ _ (by rw [haligned, ha]; omega)
  · rw [decide_eq_false hlow, if_off]
    exact hindex _ _ (by rw [hplus, ha]; omega)

theorem readPhysicalWord_main :
    readPhysicalWord physicalMemory a x =
      ((x.1.entryAt a, false), (x.1, x.2 && fitsMemory a)) := by
  rw [← fitsMemory_alignedDword, ← checked_access x
    { accessType := .READ, lock := false, physicalAddress := alignedDword a, data := 0,
      byteMask := wordMask a }, ← selectWord_readWord]
  rfl

theorem readPageTableEntryFromMemory_main :
    readPageTableEntryFromMemory physicalMemory a x =
      (x.1.entryAt a, (x.1, x.2 && fitsMemory a)) := by
  rw [readPageTableEntryFromMemory, readPhysicalWord_main]

theorem readPhysicalDoubleword_main (mask : BitVec 8) :
    (readPhysicalDoubleword physicalMemory a mask x).2 = (x.1, x.2 && fitsMemory a) := by
  refine Prod.ext (memory_read x rfl) ?_
  rw [← fitsMemory_alignedDword a]
  exact checked_access x _

variable (word0 word1 mask : Word)

theorem checked_write :
    (writePhysicalMaskedDoubleWord physicalMemory a word0 word1 mask x).2.2 =
      (x.2 && fitsMemory a) :=
  checked_access x _

theorem checked_atomic :
    (atomicReadModifyWritePhysical physicalMemory a word0 word1 mask x).2.2 =
      (x.2 && fitsMemory a) := by
  rw [atomicReadModifyWritePhysical]
  refine (checked_access _ _).trans ?_
  rw [checked_access, Bool.and_assoc, Bool.and_self]

theorem checked_writeEntry (value : Word) :
    (writePageTableEntryToMemory physicalMemory a value x).2 =
      (x.2 && fitsMemory a) := by
  rw [← fitsMemory_alignedDword a]
  exact checked_access x _

theorem checked_readData (readSecondWord : Bool) (mask : BitVec 8) :
    (MmuCore.readData physicalMemory a readSecondWord mask x).2.2 =
      (x.2 && fitsMemory a) := by
  cases readSecondWord with
  | false => rw [MmuCore.readData, if_off, readPhysicalWord_main]
  | true => rw [MmuCore.readData, if_pos rfl, readPhysicalDoubleword_main]

end Physical

/-! ## Entries -/

/-- Bits 31:28 of a pointer or a leaf, bits 35:32 of the address, are clear. -/
def isLow (entry : Word) : Bool := readBits entry 31 28 == 0

theorem isLow_iff (entry : Word) : isLow entry = true ↔ entry.toNat < 2 ^ 28 := by
  have hlt := entry.isLt
  rw [isLow, beq_iff_eq, ← toNat_inj, toNat_readBits _ (by decide)]
  change entry.toNat / 2 ^ 28 % 16 = 0 ↔ _
  omega

theorem fitsMemory_or (a b : BitVec 64) :
    fitsMemory (a ||| b) = (fitsMemory a && fitsMemory b) := by
  rw [Bool.eq_iff_iff, and_eq_true]
  simp only [fitsMemory, decide_eq_true_eq, BitVec.toNat_or]
  exact ⟨fun h => ⟨Nat.left_le_or.trans_lt h, Nat.right_le_or.trans_lt h⟩,
    fun h => Nat.or_lt_two_pow h.1 h.2⟩

theorem fitsMemory_shiftLeft (v : Word) {k : Nat} (hk : k ≤ 32) :
    fitsMemory (v.setWidth 64 <<< k) = decide (v.toNat * 2 ^ k < 2 ^ 32) := by
  have hlt : v.toNat * 2 ^ k < 2 ^ 64 :=
    (Nat.mul_lt_mul_of_pos_right v.isLt (Nat.two_pow_pos k)).trans_le
      (Nat.mul_le_mul_left _ (Nat.pow_le_pow_right (by decide) hk))
  rw [fitsMemory, BitVec.toNat_shiftLeft, toNat_setWidth_of_le (by decide),
    Nat.shiftLeft_eq, Nat.mod_eq_of_lt hlt]

/-- The address of a table entry, by the pointer and the index. -/
theorem fitsMemory_getPhyAddrFromPTD (ptd index : Word) :
    fitsMemory (getPhyAddrFromPTD ptd index) = (isLow ptd && decide (index.toNat < 2 ^ 30)) := by
  have hptd : (ptd &&& ~~~3).toNat = ptd.toNat / 4 * 4 := toNat_and_not_low ptd 2
  rw [getPhyAddrFromPTD, fitsMemory_or, fitsMemory_shiftLeft _ (by decide),
    fitsMemory_shiftLeft _ (by decide), hptd, Bool.eq_iff_iff]
  simp only [and_eq_true, decide_eq_true_eq, isLow_iff]
  omega

/-- The address of the data, by the leaf. -/
theorem fitsMemory_constructPhysicalAddr (pte : Word) (level : Level) (va : Word) :
    fitsMemory (constructPhysicalAddr pte level va) = isLow pte := by
  rw [constructPhysicalAddr, fitsMemory_or, fitsMemory_setWidth, Bool.and_true,
    fitsMemory_shiftLeft _ (by decide), Bool.eq_iff_iff, isLow_iff, decide_eq_true_eq, Pte.ppn,
    toNat_readBits _ (by decide)]
  have hlt := pte.isLt
  change pte.toNat / 2 ^ 8 % 2 ^ 24 * 2 ^ 12 < 2 ^ 32 ↔ _
  omega

/-! ## Walks -/

namespace Walk

/-- The pointers that a walk follows are low. -/
def pointersLow (read : BitVec 64 → Word) (stopAtLevel : Level) : Nat → Walk → Bool
  | 0, _ => true
  | steps + 1, w =>
    match w.recordWalkStep (read w.curPhyAddr) stopAtLevel with
    | some w' => isLow (read w.curPhyAddr) && w'.pointersLow read stopAtLevel steps
    | none => true

/-- The indices of a walk are parts of an address. -/
def Narrow (w : Walk) : Prop := ∀ level, (w.indexAt level).toNat < 2 ^ 30

theorem narrow_start (ctp context va : Word) : (start ctp context va).Narrow := by
  intro level
  have hlt {h l : Nat} (hb : h < 32 ∧ l ≤ h) (hw : h - l < 30) :
      (readBits va h l).toNat < 2 ^ 30 :=
    (toNat_readBits_lt va hb).trans_le (Nat.pow_le_pow_right (by decide) hw)
  unfold indexAt
  split_ifs
  · exact hlt (by decide) (by decide)
  · exact hlt (by decide) (by decide)
  · exact hlt (by decide) (by decide)

variable {w w' : Walk} {pte : Word} {stopAtLevel : Level}

theorem Narrow.step (hw : w.Narrow) (h : w.recordWalkStep pte stopAtLevel = some w') :
    w'.Narrow ∧ fitsMemory w'.curPhyAddr = isLow pte := by
  obtain ⟨-, hindex, haddr⟩ := recordWalkStep_eq_some h
  refine ⟨fun level => by rw [hindex]; exact hw level, ?_⟩
  rw [haddr, fitsMemory_getPhyAddrFromPTD, decide_eq_true (hw _), Bool.and_true]

/-- A walk through low pointers ends at an entry that fits. -/
theorem fitsMemory_find (hw : w.Narrow) (read : BitVec 64 → Word) (steps : Nat)
    (hfits : fitsMemory w.curPhyAddr = true) (hlow : w.pointersLow read stopAtLevel steps = true) :
    fitsMemory (w.find read stopAtLevel steps).phyAddrOfPte = true := by
  induction steps generalizing w with
  | zero => exact hfits
  | succ steps ih =>
    rw [pointersLow] at hlow
    rw [find]
    cases hstep : w.recordWalkStep (read w.curPhyAddr) stopAtLevel with
    | none => exact hfits
    | some w' =>
      rw [hstep, and_eq_true] at hlow
      obtain ⟨hnarrow, hfits'⟩ := hw.step hstep
      exact ih hnarrow (hfits'.trans hlow.1) hlow.2

end Walk

theorem runWalk_main {w : Walk} (hw : w.Narrow) (stopAtLevel : Level) (steps : Nat) (m : MemCore)
    (ok : Bool) :
    runWalk physicalMemory stopAtLevel steps w (m, ok) =
      (w.find m.entryAt stopAtLevel steps,
        (m, ok && (fitsMemory w.curPhyAddr && w.pointersLow m.entryAt stopAtLevel steps))) := by
  induction steps generalizing w ok with
  | zero =>
    rw [runWalk, readPageTableEntryFromMemory_main, find, pointersLow, Bool.and_true]
  | succ steps ih =>
    rw [runWalk, readPageTableEntryFromMemory_main, find, pointersLow]
    dsimp only
    cases hstep : w.recordWalkStep (m.entryAt w.curPhyAddr) stopAtLevel with
    | none => rw [Bool.and_true]
    | some w' =>
      obtain ⟨hnarrow, hfits⟩ := hw.step hstep
      exact (ih hnarrow _).trans (by rw [hfits, Bool.and_assoc])

namespace MmuCore

variable (m : MemCore) (u : MmuCore)
variable (va : Word)

/-- The entry an access to an address uses, over main memory. -/
def entryOver : WalkResult :=
  (u.tlbLookup va u.contextRegister).getD
    ((u.beginWalk va u.contextRegister).find m.entryAt 3 3)

/-- The context table pointer, the context and the pointers of a walk are low. -/
def walkLow (stopAtLevel : Level) : Bool :=
  isLow u.contextTablePointerRegister && decide (u.contextRegister.toNat < 2 ^ 30) &&
    (u.beginWalk va u.contextRegister).pointersLow m.entryAt stopAtLevel 3

/-- The same where the TLB has no entry for an address. -/
def tablesLow : Bool := (u.tlbLookup va u.contextRegister).isSome || u.walkLow m va 3

/-- The same for a probe. -/
def probeLow : Bool :=
  let probeType := (readBits va 11 8).toNat
  if probeType = 4 then u.tablesLow m va
  else decide (3 < probeType) || u.walkLow m va (Fin.ofNat 4 (3 - probeType))

/-- The request goes to no data through the leaf, or the leaf is low. -/
def leafLow (r : VirtualMemoryRequest) (pte : Word) : Bool :=
  match r.accessType with
  | .READ_LINE => r.byteMask == 0 || isLow pte
  | .FLUSH | .NO_ACCESS => true
  | _ => isLow pte

/-- Bits 31:28 are clear in the context table pointer and in what a request follows: the pointers of
its walk and, if it is not refused, the leaf that leads to its data. -/
def entriesLow (r : VirtualMemoryRequest) : Bool :=
  if u.translatesRequest r then
    u.tablesLow m r.address &&
      ((checkFault r.asi r.isWrite r.isAtomic
          (u.entryOver m r.address).pte).2 != .NONE ||
        leafLow r (u.entryOver m r.address).pte)
  else if u.mmuIsPresent && (r.accessType == .IFETCH || r.accessType == .LOAD) &&
      asiSpace r.asi == .flushProbe then
    u.probeLow m r.address
  else true

/-- The data of a request lie below `2 ^ 32`, or it has none. A line is read where main memory is
mapped only. -/
def dataFits (r : VirtualMemoryRequest) (t : Translation) : Bool :=
  match r.accessType with
  | .READ_LINE =>
    (t.cacheable && u.isCacheableTarget t.physicalAddr) || r.byteMask == 0 ||
      fitsMemory t.physicalAddr
  | .FLUSH | .NO_ACCESS => true
  | _ => fitsMemory t.physicalAddr

/-- The entries of the TLB come from below `2 ^ 32`. -/
def EntriesFit : Prop := ∀ level e, u.tlb.Holds level e → fitsMemory e.phyAddrOfPte = true

theorem fitsMemory_beginWalk (context : Word) :
    fitsMemory (u.beginWalk va context).curPhyAddr =
      (isLow u.contextTablePointerRegister && decide (context.toNat < 2 ^ 30)) :=
  fitsMemory_getPhyAddrFromPTD _ _

theorem findEntry_main (va : Word) (ok : Bool) :
    u.findEntry physicalMemory va (m, ok) =
      (u.entryOver m va, (u.tlbLookup va u.contextRegister).isSome,
        (m, ok && u.tablesLow m va)) := by
  unfold findEntry entryOver tablesLow
  cases u.tlbLookup va u.contextRegister with
  | some r => exact congrArg (fun b => (r, true, m, b)) (Bool.and_true ok).symm
  | none =>
    simp only [runWalk_main (w := u.beginWalk va u.contextRegister) (narrow_start _ _ _),
      fitsMemory_beginWalk]
    rfl

/-- The entry that a request uses is in main memory. -/
theorem EntriesFit.entryOver {u : MmuCore} (h : u.EntriesFit)
    (hlow : u.tablesLow m va = true) : fitsMemory (u.entryOver m va).phyAddrOfPte = true := by
  unfold MmuCore.entryOver
  unfold tablesLow walkLow at hlow
  cases hl : u.tlbLookup va u.contextRegister with
  | some r =>
    obtain ⟨e, he, -, -, haddr⟩ := exists_of_lookup (lookup_of_tlbLookup hl)
    rw [getD_some, haddr]
    exact h _ e he
  | none =>
    rw [hl, isSome_none, Bool.false_or, and_eq_true] at hlow
    exact fitsMemory_find (narrow_start _ _ _) _ _
      ((u.fitsMemory_beginWalk _ _).trans hlow.1) hlow.2

theorem checked_updateRM (va : Word) (r : WalkResult) (isWrite ok : Bool) :
    (u.updateRM physicalMemory va r isWrite (m, ok)).2.2 =
      (ok && ((computeAndStageRMUpdate r.pte isWrite).isNone || fitsMemory r.phyAddrOfPte)) := by
  unfold updateRM
  cases computeAndStageRMUpdate r.pte isWrite with
  | none => exact (Bool.and_true ok).symm
  | some staged =>
    cases u.atomicRMUpdates with
    | false => exact checked_writeEntry _ _ _
    | true =>
      simp only [if_true, readPageTableEntryFromMemory_main, checked_writeEntry,
        isNone_some, Bool.false_or, Bool.and_assoc, Bool.and_self]

theorem layout_updateRM {τ : Type} (phys : PhysicalMemory τ) (va : Word) (r : WalkResult)
    (isWrite : Bool) (x : τ) : (u.updateRM phys va r isWrite x).1.layout = u.layout := by
  unfold updateRM
  cases computeAndStageRMUpdate r.pte isWrite with
  | none => rfl
  | some staged =>
    dsimp only [commitRMTlbUpdate]
    split <;> rfl

theorem layout_commitTranslation (va context : Word) (r : WalkResult) (hit : Bool) :
    (u.commitTranslation va context r hit).1.layout = u.layout := by
  dsimp only [commitTranslation]
  split <;> rfl

theorem dataFits_of_layout {u u' : MmuCore} (h : u'.layout = u.layout) (r : VirtualMemoryRequest)
    (t : Translation) : u'.dataFits r t = u.dataFits r t := by
  simp only [dataFits, isCacheableTarget, h]

/-! ## Lines -/

variable {a : BitVec 64}

/-- The address map has main memory below `2 ^ 32`. -/
theorem fitsMemory_of_isCacheableTarget (h : u.isCacheableTarget a = true) :
    fitsMemory a = true := by
  have hsome := SystemBus.toMemCoreAddress_of_decode (eq_of_beq h)
  rw [toMemCoreAddress_eq] at hsome
  split at hsome
  · assumption
  · cases hsome

theorem fitsMemory_lineBase (h : fitsMemory a = true) (i : Fin 8) :
    fitsMemory ((a &&& ~~~63) + 8 * BitVec.ofNat 64 i.val) = true := by
  rw [fitsMemory, decide_eq_true_eq] at h ⊢
  have hdoubleword := Words.toNat_lineBase a i
  have hi := i.isLt
  omega

theorem checked_readLine (h : fitsMemory a = true) (is : List (Fin 8)) (line : Fin 8 → BitVec 64)
    (mae : Bool) (x : MemCore × Bool) :
    (is.foldl (readLineStep physicalMemory (a &&& ~~~63)) (line, mae, x)).2.2.2 =
      x.2 := by
  induction is generalizing line mae x with
  | nil => rfl
  | cons i is ih =>
    rw [List.foldl_cons, readLineStep]
    split
    · exact ih line mae x
    · have hread := congrArg Prod.snd (readPhysicalDoubleword_main
        ((a &&& ~~~63) + 8 * BitVec.ofNat 64 i.val) x 0xFF)
      rw [fitsMemory_lineBase h, Bool.and_true] at hread
      exact (ih _ _ _).trans hread

theorem checked_readLineAt (t : Translation) (byteMask : Word) (ok : Bool) :
    (u.readLineAt physicalMemory t byteMask (m, ok)).2.2 =
      (ok && ((t.cacheable && u.isCacheableTarget t.physicalAddr) || byteMask == 0 ||
        fitsMemory t.physicalAddr)) := by
  unfold readLineAt
  cases hc : t.cacheable && u.isCacheableTarget t.physicalAddr with
  | true =>
    have hfits := u.fitsMemory_of_isCacheableTarget (Bool.and_eq_true_iff.1 hc).2
    rw [Bool.true_or, Bool.true_or, Bool.and_true]
    exact checked_readLine hfits (List.finRange 8) (fun _ => 0) false (m, ok)
  | false =>
    by_cases hmask : byteMask = 0
    · simp [hmask]
    · simp only [if_off, if_pos hmask, readPhysicalDoubleword_main,
        beq_eq_false_iff_ne.2 hmask, Bool.false_or]

/-! ## Requests -/

theorem checked_complete (r : VirtualMemoryRequest) (t : Translation) (ok : Bool) :
    (u.complete physicalMemory r t (m, ok)).2.2.2 = (ok && u.dataFits r t) := by
  unfold complete dataFits
  cases r.accessType with
  | IFETCH => exact checked_readData _ _ _ _
  | LOAD => exact checked_readData _ _ _ _
  | STORE => exact checked_write _ _ _ _ _
  | ATOMIC_LS => exact checked_atomic _ _ _ _ _
  | READ_LINE => exact checked_readLineAt _ _ _ _ _
  | FLUSH => exact (Bool.and_true ok).symm
  | NO_ACCESS => exact (Bool.and_true ok).symm

variable {r : VirtualMemoryRequest}

/-- Where the data of a translated request are, by its leaf. -/
theorem dataFits_translationOf (r : VirtualMemoryRequest) (e : WalkResult) :
    u.dataFits r (translationOf r.address e) = leafLow r e.pte := by
  have haddr : fitsMemory (translationOf r.address e).physicalAddr = isLow e.pte :=
    fitsMemory_constructPhysicalAddr _ _ _
  unfold dataFits leafLow
  rw [haddr]
  cases r.accessType with
  | READ_LINE =>
    dsimp only
    cases hc : (translationOf r.address e).cacheable &&
      u.isCacheableTarget (translationOf r.address e).physicalAddr with
    | false => rfl
    | true =>
      rw [← haddr, u.fitsMemory_of_isCacheableTarget (Bool.and_eq_true_iff.1 hc).2, Bool.or_true,
        Bool.or_true]
  | _ => rfl

/-- A translated request. -/
theorem checked_of_translatesRequest (hfit : u.EntriesFit) (h : u.translatesRequest r = true) :
    (access physicalMemory r (u, (m, true))).2.2.2 = u.entriesLow m r := by
  have htranslate := u.translate_eq physicalMemory (translates_of_translatesRequest h)
    r.address r.asi r.isFetch r.isWrite r.isAtomic (m, true)
  simp only [findEntry_main, Bool.true_and] at htranslate
  rw [access_of_translatesRequest _ h, translateRequest, htranslate, entriesLow, if_pos h]
  by_cases hfault : (checkFault r.asi r.isWrite r.isAtomic
      (u.entryOver m r.address).pte).2 = .NONE
  · rw [if_pos hfault]
    simp only [hfault, bne_self_eq_false, Bool.false_or]
    have hupdate := checked_updateRM m (u.commitTranslation r.address u.contextRegister
      (u.entryOver m r.address) (u.tlbLookup r.address u.contextRegister).isSome).1 r.address
      (u.entryOver m r.address) r.isWrite (u.tablesLow m r.address)
    have hlayout := (layout_updateRM (u.commitTranslation r.address u.contextRegister
      (u.entryOver m r.address) (u.tlbLookup r.address u.contextRegister).isSome).1
      physicalMemory r.address (u.entryOver m r.address) r.isWrite
      (m, u.tablesLow m r.address)).trans (u.layout_commitTranslation _ _ _ _)
    generalize updateRM physicalMemory _ r.address (u.entryOver m r.address)
      r.isWrite (m, u.tablesLow m r.address) = x at hupdate hlayout
    obtain ⟨u', m', ok⟩ := x
    have hok : ok = _ := hupdate
    rw [checked_complete, dataFits_of_layout hlayout, hok]
    change (_ && _ && u.dataFits r (translationOf r.address (u.entryOver m r.address))) = _
    rw [dataFits_translationOf]
    cases hlow : u.tablesLow m r.address with
    | false => rfl
    | true => rw [hfit.entryOver m _ hlow, Bool.or_true, Bool.and_self]
  · rw [if_neg hfault]
    simp [bne_iff_ne.2 hfault]

theorem checked_probe (va : Word) :
    (u.probe physicalMemory va (m, true)).2.2 = u.probeLow m va := by
  unfold probe probeLow
  dsimp only
  split
  · rw [findEntry_main, Bool.true_and]
  · split
    · next h => rw [decide_eq_true h, Bool.true_or]
    · next h =>
      simp [runWalk_main (w := u.beginWalk va u.contextRegister) (narrow_start _ _ _),
        fitsMemory_beginWalk, decide_eq_false h, walkLow]

/-- Without a translation the address goes to the memory as it is. -/
theorem dataFits_untranslated {t : Translation} (h : t.physicalAddr = r.address.setWidth 64) :
    u.dataFits r t = true := by
  unfold dataFits
  rw [h, fitsMemory_setWidth]
  cases r.accessType with
  | READ_LINE => exact Bool.or_true _
  | _ => rfl

/-- A request that is not translated. -/
theorem checked_of_not_translatesRequest (h : u.translatesRequest r = false) :
    (access physicalMemory r (u, (m, true))).2.2.2 = u.entriesLow m r := by
  rw [entriesLow, h, if_off, ← route_probe, access_eq]
  cases hroute : u.route r with
  | probe => exact checked_probe m u r.address
  | physical => exact (checked_complete m u r _ true).trans (u.dataFits_untranslated rfl)
  | translated =>
    rw [follow_of_not_translatesRequest _ h hroute]
    exact (checked_complete m u r _ true).trans (u.dataFits_untranslated rfl)
  | _ => rfl

variable {m u}

/-- One request. -/
theorem EntriesFit.checked (h : u.EntriesFit) (r : VirtualMemoryRequest) :
    (access physicalMemory r (u, (m, true))).2.2.2 = u.entriesLow m r := by
  cases ht : u.translatesRequest r with
  | false => exact checked_of_not_translatesRequest m u ht
  | true => exact checked_of_translatesRequest m u h ht

/-- A request whose assertions hold fills in an entry from main memory only. -/
theorem EntriesFit.access (h : u.EntriesFit) (hlow : u.entriesLow m r = true) :
    (access physicalMemory r (u, (m, true))).2.1.EntriesFit := by
  intro level e he
  cases tlbStep_access physicalMemory u r (m, true) with
  | same _ _ ht =>
    rw [tlb_of_tables ht] at he
    exact h level e he
  | clear _ _ ctp ht =>
    rw [tlb_of_tables ht] at he
    dsimp only at he
    split_ifs at he
    · exact absurd he (not_holds_clear _ level e)
    · exact h level e he
  | flush _ _ flushType va context ht =>
    rw [tlb_of_tables ht] at he
    exact h level e (holds_of_holds_flush he)
  | translate hr _ ht =>
    rw [entriesLow, if_pos hr, and_eq_true] at hlow
    rw [tlb_of_tables ht] at he
    rcases tlb_translate physicalMemory u r.address r.asi r.isFetch r.isWrite
      r.isAtomic (m, true) with hsame | ⟨-, hafter⟩
    · rw [translateRequest, tables, hsame] at he
      exact h level e he
    · rw [translateRequest, tables, hafter, findEntry_main] at he
      rcases holds_afterTranslation he with ho | ⟨-, -, rfl⟩ | ⟨rfl, -, staged, e', -, ho, -, rfl⟩
      · exact h level e ho
      · exact h.entryOver m _ hlow.1
      · exact h _ e' ho

end MmuCore

/-- An MMU over main memory. A failed assertion ends the run. -/
def mmuOverMemory : Machine (MmuCore × MemCore) VirtualMemoryRequest :=
  ⟨fun x r =>
    let y := (MmuCore.access physicalMemory r (x.1, (x.2, true))).2
    if y.2.2 then some (y.1, y.2.1) else none⟩

/-- No assertion of main memory fails exactly if bits 31:28 are clear in all that the requests
follow. -/
theorem no_assertion_fails_iff (m : MemCore) (u : MmuCore) (h : u.EntriesFit)
    (requests : List VirtualMemoryRequest) :
    (mmuOverMemory.run requests (u, m)).isSome = true ↔
      mmuOverMemory.AllSteps (fun x r => x.1.entriesLow x.2 r = true) requests (u, m) := by
  refine Machine.isSome_run_iff (I := fun x => x.1.EntriesFit) (fun {x r} hx => ?_)
    (fun {x r x'} hx hstep => ?_) requests h
  · simp only [mmuOverMemory, hx.checked]
    cases x.1.entriesLow x.2 r <;> simp
  · simp only [mmuOverMemory, hx.checked] at hstep
    split at hstep
    · next hlow =>
      cases hstep
      exact hx.access hlow
    · cases hstep

/-- A store of a word by a user, with the MMU on. -/
def userStore (address : Word) : VirtualMemoryRequest :=
  wordAccess .STORE address asiUserData 7

/-- Two stores through a low page, the second by the entry of the first. -/
theorem low_page_passes :
    (mmuOverMemory.run [userStore 0x40, userStore 0x2040]
      (mmuOn, wordMemory 0x0E)).isSome = true :=
  (no_assertion_fails_iff _ _ (fun level e he => absurd he (not_holds_empty level e)) _).2
    (by decide)

/-- A load through a page at physical address `2 ^ 32` runs into the assertion. -/
theorem high_page_fails :
    (MmuCore.access physicalMemory (wordAccess .LOAD 0 asiUserData 0)
      (mmuOn, (wordMemory 0x1000000E, true))).2.2.2 = false := by
  decide

end SparcV8
