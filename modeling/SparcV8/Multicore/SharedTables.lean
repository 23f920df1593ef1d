import SparcV8.Core.Machine.Transition
import SparcV8.Mmu.Agreement
import Mathlib.Tactic.IntervalCases

/-!
# Page tables shared by several cores

The MMUs of several cores walk and update page tables in one memory, one physical access at a time,
while the cores write to the same words. A locked read-modify-write is one access.
-/

namespace SparcV8

open Function Tlb BitVec Option Pte MmuCore Words

/-- A translation that an MMU has been asked for. -/
structure TranslationRequest where
  va : Word
  asi : Word
  isInstructionFetch : Bool
  isWrite : Bool
  isAtomic : Bool
  deriving DecidableEq

namespace SharedTables

open MmuCore (computeAndStageRMUpdate stageRMUpdateOnCurrentPte checkFault)

/-- How far an MMU has got with its translation. -/
inductive Phase where
  | idle
  /-- The next access reads an entry of the walk. -/
  | walking (q : TranslationRequest) (w : Walk)
  /-- The next access is the locked update of the entry found. -/
  | updating (q : TranslationRequest) (r : WalkResult) (stagedTlbPte : Word)
  | done (q : TranslationRequest) (r : WalkResult)
  | refused (q : TranslationRequest)

/-- The MMU is under way with a translation. -/
def Phase.busy : Phase → Bool
  | walking _ _ | updating _ _ _ => true
  | idle | done _ _ | refused _ => false

/-- A copy of a table word: the entry of the TLB it is in, and its address. -/
structure Copy where
  level : Level
  vaTag : Word
  context : Word
  phyAddrOfPte : BitVec 64
  deriving DecidableEq

/-- The copy that a translation uses. -/
def Copy.of (u : MmuCore) (q : TranslationRequest) (r : WalkResult) : Copy :=
  { level := r.level, vaTag := vaTagForLevel q.va r.level, context := u.contextRegister,
    phyAddrOfPte := r.phyAddrOfPte }

/-- The copy in an entry of the TLB. -/
def Copy.ofEntry (level : Level) (e : Entry) : Copy :=
  { level := level, vaTag := e.vaTag, context := e.context, phyAddrOfPte := e.phyAddrOfPte }

/-- The index of the copied word. -/
def Copy.word (k : Copy) : Nat := k.phyAddrOfPte.toNat / 4

variable {ι : Type}

/-- The cores' MMUs and the memory. The last two fields record ordinary writes. -/
structure State (ι : Type) where
  mmu : ι → MmuCore
  phase : ι → Phase
  memory : Words
  /-- An ordinary write has changed the word since this MMU read the copy. -/
  copyChanged : ι → Copy → Bool
  /-- An ordinary write has changed the word since this MMU last read it. -/
  wordChanged : ι → Nat → Bool

/-- Accesses to an MMU's registers and its flush, which reach no memory. -/
inductive Control where
  | readRegister (addr : Word)
  | writeRegister (addr word0 word1 byteMask : Word)
  | flush (va : Word)

def Control.apply : Control → MmuCore → MmuCore
  | readRegister addr, u => (u.readRegister addr).2
  | writeRegister addr word0 word1 byteMask, u => u.writeRegister addr word0 word1 byteMask
  | flush va, u => u.flush va

inductive Event (ι : Type) where
  /-- An MMU begins a translation and looks into its TLB. -/
  | begin (i : ι) (q : TranslationRequest)
  /-- It reads the next entry of its walk. -/
  | read (i : ι)
  /-- It updates the entry it has found. -/
  | update (i : ι)
  | control (i : ι) (op : Control)
  /-- Ordinary writes turn the memory into this one. -/
  | write (memory : Words)

variable [DecidableEq ι] (dom : Nat → Bool)

/-- Once an entry has been found: the check, the fill of the TLB, and the update. -/
def found (u : MmuCore) (q : TranslationRequest) (r : WalkResult) (hit : Bool) : MmuCore × Phase :=
  let (faulted, u) := u.checkAndRecordFault q.asi q.isWrite q.isAtomic q.isInstructionFetch q.va r
  if faulted then (u, .refused q)
  else
    let (u, _) := u.commitTranslation q.va u.contextRegister r hit
    match computeAndStageRMUpdate r.pte q.isWrite with
    | none => (u, .done q r)
    | some stagedTlbPte => (u, .updating q r stagedTlbPte)

/-- One core's MMU and phase after a step. -/
def State.set (s : State ι) (i : ι) (x : MmuCore × Phase) : State ι :=
  { s with mmu := update s.mmu i x.1, phase := update s.phase i x.2 }

/-- The record of an MMU's read of a word. -/
def State.wordRead (s : State ι) (i : ι) (n : Nat) : State ι :=
  { s with wordChanged := update s.wordChanged i (update (s.wordChanged i) n false) }

/-- The record of a fresh copy. -/
def State.copyRead (s : State ι) (i : ι) (k : Copy) : State ι :=
  { s with copyChanged := update s.copyChanged i (update (s.copyChanged i) k false) }

/-- The memory after an ordinary write, and the record of it. -/
def State.written (s : State ι) (memory : Words) : State ι :=
  let changes := fun n => memory.read dom n != s.memory.read dom n
  { s with
    memory := memory
    copyChanged := fun i k => s.copyChanged i k || changes k.word
    wordChanged := fun i n => s.wordChanged i n || changes n }

def step (s : State ι) : Event ι → Option (State ι)
  | .begin i q =>
    let u := s.mmu i
    if (s.phase i).busy || !u.translates then none
    else
      match u.tlbLookup q.va u.contextRegister with
      | some r => some (s.set i (found u q r true))
      | none => some (s.set i (u, .walking q (u.beginWalk q.va u.contextRegister)))
  | .read i =>
    match s.phase i with
    | .walking q w =>
      let u := s.mmu i
      let fetchedPte := s.memory.entryAt dom w.curPhyAddr
      let s := s.wordRead i (w.curPhyAddr.toNat / 4)
      match w.recordWalkStep fetchedPte 3 with
      | some w => some (s.set i (u, .walking q w))
      | none =>
        -- what is done with the entry takes no further access to the memory
        let r := w.result fetchedPte
        some ((s.copyRead i (Copy.of u q r)).set i (found u q r false))
    | _ => none
  | .update i =>
    match s.phase i with
    | .updating q r stagedTlbPte =>
      let u := s.mmu i
      let stagedUpdatedPte :=
        if u.atomicRMUpdates then
          stageRMUpdateOnCurrentPte r.pte stagedTlbPte (s.memory.entryAt dom r.phyAddrOfPte)
        else stagedTlbPte
      let n := r.phyAddrOfPte.toNat / 4
      let s := { s.wordRead i n with memory := s.memory.write dom n stagedUpdatedPte }
      some (s.set i (u.commitRMTlbUpdate q.va u.contextRegister r.level stagedTlbPte, .done q r))
    | _ => none
  | .control i op =>
    if (s.phase i).busy then none else some (s.set i (op.apply (s.mmu i), .idle))
  | .write memory => some (s.written dom memory)

/-- The cores' MMUs over one memory. -/
def machine : Machine (State ι) (Event ι) := ⟨step dom⟩

/-- The TLBs are empty and nothing is under way. Updates go to the word in memory. -/
structure Start (s : State ι) : Prop where
  tlb_empty : ∀ i, (s.mmu i).tlb = empty
  atomicRMUpdates : ∀ i, (s.mmu i).atomicRMUpdates = true
  idle : ∀ i, s.phase i = .idle

/-! ## Words of the tables -/

/-- The new word is the old one with referenced and modified bits set. -/
def SetsRM (old new : Word) : Prop := ∃ bits, new = old ||| bits ∧ bits &&& ~~~0x60 = 0

theorem SetsRM.refl (word : Word) : SetsRM word word := ⟨0, or_zero.symm, by decide⟩

theorem getLsbD_of_rm {bits : Word} (h : bits &&& ~~~0x60 = 0) {i : Nat}
    (hi : (0x60 : Word).getLsbD i = false) : bits.getLsbD i = false := by
  by_cases hlt : i < 32
  · have hbit := congrArg (fun x => x.getLsbD i) h
    simp only [getLsbD_and, getLsbD_not, hi, hlt, decide_true, Bool.not_false,
      Bool.and_true] at hbit
    rw [hbit]
    exact getLsbD_zero
  · exact getLsbD_of_ge _ _ (by omega)

variable {old new : Word}

theorem SetsRM.entryType (h : SetsRM old new) : entryType new = entryType old := by
  obtain ⟨bits, rfl, hbits⟩ := h
  apply eq_of_getLsbD_eq
  intro i _
  rw [entryType, entryType, getLsbD_readBits _ (by decide), getLsbD_readBits _ (by decide),
    getLsbD_or, Nat.zero_add]
  by_cases hi : i ≤ 1
  · have hclear : bits.getLsbD i = false := by
      apply getLsbD_of_rm hbits
      interval_cases i <;> decide
    rw [hclear, Bool.or_false]
  · rw [decide_eq_false hi, Bool.false_and, Bool.false_and]

/-- A bit that is set stays set. -/
theorem SetsRM.getLsbD (h : SetsRM old new) {i : Nat} (hi : old.getLsbD i = true) :
    new.getLsbD i = true := by
  obtain ⟨bits, rfl, -⟩ := h
  rw [getLsbD_or, hi, Bool.true_or]

theorem SetsRM.readBits (h : SetsRM old new) {i : Nat} (hi : i < 32) (hold : readBits old i i ≠ 0) :
    readBits new i i ≠ 0 := by
  rw [readBits_ne_zero_iff _ hi] at hold ⊢
  exact h.getLsbD hold

/-- The word is a leaf and has the referenced and modified bits of the copy. -/
structure Covers (word copy : Word) : Prop where
  leaf : entryType word = etPte
  referenced : referenced copy ≠ 0 → referenced word ≠ 0
  modified : modified copy ≠ 0 → modified word ≠ 0

theorem Covers.self {word : Word} (h : entryType word = etPte) : Covers word word :=
  ⟨h, id, id⟩

theorem Covers.of_setsRM {old new copy : Word} (h : Covers old copy) (hs : SetsRM old new) :
    Covers new copy :=
  ⟨hs.entryType.trans h.leaf, fun hr => hs.readBits (by decide) (h.referenced hr),
    fun hm => hs.readBits (by decide) (h.modified hm)⟩

variable {isWrite : Bool}
variable {staged : Word}

/-- The update sets bits of the word now in memory, and nothing else. -/
theorem setsRM_stage {pte : Word} (h : computeAndStageRMUpdate pte isWrite = some staged)
    (current : Word) : SetsRM current (stageRMUpdateOnCurrentPte pte staged current) := by
  obtain ⟨bits, rfl, hbits⟩ := MmuCore.exists_bits_of_staged h
  rw [stageRMUpdateOnCurrentPte]
  split
  · refine ⟨_, rfl, ?_⟩
    apply eq_of_getLsbD_eq
    intro i _
    have hbit := congrArg (fun x => x.getLsbD i) hbits
    simp only [getLsbD_and] at hbit
    rw [getLsbD_and, getLsbD_xor, getLsbD_or]
    cases pte.getLsbD i with
    | true =>
      rw [Bool.true_or, Bool.xor_self, Bool.false_and]
      exact getLsbD_zero.symm
    | false =>
      rw [Bool.false_or, Bool.xor_false]
      exact hbit
  · exact SetsRM.refl current

/-- After the update the word covers what the MMU then holds. -/
theorem covers_stage {pte current : Word} (h : computeAndStageRMUpdate pte isWrite = some staged)
    (hc : Covers current pte) : Covers (stageRMUpdateOnCurrentPte pte staged current) staged := by
  have hbit {i : Nat} (hi : i < 32) (hcur : readBits pte i i ≠ 0 → readBits current i i ≠ 0)
      (hs : readBits staged i i ≠ 0) :
      readBits (stageRMUpdateOnCurrentPte pte staged current) i i ≠ 0 := by
    rw [readBits_ne_zero_iff _ hi] at hs ⊢
    rw [readBits_ne_zero_iff _ hi, readBits_ne_zero_iff _ hi] at hcur
    rw [stageRMUpdateOnCurrentPte, if_pos hc.leaf, getLsbD_or, getLsbD_xor, hs]
    cases hp : pte.getLsbD i with
    | true => rw [hcur hp, Bool.true_or]
    | false => rw [Bool.xor_false, Bool.or_true]
  exact ⟨(setsRM_stage h current).entryType.trans hc.leaf, hbit (by decide) hc.referenced,
    hbit (by decide) hc.modified⟩

/-! ## The invariant of one core -/

variable {q : TranslationRequest} {r : WalkResult}

section Core

variable {dom} {c c' : Words} {changed changed' : Copy → Bool} {u : MmuCore}

/-- A copy in the TLB whose word no ordinary write has changed is covered. -/
structure TlbInvariant (dom : Nat → Bool) (c : Words) (changed : Copy → Bool)
    (u : MmuCore) : Prop where
  atomicRMUpdates : u.atomicRMUpdates = true
  placed : u.tlb.Placed
  unique : u.tlb.Unique
  /-- A TLB that is off has no entries. -/
  disabled : u.tlbEnabled = false → ∀ level e, ¬u.tlb.Holds level e
  covered : ∀ level e, u.tlb.Holds level e → changed (Copy.ofEntry level e) = false →
    Covers (c.entryAt dom e.phyAddrOfPte) e.pte

/-- The word of the entry has the bits of a translation that is complete. -/
def Recorded (dom : Nat → Bool) (c : Words) (q : TranslationRequest) (r : WalkResult) : Prop :=
  referenced (c.entryAt dom r.phyAddrOfPte) ≠ 0 ∧
    (q.isWrite = true → modified (c.entryAt dom r.phyAddrOfPte) ≠ 0)

/-- So is the copy of a translation under way, the only one for its address; the word has its bits
once it is complete. -/
def PhaseInvariant (dom : Nat → Bool) (c : Words) (changed : Copy → Bool) (u : MmuCore) :
    Phase → Prop
  | .walking q _ => u.tlbLookup q.va u.contextRegister = none
  | .updating q r stagedTlbPte =>
    computeAndStageRMUpdate r.pte q.isWrite = some stagedTlbPte ∧
      (changed (Copy.of u q r) = false → Covers (c.entryAt dom r.phyAddrOfPte) r.pte) ∧
      ∀ e, u.tlb.Holds r.level e → hits q.va u.contextRegister r.level e = true →
        e.phyAddrOfPte = r.phyAddrOfPte
  | .done q r => changed (Copy.of u q r) = false → Recorded dom c q r
  | .idle | .refused _ => True

/-- Words may get bits of their own, or be changed and the change be recorded. -/
def Follows (dom : Nat → Bool) (c c' : Words) (changed changed' : Copy → Bool) : Prop :=
  ∀ k, changed' k = false →
    changed k = false ∧ SetsRM (c.read dom k.word) (c'.read dom k.word)

theorem Recorded.of_setsRM (h : Recorded dom c q r)
    (hs : SetsRM (c.entryAt dom r.phyAddrOfPte) (c'.entryAt dom r.phyAddrOfPte)) :
    Recorded dom c' q r :=
  ⟨hs.readBits (by decide) h.1, fun hw => hs.readBits (by decide) (h.2 hw)⟩

theorem TlbInvariant.follows (h : TlbInvariant dom c changed u)
    (hf : Follows dom c c' changed changed') : TlbInvariant dom c' changed' u := by
  refine ⟨h.atomicRMUpdates, h.placed, h.unique, h.disabled, fun level e he hk => ?_⟩
  obtain ⟨hold, hsets⟩ := hf _ hk
  exact (h.covered level e he hold).of_setsRM hsets

theorem PhaseInvariant.follows {phase : Phase} (h : PhaseInvariant dom c changed u phase)
    (hf : Follows dom c c' changed changed') : PhaseInvariant dom c' changed' u phase := by
  cases phase with
  | updating q r staged =>
    obtain ⟨hs, hcov, haddr⟩ := h
    refine ⟨hs, fun hk => ?_, haddr⟩
    obtain ⟨hold, hsets⟩ := hf _ hk
    exact (hcov hold).of_setsRM hsets
  | walking q w => exact h
  | idle => trivial
  | done q r =>
    intro hk
    obtain ⟨hold, hsets⟩ := hf _ hk
    exact (h hold).of_setsRM hsets
  | refused q => trivial

/-- An entry that serves an address has its tag. -/
theorem ofEntry_eq_of {e : Entry} (hp : u.tlb.Placed) (he : u.tlb.Holds r.level e)
    (hhit : hits q.va u.contextRegister r.level e = true)
    (haddr : e.phyAddrOfPte = r.phyAddrOfPte) : Copy.ofEntry r.level e = Copy.of u q r := by
  simp only [hits, Bool.and_eq_true, Bool.or_eq_true, beq_iff_eq] at hhit
  have htag : e.vaTag = vaTagForLevel q.va r.level := by
    rcases hhit.2 with hzero | htag
    · obtain ⟨x, hx⟩ := he
      obtain ⟨va, hva, -⟩ := hp r.level x e hx
      rw [hva, hzero]
      rfl
    · exact htag
  rw [Copy.ofEntry, Copy.of, htag, hhit.1, haddr]

/-- After a miss nothing in the TLB serves the address. -/
theorem TlbInvariant.not_hits (h : TlbInvariant dom c changed u) {va : Word}
    (hmiss : u.tlbLookup va u.contextRegister = none) {level : Level} {e : Entry}
    (he : u.tlb.Holds level e) : hits va u.contextRegister level e = false := by
  cases hen : u.tlbEnabled with
  | false => exact absurd he (h.disabled hen level e)
  | true =>
    rw [tlbLookup, hen, if_pos rfl] at hmiss
    exact not_hits_of_lookup h.placed hmiss he

/-- A copy read after a miss is fresh, and no entry of the TLB is taken for it. -/
theorem TlbInvariant.fresh (h : TlbInvariant dom c changed u)
    (hmiss : u.tlbLookup q.va u.contextRegister = none) (r : WalkResult) :
    TlbInvariant dom c (update changed (Copy.of u q r) false) u := by
  refine ⟨h.atomicRMUpdates, h.placed, h.unique, h.disabled, fun level e he hk => ?_⟩
  have hne : Copy.ofEntry level e ≠ Copy.of u q r := by
    intro heq
    have hnot := h.not_hits hmiss he
    simp only [Copy.ofEntry, Copy.of, Copy.mk.injEq] at heq
    obtain ⟨rfl, htag, hctx, -⟩ := heq
    simp [hits, htag, hctx] at hnot
  rw [update_of_ne hne] at hk
  exact h.covered level e he hk

/-- The copy a translation uses: one of the TLB, or one just read. -/
def Used (dom : Nat → Bool) (c : Words) (u : MmuCore) (q : TranslationRequest)
    (r : WalkResult) (hit : Bool) : Prop :=
  if hit then u.tlbLookup q.va u.contextRegister = some r
  else u.tlbLookup q.va u.contextRegister = none ∧ r.pte = c.entryAt dom r.phyAddrOfPte

variable {hit : Bool}

section

variable (h : TlbInvariant dom c changed u) (hu : Used dom c u q r hit)
  (hleaf : entryType r.pte = etPte)
include h hu hleaf

theorem TlbInvariant.covers (hk : changed (Copy.of u q r) = false) :
    Covers (c.entryAt dom r.phyAddrOfPte) r.pte := by
  cases hit with
  | true =>
    obtain ⟨e, he, hhit, hpte, haddr⟩ := exists_of_lookup (lookup_of_tlbLookup hu)
    rw [← ofEntry_eq_of h.placed he hhit haddr.symm] at hk
    rw [hpte, haddr]
    exact h.covered r.level e he hk
  | false =>
    rw [← hu.2]
    exact Covers.self hleaf

/-- The fill of the TLB; the copy then is the only one for its address. -/
theorem TlbInvariant.commit :
    TlbInvariant dom c changed (u.commitTranslation q.va u.contextRegister r hit).1 ∧
      ∀ e, (u.commitTranslation q.va u.contextRegister r hit).1.tlb.Holds r.level e →
        hits q.va u.contextRegister r.level e = true → e.phyAddrOfPte = r.phyAddrOfPte := by
  have hcovers := h.covers hu hleaf
  cases hit with
  | true =>
    refine ⟨h, fun e he hhit => ?_⟩
    obtain ⟨e', he', hhit', -, haddr⟩ := exists_of_lookup (lookup_of_tlbLookup hu)
    rw [haddr]
    exact h.unique r.level e e' he he' q.va u.contextRegister hhit hhit'
  | false =>
    cases hen : u.tlbEnabled with
    | false =>
      have hsame : (u.commitTranslation q.va u.contextRegister r false).1 = u := by
        rw [commitTranslation, hen]
        rfl
      rw [hsame]
      exact ⟨h, fun e he => absurd he (h.disabled hen r.level e)⟩
    | true =>
      have hinsert : (u.commitTranslation q.va u.contextRegister r false).1 =
          { u with tlb := u.tlb.insert q.va u.contextRegister r } := by
        rw [commitTranslation, hen]
        rfl
      have hmiss : u.tlb.lookup q.va u.contextRegister = none := by
        have hnone := hu.1
        rwa [tlbLookup, hen, if_pos rfl] at hnone
      rw [hinsert]
      refine ⟨⟨h.atomicRMUpdates, h.placed.insert _ _ _, h.unique.insert h.placed hmiss,
        ?_, ?_⟩, ?_⟩
      · intro hoff
        cases hen.symm.trans hoff
      · intro level e he hk
        rcases holds_insert he with ho | ⟨rfl, rfl⟩
        · exact h.covered level e ho hk
        · exact hcovers hk
      · intro e he hhit
        rcases holds_insert he with ho | ⟨-, rfl⟩
        · exact absurd hhit (by rw [h.not_hits hu.1 ho]; exact Bool.false_ne_true)
        · rfl

end

variable (va context : Word)

theorem contextRegister_commitTranslation (r : WalkResult) (hit : Bool) :
    (u.commitTranslation va context r hit).1.contextRegister = u.contextRegister := by
  unfold commitTranslation
  split <;> rfl

theorem TlbInvariant.recordFault (h : TlbInvariant dom c changed u) (accessType : AccessType)
    (faultType : FaultType) (level : Level) (va : Word) (isInstructionFetch : Bool) :
    TlbInvariant dom c changed
      (u.recordFault accessType faultType level va isInstructionFetch) := by
  unfold MmuCore.recordFault MmuCore.updateFsrFar
  generalize (if isInstructionFetch = true then FaultClass.IACCESS_FAULT
    else FaultClass.DACCESS_FAULT) = faultClass
  split
  · exact ⟨h.atomicRMUpdates, h.placed, h.unique, h.disabled, h.covered⟩
  · exact h

/-- From the entry found to the end of the translation, or to its update. -/
theorem invariant_found (h : TlbInvariant dom c changed u) (hu : Used dom c u q r hit) :
    TlbInvariant dom c changed (found u q r hit).1 ∧
      PhaseInvariant dom c changed (found u q r hit).1 (found u q r hit).2 := by
  unfold found MmuCore.checkAndRecordFault
  dsimp only
  by_cases hfault : (checkFault q.asi q.isWrite q.isAtomic r.pte).2 = .NONE
  · have hleaf := MmuCore.entryType_of_checkFault hfault
    obtain ⟨htlb, haddr⟩ := h.commit hu hleaf
    have hcopy : Copy.of (u.commitTranslation q.va u.contextRegister r hit).1 q r =
        Copy.of u q r := by
      rw [Copy.of, Copy.of, contextRegister_commitTranslation]
    rw [if_pos hfault]
    rw [if_off]
    cases hs : computeAndStageRMUpdate r.pte q.isWrite with
    | none =>
      refine ⟨htlb, fun hk => ?_⟩
      rw [hcopy] at hk
      have hcovers := h.covers hu hleaf hk
      refine ⟨hcovers.referenced (MmuCore.referenced_of_not_staged hs), fun hw => ?_⟩
      rw [hw] at hs
      exact hcovers.modified (MmuCore.modified_of_not_staged hs)
    | some staged =>
      refine ⟨htlb, hs, fun hk => h.covers hu hleaf (hcopy ▸ hk), ?_⟩
      rw [contextRegister_commitTranslation]
      exact haddr
  · rw [if_neg hfault]
    exact ⟨h.recordFault _ _ _ _ _, trivial⟩

/-- The update of a word sets bits of it, and leaves the other words. -/
theorem setsRM_write (hs : computeAndStageRMUpdate r.pte isWrite = some staged) (c : Words)
    (n : Nat) :
    SetsRM (c.read dom n)
      ((c.write dom (r.phyAddrOfPte.toNat / 4)
        (stageRMUpdateOnCurrentPte r.pte staged (c.entryAt dom r.phyAddrOfPte))).read dom
          n) := by
  rw [read_write]
  split
  · next hn =>
    subst hn
    split
    · exact setsRM_stage hs _
    · next habsent =>
      rw [Words.read, if_neg habsent]
      exact SetsRM.refl 0
  · exact SetsRM.refl _

/-- The word that a covered copy stands for exists. -/
theorem present_of_covers {a : BitVec 64} {copy : Word} (h : Covers (c.entryAt dom a) copy) :
    dom (a.toNat / 4) = true := by
  by_contra habsent
  have hleaf := h.leaf
  rw [entryAt, Words.read, if_neg habsent] at hleaf
  exact absurd hleaf (by decide)

theorem contextRegister_commitRMTlbUpdate (level : Level) (staged : Word) :
    (u.commitRMTlbUpdate va context level staged).contextRegister = u.contextRegister := by
  unfold commitRMTlbUpdate
  split <;> rfl

/-- The update of the entry, in memory and in the TLB. -/
theorem invariant_update (h : TlbInvariant dom c changed u)
    (hp : PhaseInvariant dom c changed u (.updating q r staged))
    (hc' : c' = c.write dom (r.phyAddrOfPte.toNat / 4) (stageRMUpdateOnCurrentPte r.pte staged
      (c.entryAt dom r.phyAddrOfPte))) :
    TlbInvariant dom c' changed
        (u.commitRMTlbUpdate q.va u.contextRegister r.level staged) ∧
      PhaseInvariant dom c' changed
        (u.commitRMTlbUpdate q.va u.contextRegister r.level staged) (.done q r) := by
  obtain ⟨hs, hcov, haddr⟩ := hp
  have hfollows : Follows dom c c' changed changed := by
    intro k hk
    rw [hc']
    exact ⟨hk, setsRM_write hs c k.word⟩
  -- the word now covers what the MMU holds
  have hword (hk : changed (Copy.of u q r) = false) :
      Covers (c'.entryAt dom r.phyAddrOfPte) staged := by
    have hnew : c'.entryAt dom r.phyAddrOfPte =
        stageRMUpdateOnCurrentPte r.pte staged (c.entryAt dom r.phyAddrOfPte) := by
      rw [hc', entryAt, read_write, if_pos rfl, if_pos (present_of_covers (hcov hk))]
    rw [hnew]
    exact covers_stage hs (hcov hk)
  have hold := h.follows hfollows
  constructor
  · unfold commitRMTlbUpdate
    split
    · refine ⟨hold.atomicRMUpdates, hold.placed.updatePte _ _ _ _,
        hold.unique.updatePte _ _ _ _, ?_,
        ?_⟩
      · intro hoff level e he
        rcases holds_updatePte he with ho | ⟨rfl, e', ho, -, -⟩
        · exact hold.disabled hoff level e ho
        · exact hold.disabled hoff _ e' ho
      · intro level e he hk
        rcases holds_updatePte he with ho | ⟨rfl, e', ho, hhit, rfl⟩
        · exact hold.covered level e ho hk
        · have hsame := haddr e' ho hhit
          have hcopy : Copy.ofEntry r.level e' = Copy.of u q r :=
            ofEntry_eq_of h.placed ho hhit hsame
          change changed (Copy.ofEntry r.level e') = false at hk
          rw [hcopy] at hk
          rw [hsame]
          exact hword hk
    · exact hold
  · intro hk
    rw [Copy.of, contextRegister_commitRMTlbUpdate] at hk
    refine ⟨(hword hk).referenced (MmuCore.referenced_of_staged hs), fun hw => ?_⟩
    rw [hw] at hs
    exact (hword hk).modified (MmuCore.modified_of_staged hs)

/-- Registers and flushes only take entries away. -/
theorem TlbInvariant.control (h : TlbInvariant dom c changed u) (op : Control) :
    TlbInvariant dom c changed (op.apply u) := by
  have hfewer {t : Tlb} (hp : t.Placed) (hle : ∀ level e, t.Holds level e → u.tlb.Holds level e) :
      TlbInvariant dom c changed { u with tlb := t } :=
    ⟨h.atomicRMUpdates, hp, h.unique.of_holds fun level e he => ⟨e, hle level e he, rfl, rfl, rfl⟩,
      fun hoff level e he => h.disabled hoff level e (hle level e he),
      fun level e he hk => h.covered level e (hle level e he) hk⟩
  cases op with
  | readRegister addr =>
    change TlbInvariant dom c changed (u.readRegister addr).2
    unfold MmuCore.readRegister
    split
    all_goals exact ⟨h.atomicRMUpdates, h.placed, h.unique, h.disabled, h.covered⟩
  | writeRegister addr word0 word1 byteMask =>
    change TlbInvariant dom c changed (u.writeRegister addr word0 word1 byteMask)
    unfold MmuCore.writeRegister
    dsimp only
    split
    · exact ⟨h.atomicRMUpdates, h.placed, h.unique, h.disabled, h.covered⟩
    · split
      · have hclear := hfewer h.placed.clear fun level e he => absurd he (not_holds_clear _ level e)
        exact ⟨hclear.atomicRMUpdates, hclear.placed, hclear.unique, hclear.disabled,
          hclear.covered⟩
      · exact ⟨h.atomicRMUpdates, h.placed, h.unique, h.disabled, h.covered⟩
    · exact ⟨h.atomicRMUpdates, h.placed, h.unique, h.disabled, h.covered⟩
    · exact h
  | flush va =>
    change TlbInvariant dom c changed (u.flush va)
    unfold MmuCore.flush
    split
    · exact hfewer (h.placed.flush _ _ _) fun level e he => holds_of_holds_flush he
    · exact h

end Core

/-! ## All cores -/

section Cores

variable {dom}

/-- The invariant of the whole state. -/
def Invariant (dom : Nat → Bool) (s : State ι) : Prop :=
  ∀ i, TlbInvariant dom s.memory (s.copyChanged i) (s.mmu i) ∧
    PhaseInvariant dom s.memory (s.copyChanged i) (s.mmu i) (s.phase i)

variable {i : ι}
variable {s : State ι}

/-- A step of one core: its own part, and what the others see of it. -/
theorem Invariant.set {t : State ι} (h : Invariant dom s) {x : MmuCore × Phase}
    (hmmu : t.mmu = s.mmu) (hphase : t.phase = s.phase)
    (hown : TlbInvariant dom t.memory (t.copyChanged i) x.1 ∧ PhaseInvariant dom t.memory
      (t.copyChanged i) x.1 x.2)
    (hother : ∀ j, j ≠ i → Follows dom s.memory t.memory (s.copyChanged j) (t.copyChanged j)) :
    Invariant dom (t.set i x) := by
  intro j
  by_cases hj : j = i
  · subst hj
    simp only [State.set, update_self]
    exact hown
  · simp only [State.set, update_of_ne hj, hmmu, hphase]
    exact ⟨(h j).1.follows (hother j hj), (h j).2.follows (hother j hj)⟩

theorem Follows.refl (c : Words) (changed : Copy → Bool) :
    Follows dom c c changed changed := fun _ hk => ⟨hk, SetsRM.refl _⟩

/-- What a step can do. -/
inductive Stepped (dom : Nat → Bool) (s : State ι) : Event ι → State ι → Prop
  | hit {i : ι} {q : TranslationRequest} {r : WalkResult}
      (hr : (s.mmu i).tlbLookup q.va (s.mmu i).contextRegister = some r) :
      Stepped dom s (.begin i q) (s.set i (found (s.mmu i) q r true))
  | miss {i : ι} {q : TranslationRequest}
      (hr : (s.mmu i).tlbLookup q.va (s.mmu i).contextRegister = none) :
      Stepped dom s (.begin i q)
        (s.set i (s.mmu i, .walking q ((s.mmu i).beginWalk q.va (s.mmu i).contextRegister)))
  | walk {i : ι} {q : TranslationRequest} {w : Walk} (hp : s.phase i = .walking q w) (w' : Walk) :
      Stepped dom s (.read i)
        ((s.wordRead i (w.curPhyAddr.toNat / 4)).set i (s.mmu i, .walking q w'))
  | walkEnd {i : ι} {q : TranslationRequest} {w : Walk} (hp : s.phase i = .walking q w)
      {r : WalkResult} (hr : r.pte = s.memory.entryAt dom r.phyAddrOfPte) (n : Nat) :
      Stepped dom s (.read i)
        (((s.wordRead i n).copyRead i (Copy.of (s.mmu i) q r)).set i (found (s.mmu i) q r false))
  | update {i : ι} {q : TranslationRequest} {r : WalkResult} {staged : Word}
      (hp : s.phase i = .updating q r staged) {c' : Words}
      (hc' : c' = s.memory.write dom (r.phyAddrOfPte.toNat / 4)
        (if (s.mmu i).atomicRMUpdates then
          stageRMUpdateOnCurrentPte r.pte staged (s.memory.entryAt dom r.phyAddrOfPte)
        else staged)) (n : Nat) :
      Stepped dom s (.update i)
        ({ s.wordRead i n with memory := c' }.set i
          ((s.mmu i).commitRMTlbUpdate q.va (s.mmu i).contextRegister r.level staged, .done q r))
  | control {i : ι} (op : Control) :
      Stepped dom s (.control i op) (s.set i (op.apply (s.mmu i), .idle))
  | write (memory : Words) : Stepped dom s (.write memory) (s.written dom memory)

variable {e : Event ι}
variable {s' : State ι}

theorem stepped_of_step (h : step dom s e = some s') : Stepped dom s e s' := by
  cases e with
  | begin i q =>
    simp only [step] at h
    split at h
    · cases h
    · split at h
      · next r hr =>
        cases h
        exact .hit hr
      · next hr =>
        cases h
        exact .miss hr
  | read i =>
    cases hp : s.phase i with
    | walking q w =>
      simp only [step, hp] at h
      split at h
      · cases h
        exact .walk hp _
      · cases h
        exact .walkEnd hp rfl _
    | _ =>
      simp only [step, hp] at h
      cases h
  | update i =>
    cases hp : s.phase i with
    | updating q r staged =>
      simp only [step, hp] at h
      cases h
      exact .update hp rfl _
    | _ =>
      simp only [step, hp] at h
      cases h
  | control i op =>
    simp only [step] at h
    split at h
    · cases h
    · cases h
      exact .control op
  | write memory =>
    cases h
    exact .write memory

omit [DecidableEq ι] in
/-- When a walk ends, the copy it has read is fresh. -/
theorem Invariant.walkEnd (h : Invariant dom s) {w : Walk} (hp : s.phase i = .walking q w)
    (hr : r.pte = s.memory.entryAt dom r.phyAddrOfPte) :
    TlbInvariant dom s.memory
        (update (s.copyChanged i) (Copy.of (s.mmu i) q r) false) (s.mmu i) ∧
      Used dom s.memory (s.mmu i) q r false := by
  have hmiss : (s.mmu i).tlbLookup q.va (s.mmu i).contextRegister = none := by
    have hphase := (h i).2
    rwa [hp] at hphase
  exact ⟨(h i).1.fresh hmiss r, hmiss, hr⟩

omit [DecidableEq ι] in
theorem Invariant.updating (h : Invariant dom s) (hp : s.phase i = .updating q r staged) :
    PhaseInvariant dom s.memory (s.copyChanged i) (s.mmu i) (.updating q r staged) := by
  rw [← hp]
  exact (h i).2

theorem invariant_step (h : Invariant dom s) (hstep : step dom s e = some s') :
    Invariant dom s' := by
  cases stepped_of_step hstep with
  | @hit i q r hr =>
    have hu : Used dom s.memory (s.mmu i) q r true := hr
    exact h.set rfl rfl (invariant_found (h i).1 hu) fun j _ => Follows.refl _ _
  | @miss i q hr => exact h.set rfl rfl ⟨(h i).1, hr⟩ fun j _ => Follows.refl _ _
  | @walk i q w hp w' =>
    have hphase := (h i).2
    rw [hp] at hphase
    exact h.set rfl rfl ⟨(h i).1, hphase⟩ fun j _ => Follows.refl _ _
  | @walkEnd i q w hp r hr n =>
    obtain ⟨hfresh, hu⟩ := h.walkEnd hp hr
    refine h.set rfl rfl ?_ fun j hj => ?_
    · dsimp only [State.copyRead]
      rw [update_self]
      exact invariant_found hfresh hu
    · dsimp only [State.copyRead]
      rw [update_of_ne hj]
      exact Follows.refl _ _
  | @update i q r staged hp c' hc' n =>
    rw [(h i).1.atomicRMUpdates, if_pos rfl] at hc'
    refine h.set rfl rfl (invariant_update (h i).1 (h.updating hp) hc') fun j _ k hk => ⟨hk, ?_⟩
    rw [hc']
    exact setsRM_write (h.updating hp).1 s.memory k.word
  | @control i op =>
    exact h.set rfl rfl ⟨(h i).1.control op, trivial⟩ fun j _ => Follows.refl _ _
  | write memory =>
    intro j
    have hfollows : Follows dom s.memory memory (s.copyChanged j) fun k =>
        s.copyChanged j k || memory.read dom k.word != s.memory.read dom k.word := by
      intro k hk
      rw [Bool.or_eq_false_iff, bne_eq_false_iff_eq] at hk
      rw [hk.2]
      exact ⟨hk.1, SetsRM.refl _⟩
    exact ⟨(h j).1.follows hfollows, (h j).2.follows hfollows⟩

omit [DecidableEq ι] in
theorem invariant_start (h : Start s) : Invariant dom s := by
  intro i
  refine ⟨⟨h.atomicRMUpdates i, ?_, ?_, ?_, ?_⟩, ?_⟩
  · rw [h.tlb_empty i]
    exact placed_empty
  · rw [h.tlb_empty i]
    exact unique_empty
  · intro _ level e he
    rw [h.tlb_empty i] at he
    exact not_holds_empty level e he
  · intro level e he
    rw [h.tlb_empty i] at he
    exact absurd he (not_holds_empty level e)
  · rw [h.idle i]
    trivial

/-- A step of an MMU sets referenced and modified bits, and nothing else. -/
theorem setsRM_of_step (h : Invariant dom s) (hstep : step dom s e = some s')
    (hmmu : ∀ memory, e ≠ .write memory) (n : Nat) :
    SetsRM (s.memory.read dom n) (s'.memory.read dom n) := by
  cases stepped_of_step hstep with
  | @update i q r staged hp c' hc' _ =>
    rw [(h i).1.atomicRMUpdates, if_pos rfl] at hc'
    subst hc'
    exact setsRM_write (h.updating hp).1 s.memory n
  | write memory => exact absurd rfl (hmmu memory)
  | _ => exact SetsRM.refl _

omit [DecidableEq ι] in
/-- The word of a complete translation has its bits, unless an ordinary write has changed it since
the copy was read. -/
theorem Invariant.recorded (h : Invariant dom s) (hdone : s.phase i = .done q r)
    (hk : s.copyChanged i (Copy.of (s.mmu i) q r) = false) : Recorded dom s.memory q r := by
  have hphase := (h i).2
  rw [hdone] at hphase
  exact hphase hk

end Cores

end SharedTables

end SparcV8
