import SparcV8.Correctness.CachedFaults

/-!
# The history of the fault registers

The fault registers describe the faults since the fault status register was last read: the last data
fault if there is one, else the last instruction fault.
-/

namespace SparcV8

/-- A fault as it is recorded; the status is without the overwrite bit. -/
structure Fault where
  status : Word
  address : Word
  isInstructionFetch : Bool

namespace MmuCore

variable {τ : Type} (phys : PhysicalMemory τ) (u : MmuCore) (r : VirtualMemoryRequest) (m : τ)

/-- The fault of a request, from the entry found for its address. -/
def requestFault : Option Fault :=
  let entry := (u.findEntry phys r.address m).1
  let fault := checkFault r.asi r.isWrite r.isAtomic entry.pte
  if u.translatesRequest r ∧ fault.2 ≠ .NONE then
    some ⟨faultStatus fault.1 fault.2 entry.level, r.address, r.isFetch⟩
  else none

/-- The request reads the fault status register. -/
def readsFaultStatus : Bool :=
  u.accessesRegister r && r.accessType != .STORE && readBits r.address 31 8 == 3

variable {u r}

/-- A register access is not translated. -/
theorem accessesRegister_of_translatesRequest (hr : u.translatesRequest r = true) :
    u.accessesRegister r = false := by
  by_contra h
  simp only [accessesRegister, Bool.not_eq_false, Bool.and_eq_true, Bool.or_eq_true, beq_iff_eq,
    or_assoc] at h
  rw [translatesRequest_eq h.2, h.1.2] at hr
  simp at hr

/-- A read of the status clears it. -/
theorem faultRecord_readRegister (addr : Word) : (u.readRegister addr).2.faultRecord =
    if readBits addr 31 8 = 3 then (0, u.faultAddressRegister, .NO_FAULT) else u.faultRecord := by
  have hcode : readBits addr 31 8 = 3 ↔ (readBits addr 31 8).toNat = 3 := by
    rw [← BitVec.toNat_inj]
    rfl
  rw [if_congr hcode rfl rfl]
  unfold readRegister
  generalize (readBits addr 31 8).toNat = code
  split
  · rfl
  · rfl
  · rfl
  · rfl
  · rfl
  · next h _ => rw [if_neg h]

/-- A request that is not translated leaves the record, but for a read of the status. -/
theorem faultRecord_of_untranslated (hr : u.translatesRequest r = false) :
    (access phys r (u, m)).2.1.faultRecord =
      if u.readsFaultStatus r then (0, u.faultAddressRegister, .NO_FAULT) else u.faultRecord := by
  have hstep : UntranslatedStep u r (access phys r (u, m)).2.1 := untranslatedStep_access hr
  generalize (access phys r (u, m)).2.1 = u' at hstep ⊢
  cases hstep with
  | same h _ => simp [readsFaultStatus, h, faultRecord]
  | read h hk => simp [readsFaultStatus, h, hk, faultRecord_readRegister]
  | write h hk =>
    simp only [readsFaultStatus, hk, bne_self_eq_false, Bool.and_false, Bool.false_and,
      if_off, writeRegister]
    split
    · rfl
    · split <;> rfl
    · rfl
    · rfl
  | flush h _ =>
    simp only [readsFaultStatus, h, Bool.false_and, if_off, flush]
    split <;> rfl

/-- The bits of the entry are set without a word in the record. -/
theorem faultRecord_updateRM (va : Word) (e : WalkResult) (isWrite : Bool) :
    (u.updateRM phys va e isWrite m).1.faultRecord = u.faultRecord := by
  unfold updateRM
  split
  · rfl
  · dsimp only [commitRMTlbUpdate]
    split <;> rfl

/-- What an access does to the fault registers. -/
theorem faultRecord_access : (access phys r (u, m)).2.1.faultRecord =
    match u.requestFault phys r m with
    | some f => (u.updateFsrFar f.status f.address
        (if f.isInstructionFetch then .IACCESS_FAULT else .DACCESS_FAULT)).faultRecord
    | none =>
      if u.readsFaultStatus r then (0, u.faultAddressRegister, .NO_FAULT) else u.faultRecord := by
  unfold requestFault
  cases hr : u.translatesRequest r with
  | false =>
    rw [if_neg (by simp)]
    exact faultRecord_of_untranslated phys m hr
  | true =>
    rw [access_of_translatesRequest phys hr, translateRequest,
      u.translate_eq phys (translates_of_translatesRequest hr)]
    by_cases hnone : (checkFault r.asi r.isWrite r.isAtomic
        (u.findEntry phys r.address m).1.pte).2 = .NONE
    · rw [if_pos hnone, if_neg (by simp [hnone]), readsFaultStatus,
        accessesRegister_of_translatesRequest hr]
      refine (faultRecord_complete phys _ r _ _).trans ?_
      exact (faultRecord_updateRM phys ..).trans (faultRecord_commitTranslation ..)
    · rw [if_neg hnone, if_pos ⟨rfl, hnone⟩]
      rfl

end MmuCore

open MmuCore

/-! ## Runs -/

/-- The faults of each class since the status was last read, the last one first, and the address of
the last fault that went to the fault address register. -/
structure FaultHistory where
  data : List Fault
  instruction : List Fault
  address : Word

namespace FaultHistory

/-- An instruction fault after a data fault does not go to the fault registers. -/
def record (g : FaultHistory) (f : Fault) : FaultHistory :=
  if f.isInstructionFetch then
    { g with
      instruction := f :: g.instruction
      address := if g.data.isEmpty then f.address else g.address }
  else { g with data := f :: g.data, address := f.address }

/-- The record of the last fault of a class, after the earlier ones. -/
def lastRecord (f : Fault) (earlier : List Fault) (faultClass : FaultClass) :
    Word × Word × FaultClass :=
  (writeBits f.status 0 0 (if earlier.isEmpty then 0 else 1), f.address, faultClass)

/-- What the fault registers hold after a history. -/
def described (g : FaultHistory) : Word × Word × FaultClass :=
  match g.data, g.instruction with
  | f :: earlier, _ => lastRecord f earlier .DACCESS_FAULT
  | [], f :: earlier => lastRecord f earlier .IACCESS_FAULT
  | [], [] => (0, g.address, .NO_FAULT)

variable {τ : Type} (phys : PhysicalMemory τ)

/-- An access, with the memory as it finds it. -/
def step (x : MmuCore × FaultHistory) (e : VirtualMemoryRequest × τ) : MmuCore × FaultHistory :=
  ((access phys e.1 (x.1, e.2)).2.1,
    match x.1.requestFault phys e.1 e.2 with
    | some f => x.2.record f
    | none =>
      if x.1.readsFaultStatus e.1 then { x.2 with data := [], instruction := [] } else x.2)

/-- The fault registers are those of the history. -/
def Agrees (x : MmuCore × FaultHistory) : Prop :=
  x.1.faultRecord = x.2.described ∧ x.1.faultAddressRegister = x.2.address

/-- A fault, whatever the history before it. -/
theorem described_record {u : MmuCore} {g : FaultHistory} (h : u.faultRecord = g.described)
    (haddress : u.faultAddressRegister = g.address) (f : Fault) :
    (u.updateFsrFar f.status f.address
        (if f.isInstructionFetch then .IACCESS_FAULT else .DACCESS_FAULT)).faultRecord =
      (g.record f).described ∧ (g.record f).described.2.1 = (g.record f).address := by
  have hclass : u.faultClass = g.described.2.2 := congrArg (·.2.2) h
  obtain ⟨data, instruction, address⟩ := g
  cases data with
  | nil =>
    cases instruction <;> cases hf : f.isInstructionFetch <;>
      simp [described, lastRecord] at hclass <;>
      simp [record, described, lastRecord, updateFsrFar, faultRecord, hf, hclass]
  | cons d earlier =>
    cases hf : f.isInstructionFetch with
    | false =>
      simp [described, lastRecord] at hclass
      simp [record, described, lastRecord, updateFsrFar, faultRecord, hf, hclass]
    | true =>
      have hsame : u.updateFsrFar f.status f.address .IACCESS_FAULT = u := by
        simp [updateFsrFar, hclass, described, lastRecord]
      simp only [record, hf, if_true, hsame]
      exact ⟨h, (congrArg (·.2.1) h).symm.trans haddress⟩

/-- Every access keeps the registers and the history together. -/
theorem Agrees.step {x : MmuCore × FaultHistory} (h : Agrees x) (e : VirtualMemoryRequest × τ) :
    Agrees (step phys x e) := by
  have haccess := faultRecord_access (u := x.1) (r := e.1) phys e.2
  unfold FaultHistory.step
  cases hfault : x.1.requestFault phys e.1 e.2 with
  | some f =>
    rw [hfault] at haccess
    obtain ⟨hrecord, haddress⟩ := described_record h.1 h.2 f
    exact ⟨haccess.trans hrecord, (congrArg (·.2.1) (haccess.trans hrecord)).trans haddress⟩
  | none =>
    rw [hfault] at haccess
    cases hread : x.1.readsFaultStatus e.1 with
    | true =>
      rw [hread, h.2] at haccess
      exact ⟨haccess, congrArg (·.2.1) haccess⟩
    | false =>
      rw [hread] at haccess
      exact ⟨haccess.trans h.1, (congrArg (·.2.1) haccess).trans h.2⟩

/-- After any accesses from reset, whatever the memory holds at each, the fault registers
describe the last data fault since the status was read, or else the last instruction fault, and
the overwrite bit says that there were several of that class; without a fault the status is 0 and
the address is that of the last fault recorded there. -/
theorem fault_registers_describe_history (mmuIsPresent tlbEnabled atomicRMUpdates : Bool)
    (layout : SystemAddressMap.Layout) (es : List (VirtualMemoryRequest × τ)) :
    Agrees (es.foldl (FaultHistory.step phys)
      (MmuCore.initial mmuIsPresent tlbEnabled atomicRMUpdates layout, ⟨[], [], 0⟩)) :=
  List.foldlRecOn (motive := Agrees) es (FaultHistory.step phys) ⟨rfl, rfl⟩
    fun _ h e _ => h.step phys e

end FaultHistory

end SparcV8
