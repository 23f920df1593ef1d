import SparcV8.Correctness.Annulled
import SparcV8.Mmu.Doubleword
import SparcV8.Processor.Thread

/-!
# The two drivers

One cycle of `SparcStateMachine` and one iteration of `SparcThread`, from the same state. A fetch
that reports an exception traps in the first driver even if the instruction is annulled. And a
refused load or atomic leaves the address of its doubleword in the fault address register below the
first driver, and its own address below the second.
-/

namespace SparcV8

open Opcode SparcCore MmuCore SparcThread SparcStateMachine Option SystemBus

variable {nw : Nat} {τ : Type}

/-! ## What is compared -/

/-- The architectural state of a core. -/
structure CoreView where
  G : Nat → Word
  R : Nat → Word
  f : RegNum → Word
  PSR : Word
  WIM : Word
  TBR : Word
  Y : Word
  FSR : Word
  PC : Word
  nPC : Word
  annul : Bool
  trap : Bool
  flag : TrapFlag → Bool
  interruptLevel : Word
  ticcTrapType : Word
  state : SparcStateType

def SparcCore.view (s : SparcCore nw) : CoreView :=
  { G := s.reg.G, R := s.reg.R, f := s.reg.f, PSR := s.reg.PSR, WIM := s.reg.WIM,
    TBR := s.reg.TBR, Y := s.reg.Y, FSR := s.reg.FSR, PC := s.reg.PC, nPC := s.reg.nPC,
    annul := s.annul, trap := s.trap, flag := s.flag, interruptLevel := s.interruptLevel,
    ticcTrapType := s.ticcTrapType, state := s.state }

/-- The core, the memory and the fault registers. -/
structure SystemView (τ : Type) where
  core : CoreView
  memory : τ
  faultStatus : Word
  faultAddress : Word

def systemView (x : SparcCore nw × (MmuCore × τ)) : SystemView τ :=
  { core := x.1.view, memory := x.2.2, faultStatus := x.2.1.faultStatusRegister,
    faultAddress := x.2.1.faultAddressRegister }

variable {s : SparcCore nw}

/-- The end of an instruction looks at nothing but the architectural state. -/
theorem view_finishInstruction (op : Opcode) {t : SparcCore nw} (h : s.view = t.view) :
    (finishInstruction op s).view = (finishInstruction op t).view := by
  have hstep (s : SparcCore nw) : (finishInstruction op s).view =
      if !s.view.trap && !op.isBranchInstruction then
        { s.view with PC := s.view.nPC, nPC := s.view.nPC + 4 }
      else s.view := by
    unfold finishInstruction
    split
    · next h => exact (if_pos h).symm
    · next h => exact (if_neg h).symm
  rw [hstep, hstep, h]

/-- Two outcomes that differ in the fault address, if the drivers are apart, and else in nothing
compared. -/
def DriversAgree (apart : Prop) (x y : Option (SparcCore nw × (MmuCore × τ))) : Prop :=
  ∃ (c d : Option (SparcCore nw)) (v w : MmuCore × τ),
    x = c.map (fun s => (s, v)) ∧ y = d.map (fun s => (s, w)) ∧
      c.map view = d.map view ∧ v.2 = w.2 ∧
      v.1.faultStatusRegister = w.1.faultStatusRegister ∧
      (v.1.faultAddressRegister = w.1.faultAddressRegister ↔ ¬apart) ∧ (apart → c.isSome)

namespace DriversAgree

variable {apart : Prop} {x y : Option (SparcCore nw × (MmuCore × τ))}

/-- Outcomes with the same core and the same memory. -/
theorem of_view {c d : Option (SparcCore nw)} (v : MmuCore × τ)
    (h : c.map view = d.map view) (hapart : ¬apart) :
    DriversAgree apart (c.map (fun s => (s, v))) (d.map (fun s => (s, v))) :=
  ⟨c, d, v, v, rfl, rfl, h, rfl, rfl, iff_of_true rfl hapart, fun h => absurd h hapart⟩

theorem same (c : Option (SparcCore nw)) (v : MmuCore × τ) (hapart : ¬apart) :
    DriversAgree apart (c.map (fun s => (s, v))) (c.map (fun s => (s, v))) :=
  of_view v rfl hapart

/-- What is done next to the core alone keeps the agreement. -/
theorem map (h : DriversAgree apart x y) {f g : SparcCore nw → SparcCore nw}
    (hfg : ∀ s t, s.view = t.view → (f s).view = (g t).view) :
    DriversAgree apart (x.map (fun z => (f z.1, z.2))) (y.map (fun z => (g z.1, z.2))) := by
  obtain ⟨c, d, v, w, rfl, rfl, hview, hmem, hfsr, hfar, hsome⟩ := h
  refine ⟨c.map f, d.map g, v, w, ?_, ?_, ?_, hmem, hfsr, hfar, ?_⟩
  · rw [map_map, map_map]
    rfl
  · rw [map_map, map_map]
    rfl
  · cases c with
    | none =>
      cases d with
      | none => rfl
      | some t => cases hview
    | some s =>
      cases d with
      | none => cases hview
      | some t => exact congrArg some (hfg s t (some.inj hview))
  · intro ha
    rw [isSome_map]
    exact hsome ha

/-- The outcomes look the same exactly if the drivers are not apart. -/
theorem view_eq_iff (h : DriversAgree apart x y) :
    x.map systemView = y.map systemView ↔ ¬apart := by
  obtain ⟨c, d, v, w, rfl, rfl, hview, hmem, hfsr, hfar, hsome⟩ := h
  cases c with
  | none =>
    cases d with
    | none => exact iff_of_true rfl (fun ha => Bool.false_ne_true (hsome ha))
    | some t => cases hview
  | some s =>
    cases d with
    | none => cases hview
    | some t =>
      rw [← hfar]
      constructor
      · intro heq
        exact congrArg SystemView.faultAddress (some.inj heq)
      · intro heq
        have hcore : s.view = t.view := some.inj hview
        simp [systemView, hcore, hmem, hfsr, heq]

end DriversAgree

/-! ## Memory instructions -/

/-- The access that a checked instruction makes to its data, if it gets so far. -/
def SparcThread.dataRequest (op : Opcode) (s : SparcCore nw) : Option VirtualMemoryRequest :=
  if op.isLoadInstruction then
    let s := executePreLoad op s
    if s.trap then none else some (loadRequest op s)
  else if op.isStoreInstruction then do
    let s ← executePreStore op s
    if s.trap then none else some (writeRequest .STORE s)
  else if op.isLoadStoreAtomicInstruction then do
    let s ← executePreAtomicLoadStore op s
    if s.trap then none else some (writeRequest .ATOMIC_LS s)
  else none

/-- A request inside its doubleword that its page table entry refuses. -/
def MmuCore.refusesInside (phys : PhysicalMemory τ) (x : MmuCore × τ) (r : VirtualMemoryRequest) :
    Bool :=
  r.address % 8 != 0 && x.1.refusesRequest phys r x.2

theorem eq_dwordAddress_iff (va : Word) : va = dwordAddress va ↔ va % 8 = 0 := by
  rw [← BitVec.toNat_inj, ← BitVec.toNat_inj, BitVec.toNat_umod, toNat_dwordAddress]
  change va.toNat = va.toNat / 8 * 8 ↔ va.toNat % 8 = 0
  omega

section Access

variable {phys : PhysicalMemory τ}

/-- Answered accesses whose words and exception go into the same core. -/
theorem DriversAgree.of_access {refused : Bool} {va : Word}
    {x y : VirtualMemoryResponse × (MmuCore × τ)} (h : MmuProcedure.AccessAgrees refused va x y)
    (post : Word → Word → Bool → Option (SparcCore nw))
    (hpost : va % 8 ≠ 0 → ∀ w0 w1 mae, (post w0 w1 mae).isSome) :
    DriversAgree ((va % 8 != 0 && refused) = true)
      ((post y.1.readWord0 y.1.readWord1 y.1.mae).map (fun s => (s, y.2)))
      ((post x.1.readWord0 x.1.readWord1 x.1.mae).map (fun s => (s, x.2))) := by
  refine ⟨_, _, _, _, rfl, rfl, ?_, h.memory_eq, h.faultStatus_eq, ?_, ?_⟩
  · rw [h.readWord0_eq, h.readWord1_eq, h.mae_eq]
  · cases hr : refused with
    | true =>
      obtain ⟨hy, hx⟩ := h.faultAddress_of_refused hr
      rw [hy, hx, eq_dwordAddress_iff, Bool.and_true, bne_iff_ne, not_not]
    | false =>
      rw [Bool.and_false]
      exact iff_of_true (h.faultAddress_of_accepted hr) Bool.false_ne_true
  · intro ha
    exact hpost (bne_iff_ne.1 (Bool.and_eq_true_iff.1 ha).1) _ _ _

/-- A step of the core, then the pairing with the memory. -/
theorem bind_pair {α β : Type} (c : Option α) (v : β) :
    (c.bind fun s => some (s, v)) = c.map (fun s => (s, v)) := by
  cases c <;> rfl

theorem bind_eta {α β : Type} (c : Option (α × β)) : (c.bind fun z => some (z.1, z.2)) = c := by
  cases c <;> rfl

/-- The spaces of loads and stores are named by eight bits. -/
theorem toNat_dataSpace_lt (s : SparcCore nw) : s.dataSpace.toNat < 256 := by
  unfold dataSpace
  split <;> decide

theorem toNat_rAsi_lt (reg : Registers nw) : reg.rAsi.toNat < 256 :=
  toNat_readBits_lt _ (by decide)

variable {op : Opcode}

theorem toNat_addrSpace_loadAddress (ht : ¬(loadAddress op s).trap = true) :
    (loadAddress op s).addrSpace.toNat < 256 := by
  unfold loadAddress at ht ⊢
  split_ifs at ht ⊢
  · exact absurd rfl ht
  · exact absurd rfl ht
  · exact toNat_rAsi_lt s.reg
  · exact toNat_dataSpace_lt s

theorem toNat_addrSpace_storeAddress (op : Opcode) (s : SparcCore nw) :
    (storeAddress op s).addrSpace.toNat < 256 := by
  unfold storeAddress
  split
  · exact toNat_rAsi_lt s.reg
  · exact toNat_dataSpace_lt s

/-- A load that passed its checks inside a doubleword is no doubleword load. -/
theorem ne_LDDC_of_inside {address : Word} (hal : loadMisaligned op address = false)
    (h8 : address % 8 ≠ 0) : op ≠ LDDC := by
  rintro rfl
  refine h8 (umod_eight_of_aligned ?_)
  simpa [loadMisaligned] using hal

theorem executeLoad_agrees (hlock : IgnoresLock phys) (hload : op.isLoadInstruction = true)
    (s : SparcCore nw) (x : MmuCore × τ) :
    DriversAgree ((dataRequest op s).any (refusesInside phys x) = true)
      (SparcThread.executeLoad (MmuProcedure.virtualMemory phys) op s x)
      (executeLoad (virtualMemory phys) op s x) := by
  have hdata : dataRequest op s =
      if (executePreLoad op s).trap then none
      else some (SparcThread.loadRequest op (executePreLoad op s)) := if_pos hload
  rw [hdata, SparcThread.executeLoad, executeLoad]
  by_cases ht : (executePreLoad op s).trap = true
  · simp only [if_pos ht]
    exact .same (some _) x Bool.false_ne_true
  · simp only [if_neg ht]
    obtain ⟨heq, hal, -⟩ := (executePreLoad_cases op s).resolve_left ht
    rw [heq] at ht ⊢
    generalize hp : loadAddress op s = p at hal ht
    have hasi : p.addrSpace.toNat < 256 := by
      rw [← hp] at ht ⊢
      exact toNat_addrSpace_loadAddress ht
    have hagree := MmuProcedure.agrees_load hlock x.1 x.2
      (r := SparcThread.loadRequest op p) rfl hasi
    have h := DriversAgree.of_access hagree.toAccessAgrees
      (fun w0 w1 mae => executePostLoad op w0 w1 { p with MAE := mae })
      (fun h8 w0 w1 mae =>
        isSome_executePostLoad hload (ne_LDDC_of_inside hal h8) (s := { p with MAE := mae }) hal
          w0 w1)
    rw [← bind_pair, ← bind_pair] at h
    exact h

/-- Stores are placed at the start of their doubleword. -/
theorem placeStore_at_doubleword {t : SparcCore nw} (h : placeStore op s = some t) :
    t.address % 8 = 0 ∧ t.addrSpace = s.addrSpace := by
  simp only [placeStore, bind_eq_bind, bind_eq_some_iff] at h
  obtain ⟨⟨byteMask, data0⟩, -, h⟩ := h
  split at h
  · simp only [bind_eq_some_iff] at h
    obtain ⟨data1, -, h⟩ := h
    split at h
    · next h8 =>
      cases h
      exact ⟨h8, rfl⟩
    · cases h
  split at h
  · next h8 =>
    cases h
    exact ⟨h8, rfl⟩
  · cases h
    have hround : s.address &&& ~~~3 &&& ~~~4 = dwordAddress s.address := by
      rw [BitVec.and_assoc]
      rfl
    refine ⟨?_, rfl⟩
    rw [hround, ← eq_dwordAddress_iff, dwordAddress_dwordAddress]

theorem executeStore_agrees (hlock : IgnoresLock phys) (hload : op.isLoadInstruction = false)
    (hstore : op.isStoreInstruction = true) (s : SparcCore nw) (x : MmuCore × τ) :
    DriversAgree ((dataRequest op s).any (refusesInside phys x) = true)
      (SparcThread.executeStore (MmuProcedure.virtualMemory phys) op s x)
      (executeStore (virtualMemory phys) op s x) := by
  have hdata : dataRequest op s =
      (executePreStore op s).bind (fun p =>
        if p.trap then none else some (SparcThread.writeRequest .STORE p)) := by
    rw [dataRequest, if_neg (by rw [hload]; decide), if_pos hstore]
    rfl
  rw [hdata, SparcThread.executeStore, executeStore]
  cases hp : executePreStore op s with
  | none => exact .same none x Bool.false_ne_true
  | some p =>
    simp only [bind_eq_bind, bind_some]
    by_cases ht : p.trap = true
    · simp only [if_pos ht]
      exact .same (some p) x Bool.false_ne_true
    · simp only [if_neg ht]
      rcases executePreStore_cases op s with ⟨t, h, htt⟩ | ⟨h, -⟩
      · obtain rfl := some.inj (hp.symm.trans h)
        exact absurd htt ht
      have hplace := h.symm.trans hp
      obtain ⟨h8, hspace⟩ := placeStore_at_doubleword hplace
      have hasi : p.addrSpace.toNat < 256 := by
        rw [hspace]
        exact toNat_addrSpace_storeAddress op s
      have hagree := MmuProcedure.agrees_store hlock x.1 x.2
        (r := SparcThread.writeRequest .STORE p) rfl hasi ((eq_dwordAddress_iff _).2 h8).symm
      exact DriversAgree.of_access hagree.toAccessAgrees
        (fun _ _ mae => some (storeResponse p { mae := mae })) (fun hne => absurd h8 hne)

theorem executeAtomic_agrees (hlock : IgnoresLock phys) (hload : op.isLoadInstruction = false)
    (hstore : op.isStoreInstruction = false) (hatomic : op.isLoadStoreAtomicInstruction = true)
    (s : SparcCore nw) (x : MmuCore × τ) :
    DriversAgree ((dataRequest op s).any (refusesInside phys x) = true)
      (SparcThread.executeAtomic (MmuProcedure.virtualMemory phys) op s x)
      (executeAtomic (virtualMemory phys) op s x) := by
  have hdata : dataRequest op s =
      (executePreAtomicLoadStore op s).bind (fun p =>
        if p.trap then none else some (SparcThread.writeRequest .ATOMIC_LS p)) := by
    rw [dataRequest, if_neg (by rw [hload]; decide), if_neg (by rw [hstore]; decide),
      if_pos hatomic]
    rfl
  rw [hdata, SparcThread.executeAtomic, executeAtomic]
  cases hp : executePreAtomicLoadStore op s with
  | none => exact .same none x Bool.false_ne_true
  | some p =>
    simp only [bind_eq_bind, bind_some]
    by_cases ht : p.trap = true
    · simp only [if_pos ht]
      exact .same (some p) x Bool.false_ne_true
    · simp only [if_neg ht]
      have hagree := MmuProcedure.agrees_atomic hlock x.1 x.2
        (r := SparcThread.writeRequest .ATOMIC_LS p) rfl
      have h := DriversAgree.of_access hagree.toAccessAgrees
        (fun w0 w1 mae => executePostAtomicLoadStore op w0 w1 { p with MAE := mae })
        (fun _ w0 w1 mae => isSome_executePostAtomicLoadStore op { p with MAE := mae } w0 w1)
      rw [← bind_pair, ← bind_pair] at h
      exact h

/-! ## Instructions -/

/-- The tests of the drivers put every opcode into one class. -/
theorem opcode_class (op : Opcode) :
    (op.isMemoryInstruction = true ∧ op.isLoadInstruction = true ∧ op.isStoreInstruction = false ∧
      op.isLoadStoreAtomicInstruction = false ∧ (op == FLUSH) = false) ∨
    (op.isMemoryInstruction = true ∧ op.isLoadInstruction = false ∧ op.isStoreInstruction = true ∧
      op.isLoadStoreAtomicInstruction = false ∧ (op == FLUSH) = false) ∨
    (op.isMemoryInstruction = true ∧ op.isLoadInstruction = false ∧ op.isStoreInstruction = false ∧
      op.isLoadStoreAtomicInstruction = true ∧ (op == FLUSH) = false) ∨
    op = FLUSH ∨ op = STBAR ∨
    (op.isMemoryInstruction = false ∧ op.isLoadInstruction = false ∧
      op.isStoreInstruction = false ∧ op.isLoadStoreAtomicInstruction = false ∧
      (op == FLUSH) = false) := by
  cases op <;> decide

/-- A checked instruction, executed by both drivers. -/
theorem executeChecked_agrees (hlock : IgnoresLock phys) (fpu : FloatingPointFunctions)
    (op : Opcode) (s : SparcCore nw) (x : MmuCore × τ) :
    DriversAgree ((dataRequest op s).any (refusesInside phys x) = true)
      (executeChecked fpu (MmuProcedure.virtualMemory phys) op s x)
      ((executeCurrentInstruction fpu (virtualMemory phys) op s x).map
        (fun z => (completeFPop op z.1, z.2))) := by
  have hother (h : dataRequest op s = none) :
      ¬(dataRequest op s).any (refusesInside phys x) = true := by
    rw [h]
    exact Bool.false_ne_true
  rcases opcode_class op with ⟨hmem, hload, hstore, hatomic, hflush⟩ |
    ⟨hmem, hload, hstore, hatomic, hflush⟩ | ⟨hmem, hload, hstore, hatomic, hflush⟩ | rfl | rfl |
    ⟨hmem, hload, hstore, hatomic, hflush⟩
  · have h := executeLoad_agrees hlock hload s x
    simp only [executeChecked, executeMemoryInstruction, executeCurrentInstruction,
      completeFPop_of_memory (.inl hload), hmem, hload, hstore, hatomic, hflush, Bool.not_true,
      if_off, if_true, bind_eq_bind, bind_some, bind_eta, map_id']
    exact h
  · have h := executeStore_agrees hlock hload hstore s x
    simp only [executeChecked, executeMemoryInstruction, executeCurrentInstruction,
      completeFPop_of_memory (.inr (.inl hstore)), hmem, hload, hstore, hatomic, hflush,
      Bool.not_true, if_off, if_true, bind_eq_bind, bind_some, bind_eta, map_id']
    exact h
  · have h := executeAtomic_agrees hlock hload hstore hatomic s x
    simp only [executeChecked, executeMemoryInstruction, executeCurrentInstruction,
      completeFPop_of_memory (.inr (.inr (.inl hatomic))), hmem, hload, hstore, hatomic, hflush,
      Bool.not_true, if_off, if_true, bind_eq_bind, bind_some, bind_eta, map_id']
    exact h
  · have hcurrent : executeCurrentInstruction fpu (virtualMemory phys) FLUSH s x =
        some (s.executePreFlush, x) := rfl
    rw [hcurrent, map_some, completeFPop_of_memory (.inr (.inr (.inr rfl)))]
    exact .same (some s.executePreFlush) x (hother rfl)
  · have hcurrent : executeCurrentInstruction fpu (virtualMemory phys) STBAR s x =
        some (s.executeSTBAR, x) := rfl
    have hfp : (STBAR.isFpop1Instruction || STBAR.isFpop2Instruction) = false := rfl
    rw [hcurrent, map_some, completeFPop, hfp, Bool.and_false, if_neg (by decide)]
    exact .of_view x (c := some s) (d := some s.executeSTBAR) rfl (hother rfl)
  · have hdata : dataRequest op s = none := by
      simp [dataRequest, hload, hstore, hatomic]
    have h := DriversAgree.same ((executeInstruction fpu op s).map (completeFPop op)) x
      (hother hdata)
    simp only [executeChecked, executeCurrentInstruction, hmem, hload, hstore, hatomic,
      hflush, Bool.not_false, if_off, if_true, bind_eq_bind]
    cases hs : executeInstruction fpu op s with
    | none =>
      rw [hs] at h
      exact h
    | some t =>
      rw [hs] at h
      exact h

theorem state_checkInstructionException (op : Opcode) (s : SparcCore nw) :
    (checkInstructionException op s).state = s.state := by
  simp only [checkInstructionException]
  split_ifs <;> rfl

/-- The data access of a decoded instruction, if it passes all its checks. -/
def SparcThread.decodedRequest (s : SparcCore nw) : Option VirtualMemoryRequest := do
  let op ← s.reg.decode
  let s := checkInstructionException op s
  if s.trap then none else dataRequest op s

/-- The rest of an instruction that is not annulled, after its fetch. -/
theorem dispatch_agrees (hlock : IgnoresLock phys) (fpu : FloatingPointFunctions)
    (hop : s.reg.decode = some op) (hs : s.state = .EXECUTE) (ha : s.annul = false)
    (x : MmuCore × τ) :
    DriversAgree ((decodedRequest s).any (refusesInside phys x) = true)
      (dispatch fpu (MmuProcedure.virtualMemory phys) op s x)
      (dispatchInstruction fpu (virtualMemory phys) op s x) := by
  have hdata : decodedRequest s =
      if (checkInstructionException op s).trap then none
      else dataRequest op (checkInstructionException op s) := by
    rw [decodedRequest, hop]
    rfl
  have hskip : ¬s.annul = true := by
    rw [ha]
    decide
  rw [hdata, dispatch, dispatchInstruction, if_neg hskip]
  by_cases ht : (checkInstructionException op s).trap = true
  · simp only [ht, if_true, Bool.true_eq_false, and_false, if_false]
    exact .same (some (checkInstructionException op s)) x Bool.false_ne_true
  · have hgo : (checkInstructionException op s).state = .EXECUTE ∧
        (checkInstructionException op s).trap = false :=
      ⟨(state_checkInstructionException op s).trans hs, by simpa using ht⟩
    simp only [if_neg ht, if_pos hgo]
    have h := (executeChecked_agrees hlock fpu op (checkInstructionException op s) x).map
      (fun _ _ hview => view_finishInstruction op hview)
    rw [map_map, map_eq_bind, map_eq_bind] at h
    exact h

/-! ## Cycles -/

/-- The fetch of an annulled instruction is answered with an exception. -/
def annulledFetchRefused (phys : PhysicalMemory τ) (s : SparcCore nw) (x : MmuCore × τ) : Bool :=
  s.annul && (access phys s.fetchRequest x).1.mae

/-- The fetched instruction is executed, and its access inside a doubleword is refused. -/
def dataRefusedInside (phys : PhysicalMemory τ) (s : SparcCore nw) (x : MmuCore × τ) : Bool :=
  let y := access phys s.fetchRequest x
  !s.annul && !y.1.mae &&
    (decodedRequest ({ s with MAE := false }.fetched y.1.readWord0)).any
      (refusesInside phys y.2)

section Fetch

variable {σ : Type} (fpu : FloatingPointFunctions) {mem : VirtualMemory σ} {m m' : σ}
  {response : VirtualMemoryResponse} (hf : mem.access s.fetchRequest m = (response, m'))
  (ht : s.trap = false)

include hf ht

/-- The second driver after a fetch that does not trap it. -/
theorem SparcThread.fetchAndExecute_of_accepted (hs : s.state = .EXECUTE)
    (h : (response.mae && !s.annul) = false) :
    fetchAndExecute fpu mem s m = (do
      let op ← ({ s with MAE := response.mae }.fetched response.readWord0).reg.decode
      dispatch fpu mem op ({ s with MAE := response.mae }.fetched response.readWord0) m') := by
  have hexamine : examineFetch s response = { s with MAE := response.mae } :=
    if_neg (by rw [h]; decide)
  rw [fetchAndExecute, hf]
  dsimp only
  rw [hexamine, if_pos ⟨hs, ht⟩]
  rfl

/-- An annulled instruction, fetched without a trap, is skipped. -/
theorem SparcThread.fetchAndExecute_annulled (hs : s.state = .EXECUTE) (ha : s.annul = true) :
    fetchAndExecute fpu mem s m =
      some (skipAnnulled ({ s with MAE := response.mae }.fetched response.readWord0), m') := by
  obtain ⟨op, hop, -⟩ := exists_decoded
    ({ s with MAE := response.mae }.fetched response.readWord0).reg
  rw [fetchAndExecute_of_accepted fpu hf ht hs (by rw [ha]; exact Bool.and_false _), hop]
  exact if_pos ha

omit ht in
/-- The second driver after a fetch that traps. -/
theorem SparcThread.fetchAndExecute_of_refused (hmae : response.mae = true) (ha : s.annul = false) :
    fetchAndExecute fpu mem s m =
      some ({ s with MAE := true }.raise .instructionAccessException, m') := by
  have hexamine : examineFetch s response =
      { s with MAE := true }.raise .instructionAccessException := by
    rw [examineFetch, hmae, ha]
    exact if_pos rfl
  rw [fetchAndExecute, hf]
  dsimp only
  rw [hexamine, if_neg (fun h => Bool.false_ne_true h.2.symm)]

omit ht in
/-- The first driver after a refused fetch; a second trap changes nothing. -/
theorem view_fetchAndExecute_of_refused (hmae : response.mae = true) :
    ∃ t, fetchAndExecute fpu mem s m = some (t, m') ∧
      t.view = (s.raise .instructionAccessException).view := by
  have hfetch : instructionFetch mem s m =
      ((if s.annul = false then { s with MAE := true }.raise .instructionAccessException
        else { s with MAE := true }).fetched response.readWord0, m') := by
    simp only [instructionFetch, hf, hmae, true_and]
    rfl
  rw [fetchAndExecute, hfetch]
  by_cases ha : s.annul = false
  · rw [if_pos ha]
    refine ⟨_, rfl, ?_⟩
    simp [view, raise, fetched, recheckFetch, Function.update_idem]
  · rw [if_neg ha]
    exact ⟨_, rfl, rfl⟩

/-- The first driver skips an annulled instruction whose fetch is not refused. -/
theorem fetchAndExecute_annulled (hmae : response.mae = false) (ha : s.annul = true) :
    fetchAndExecute fpu mem s m =
      some (skipAnnulled ({ s with MAE := false }.fetched response.readWord0), m') := by
  simp [fetchAndExecute, instructionFetch, recheckFetch, hf, hmae, ha, ht, fetched]

end Fetch

theorem toNat_asi_fetchRequest (s : SparcCore nw) : s.fetchRequest.asi.toNat < 256 := by
  unfold fetchRequest
  dsimp only
  split <;> decide

/-- A fetch and what follows it, in both drivers. -/
theorem fetchAndExecute_view_iff (hlock : IgnoresLock phys) (fpu : FloatingPointFunctions)
    (hs : s.state = .EXECUTE) (ht : s.trap = false) (x : MmuCore × τ) :
    (SparcThread.fetchAndExecute fpu (MmuProcedure.virtualMemory phys) s x).map systemView =
        (fetchAndExecute fpu (virtualMemory phys) s x).map systemView ↔
      annulledFetchRefused phys s x = false ∧ dataRefusedInside phys s x = false := by
  have hfetch : MmuProcedure.access phys s.fetchRequest x = access phys s.fetchRequest x :=
    MmuProcedure.access_read_eq hlock x.1 x.2 (.inl rfl) (toNat_asi_fetchRequest s)
  rcases hy : access phys s.fetchRequest x with ⟨response, x'⟩
  have hf : (virtualMemory phys).access s.fetchRequest x = (response, x') := hy
  have hf' : (MmuProcedure.virtualMemory phys).access s.fetchRequest x = (response, x') :=
    hfetch.trans hy
  have hannul : annulledFetchRefused phys s x = (s.annul && response.mae) := by
    rw [annulledFetchRefused, hy]
  have hinside : dataRefusedInside phys s x = (!s.annul && !response.mae &&
      (decodedRequest ({ s with MAE := false }.fetched response.readWord0)).any
        (refusesInside phys x')) := by
    rw [dataRefusedInside, hy]
  rcases Bool.eq_false_or_eq_true response.mae with hmae | hmae
  · obtain ⟨t, hfirst, hview⟩ := view_fetchAndExecute_of_refused fpu hf hmae
    rcases Bool.eq_false_or_eq_true s.annul with ha | ha
    · rw [hfirst, SparcThread.fetchAndExecute_annulled fpu hf' ht hs ha, hannul, ha, hmae]
      refine iff_of_false (fun h => ?_) (fun h => Bool.false_ne_true h.1.symm)
      have hcore := (congrArg SystemView.core (some.inj h)).trans hview
      exact Bool.false_ne_true (ht.symm.trans (congrArg CoreView.trap hcore))
    · have hcond : annulledFetchRefused phys s x = false ∧ dataRefusedInside phys s x = false := by
        rw [hannul, hinside, ha, hmae]
        exact ⟨rfl, rfl⟩
      refine iff_of_true ?_ hcond
      rw [hfirst, SparcThread.fetchAndExecute_of_refused fpu hf' hmae ha]
      simp only [map_some, systemView, hview]
      rfl
  · rcases Bool.eq_false_or_eq_true s.annul with ha | ha
    · have hcond : annulledFetchRefused phys s x = false ∧ dataRefusedInside phys s x = false := by
        rw [hannul, hinside, ha, hmae]
        exact ⟨rfl, rfl⟩
      refine iff_of_true ?_ hcond
      rw [SparcThread.fetchAndExecute_annulled fpu hf' ht hs ha,
        fetchAndExecute_annulled fpu hf ht hmae ha, hmae]
    · obtain ⟨op, hop, -⟩ := exists_decoded
        ({ s with MAE := false }.fetched response.readWord0).reg
      have h := (dispatch_agrees hlock fpu hop hs ha x').view_eq_iff
      rw [SparcThread.fetchAndExecute_of_accepted fpu hf' ht hs (by rw [hmae]; rfl),
        fetchAndExecute_eq_executeWord fpu _ hf hmae ha ht, hmae, executeWord, hop]
      refine h.trans ?_
      rw [Bool.not_eq_true, hannul, hinside, ha, hmae, Bool.and_self, Bool.not_false, Bool.and_self,
        Bool.true_and]
      exact (and_iff_right rfl).symm

/-! ## The drivers -/

theorem state_takeTraps (hs : s.state = .EXECUTE) :
    (takeTraps s).state = .EXECUTE ∨ (takeTraps s).state = .ERROR := by
  have hselect (t : SparcCore nw) (ht : t.state = .EXECUTE) :
      t.selectTrap.state = .EXECUTE ∨ t.selectTrap.state = .ERROR := by
    change t.chooseTrap.state = _ ∨ t.chooseTrap.state = _
    unfold chooseTrap
    split_ifs
    · exact .inl ht
    · exact .inr rfl
    · split
      · exact .inl ht
      · exact .inl ht
  have hcheck : s.checkExternalTraps.state = .EXECUTE := by
    unfold checkExternalTraps
    split
    · exact hs
    · exact hs
  rw [takeTraps, executeTraps]
  split
  · dsimp only
    split
    · next herror => exact .inr herror
    · next herror =>
      left
      have h := (hselect _ hcheck).resolve_right herror
      unfold jumpToVector saveReturn
      split_ifs <;> exact h
  · exact .inl hcheck

/-- A cycle of the one driver and an iteration of the other end in the same state of the core, the
memory and the fault registers, unless the fetch of an annulled instruction or an access inside a
doubleword is refused. -/
theorem drivers_agree_iff (hlock : IgnoresLock phys) (fpu : FloatingPointFunctions)
    (s : SparcCore nw) (hs : s.state = .EXECUTE) (u : MmuCore) (m : τ) :
    (iterate fpu (MmuProcedure.virtualMemory phys) false s (u, m)).map systemView =
        (runOneCycle fpu (virtualMemory phys) ⟨s, (u, m), false⟩).map
          (fun y => systemView (y.core, y.mem)) ↔
      ((takeTraps s).state = .EXECUTE →
        annulledFetchRefused phys (takeTraps s) (u, m) = false ∧
          dataRefusedInside phys (takeTraps s) (u, m) = false) := by
  have ht : (takeTraps s).trap = false := trap_executeTraps _
  have hnot : ¬s.state ≠ .EXECUTE := not_not.2 hs
  simp only [iterate, runOneCycle, leaveReset_of_execute hs, if_off, if_pos hs, if_neg hnot]
  rcases state_takeTraps hs with hrun | hstop
  · have h := fetchAndExecute_view_iff hlock fpu hrun ht (u, m)
    have hne : ¬(takeTraps s).state = .ERROR := by
      rw [hrun]
      decide
    simp only [if_pos hrun, if_neg hne]
    refine Iff.trans ?_ (h.trans ⟨fun h _ => h, fun h => h hrun⟩)
    cases fetchAndExecute fpu (virtualMemory phys) (takeTraps s) (u, m) <;> rfl
  · have hne : ¬(takeTraps s).state = .EXECUTE := by
      rw [hstop]
      decide
    simp only [if_neg hne, if_pos hstop]
    exact iff_of_true rfl (fun h => absurd h hne)

end Access

/-- The flat bus without devices. -/
def flatBus : PhysicalMemory (MemCore × Unit) := physicalMemory {} noDevices

theorem ignoresLock_flatBus : IgnoresLock flatBus :=
  ignoresLock {} (fun _ _ _ => rfl)

/-- A core about to execute at address 8, in supervisor mode. -/
def executingCore : SparcCore 8 :=
  { resetCore with state := .EXECUTE, reg := { resetCore.reg with PC := 8, nPC := 12 } }

/-- One page for all addresses with this entry, and at 8 a load from address 4. -/
def loadBus (entry : Word) : MemCore × Unit :=
  (⟨fun i => if i = 0 then entry else if i = 1 then 5 else if i = 2 then 0xC2002004 else 0⟩, ())

/-- Both drivers load the word through the page and set the referenced bit. -/
theorem drivers_agree_load :
    (runOneCycle default (virtualMemory flatBus)
        ⟨executingCore, (mmuOn, loadBus 0xE), false⟩).map
          (fun y => (y.core.reg.rR 1, y.mem.2.1.readWord 0)) = some (5, 0x2E) ∧
      (iterate default (MmuProcedure.virtualMemory flatBus) false executingCore
          (mmuOn, loadBus 0xE)).map systemView =
        (runOneCycle default (virtualMemory flatBus)
          ⟨executingCore, (mmuOn, loadBus 0xE), false⟩).map
            (fun y => systemView (y.core, y.mem)) :=
  ⟨by decide, (drivers_agree_iff ignoresLock_flatBus default executingCore rfl
    mmuOn (loadBus 0xE)).2 (fun _ => by decide)⟩

/-- The page may be executed and not read. -/
def executeOnlyBus : MemCore × Unit := loadBus 0x32

/-- The load faults in both drivers; for one it was at address 0. -/
theorem drivers_differ_in_fault_address :
    executingCore.state = .EXECUTE ∧
      (iterate default (MmuProcedure.virtualMemory flatBus) false executingCore
          (mmuOn, executeOnlyBus)).map (fun y => (systemView y).faultAddress) = some 4 ∧
      (runOneCycle default (virtualMemory flatBus)
          ⟨executingCore, (mmuOn, executeOnlyBus), false⟩).map
            (fun y => (systemView (y.core, y.mem)).faultAddress) = some 0 :=
  ⟨rfl, by decide, by decide⟩

end SparcV8
