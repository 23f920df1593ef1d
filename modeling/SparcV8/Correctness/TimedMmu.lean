import SparcV8.Core.Machine.Transition
import SparcV8.Mmu.Doubleword

/-!
# The timed MMU and the functional one, over runs

Both are given the same requests. They answer alike and leave the same memory, TLB and registers,
but for line reads: the procedure sends a line read through the tests of a load, and does not clear
the line of its response, so that a refused one shows the line of an earlier one.
-/

namespace SparcV8

open MmuCore Option VirtualMemoryRequest

namespace MmuProcedure

variable {τ : Type} (phys : PhysicalMemory τ)

/-! ## The address of the last store -/

/-- The parts of a result that the last store's address cannot change. -/
def dropLast {α : Type} (x : α × MmuCore × τ) : α × MmuCore × τ := (x.1, x.2.1.withoutLast, x.2.2)

variable (u : MmuCore)

theorem withoutLast_recordFault (accessType : AccessType) (faultType : FaultType) (level : Level)
    (va : Word) (isFetch : Bool) :
    u.withoutLast.recordFault accessType faultType level va isFetch =
      (u.recordFault accessType faultType level va isFetch).withoutLast := by
  dsimp only [MmuCore.recordFault, MmuCore.updateFsrFar]
  rw [apply_ite withoutLast]
  rfl

theorem withoutLast_commitTranslation (va context : Word) (r : WalkResult) (hit : Bool) :
    (u.withoutLast.commitTranslation va context r hit).1 =
      (u.commitTranslation va context r hit).1.withoutLast := by
  dsimp only [MmuCore.commitTranslation]
  rw [apply_ite withoutLast]
  rfl

theorem withoutLast_commitRMTlbUpdate (va context : Word) (level : Level) (pte : Word) :
    u.withoutLast.commitRMTlbUpdate va context level pte =
      (u.commitRMTlbUpdate va context level pte).withoutLast := by
  dsimp only [MmuCore.commitRMTlbUpdate]
  rw [apply_ite withoutLast]
  rfl

theorem withoutLast_updateRM (va : Word) (r : WalkResult) (isWrite : Bool) (m : τ) :
    updateRM phys u.withoutLast va r isWrite m =
      ((updateRM phys u va r isWrite m).1.withoutLast, (updateRM phys u va r isWrite m).2) := by
  unfold updateRM
  cases MmuCore.computeAndStageRMUpdate r.pte isWrite with
  | none => rfl
  | some stagedTlbPte => exact Prod.ext (withoutLast_commitRMTlbUpdate u _ _ _ _) rfl

theorem translate_withoutLast (va asi : Word) (isInstructionAccess isWrite isAtomic :
    Bool) (m : τ) :
    translate phys u.withoutLast va asi isInstructionAccess isWrite isAtomic m =
      dropLast (translate phys u va asi isInstructionAccess isWrite isAtomic m) := by
  unfold translate
  have henabled : u.withoutLast.mmuEnabled = u.mmuEnabled := rfl
  have hfound : u.withoutLast.findEntry phys va m = u.findEntry phys va m := rfl
  rw [henabled, hfound]
  split
  · rfl
  · dsimp only [MmuCore.checkAndRecordFault]
    by_cases hfault : (MmuCore.checkFault asi isWrite isAtomic (u.findEntry phys va m).1.pte).2 =
      .NONE
    · rw [if_pos hfault, if_pos hfault]
      rw [if_off, if_off, withoutLast_commitTranslation, withoutLast_updateRM]
      rfl
    · rw [if_neg hfault, if_neg hfault]
      rw [if_pos rfl, if_pos rfl, withoutLast_recordFault]
      rfl

theorem finalRead_withoutLast (request : VirtualMemoryRequest) (t : Translation) (m : τ) :
    finalRead phys u.withoutLast request t m = dropLast (finalRead phys u request t m) := by
  unfold finalRead
  split <;> rfl

theorem access_withoutLast (r : VirtualMemoryRequest) (u : MmuCore) (m : τ) :
    access phys r (u.withoutLast, m) = dropLast (access phys r (u, m)) := by
  have hdom : u.withoutLast.mmuIsPresent = u.mmuIsPresent := rfl
  have hplain (va asi : Word) : untranslated u.withoutLast va asi = untranslated u va asi := rfl
  unfold access
  cases r.accessType with
  | IFETCH | LOAD | READ_LINE =>
    dsimp only
    unfold handleRead
    rw [hdom, hplain, finalRead_withoutLast]
    split
    · rfl
    · cases asiSpace r.asi with
      | ordinary =>
        dsimp only
        rw [translate_withoutLast]
        obtain ⟨t, u', m'⟩ := translate phys u r.address r.asi _ false false m
        cases t with
        | none => rfl
        | some t => exact finalRead_withoutLast phys u' r t m'
      | register =>
        dsimp only [MmuCore.readRegister]
        split <;> rfl
      | _ => rfl
  | STORE =>
    dsimp only
    unfold handleWrite
    rw [hdom, hplain]
    split
    · rfl
    · cases asiSpace r.asi with
      | ordinary =>
        rw [translate_withoutLast]
        obtain ⟨t, u', m'⟩ := translate phys u r.address r.asi _ true false m
        cases t <;> rfl
      | flushProbe =>
        dsimp only [MmuCore.flush, dropLast]
        rw [apply_ite withoutLast]
        rfl
      | register =>
        dsimp only [MmuCore.writeRegister]
        split
        · rfl
        · dsimp only [dropLast]
          rw [apply_ite withoutLast]
          rfl
        · rfl
        · rfl
      | _ => rfl
  | ATOMIC_LS =>
    dsimp only
    unfold handleAtomic
    rw [hdom, hplain]
    split
    · rfl
    · rw [translate_withoutLast]
      obtain ⟨t, u', m'⟩ := translate phys u r.address r.asi _ true true m
      cases t <;> rfl
  | FLUSH | NO_ACCESS => rfl

/-! ## One request -/

/-- The answers and what they leave are alike. -/
structure Alike (x y : VirtualMemoryResponse × (MmuCore × τ)) : Prop where
  readWord0_eq : y.1.readWord0 = x.1.readWord0
  readWord1_eq : y.1.readWord1 = x.1.readWord1
  mae_eq : y.1.mae = x.1.mae
  memory_eq : y.2.2 = x.2.2
  mmu_eq : y.2.1.withoutLast = x.2.1.withoutLast

variable {x y : VirtualMemoryResponse × (MmuCore × τ)}

theorem Alike.of_eq (h : y = x) : Alike x y := by
  subst h
  exact ⟨rfl, rfl, rfl, rfl, rfl⟩

variable {phys}

/-- What the entry found for a line read says is all that can refuse it. -/
theorem isNone_translate (hlock : IgnoresLock phys) {u : MmuCore} (hp : u.mmuIsPresent = true)
    (va asi : Word) (isInstructionAccess isWrite isAtomic : Bool) (m : τ) :
    (translate phys u va asi isInstructionAccess isWrite isAtomic m).1.isNone =
      u.refuses phys va asi isWrite isAtomic m := by
  rw [translate_eq hlock hp, MmuCore.refuses]
  cases ht : u.translates with
  | false => rfl
  | true =>
    rw [if_pos rfl, u.translate_eq phys ht, Bool.true_and]
    dsimp only
    split
    · next hnone => rw [hnone]; rfl
    · next hfault => exact (bne_iff_ne.2 hfault).symm

/-- The spaces in which both read a line as from memory. -/
def takesLine (asi : Word) : Bool := asiSpace asi == .passThrough || asiSpace asi == .ordinary

theorem asiSpace_eq_passThrough {asi : Word} :
    asiSpace asi = .passThrough ↔ asiMmuPassThrough (asi.setWidth 8) = true := by
  unfold asiSpace
  dsimp only
  split_ifs with h
  · exact ⟨fun _ => h, fun _ => rfl⟩
  all_goals exact ⟨(fun hc => nomatch hc), fun hc => absurd hc h⟩

variable {r : VirtualMemoryRequest}

theorem access_readLine_eq (hlock : IgnoresLock phys) (hk : r.accessType = .READ_LINE) (u : MmuCore)
    (m : τ) (hspace : u.mmuIsPresent = true → takesLine r.asi = true) :
    access phys r (u, m) = MmuCore.access phys r (u, m) := by
  have hx : MmuCore.access phys r (u, m) = u.handleReadLine phys r m := by
    unfold MmuCore.access
    rw [hk]
  have hy : access phys r (u, m) = handleRead phys u r m := by
    unfold access
    rw [hk]
  have hfinal (u : MmuCore) (t : Translation) (m : τ) : finalRead phys u r t m =
      ((u.readLineAt phys t r.byteMask m).1, u, (u.readLineAt phys t r.byteMask m).2) := by
    rw [finalRead, if_pos hk]
  have hflag : (r.accessType == .IFETCH || r.accessType == .READ_LINE &&
      (r.asi == asiUserInstruction || r.asi == asiSupervisorInstruction)) =
        (r.asi == asiUserInstruction || r.asi == asiSupervisorInstruction) := by
    rw [hk]
    rfl
  rw [hx, hy, handleRead, MmuCore.handleReadLine, hflag, hfinal, untranslated]
  cases hp : u.mmuIsPresent with
  | false => rfl
  | true =>
    rw [if_neg (by decide)]
    rcases Bool.or_eq_true_iff.1 (hspace hp) with hspace | hspace
    · have hspace := eq_of_beq hspace
      have hlow := asiSpace_eq_passThrough.1 hspace
      rw [hspace, hlow]
      rfl
    · have hspace := eq_of_beq hspace
      have hlow : asiMmuPassThrough (r.asi.setWidth 8) = false := by
        rw [← Bool.not_eq_true, ← asiSpace_eq_passThrough, hspace]
        decide
      rw [hspace, hlow]
      dsimp only
      rw [translate_eq hlock hp]
      cases ht : u.translates with
      | false =>
        have henabled : u.mmuEnabled = false := by rwa [translates, hp, Bool.true_and] at ht
        rw [henabled, if_off]
        exact (hfinal _ _ _).trans (by rw [untranslated, hp]; rfl)
      | true =>
        have henabled : u.mmuEnabled = true := by rwa [translates, hp, Bool.true_and] at ht
        rw [henabled, if_pos rfl, if_neg (by decide)]
        obtain ⟨t, u', m'⟩ := u.translate phys r.address r.asi _ false false m
        cases t with
        | none => rfl
        | some t => exact hfinal _ _ _

/-- At an aligned address, the addresses of the last fault are the same too. -/
theorem Agrees.alike {refused : Bool} {va : Word} (hal : dwordAddress va = va)
    (h : Agrees refused va x y) : Alike x y := by
  have haddress : y.2.1.faultAddressRegister = x.2.1.faultAddressRegister := by
    cases refused with
    | false => exact h.faultAddress_of_accepted rfl
    | true =>
      obtain ⟨hy, hx⟩ := h.faultAddress_of_refused rfl
      rw [hy, hx, hal]
  refine ⟨h.readWord0_eq, h.readWord1_eq, h.mae_eq, h.memory_eq, ?_⟩
  calc y.2.1.withoutLast
    _ = { withoutAddresses y.2.1 with faultAddressRegister := y.2.1.faultAddressRegister } := rfl
    _ = x.2.1.withoutLast := by rw [h.mmu_eq, haddress]; rfl

/-! ## Runs -/

/-- Both MMUs between two requests, and the line of the procedure's response. -/
structure Sides (τ : Type) where
  line : Fin 8 → BitVec 64
  timed : MmuCore × τ
  functional : MmuCore × τ

variable (phys)

/-- The line read gets to its last step, the only one that writes the line. -/
def reachesMemory (u : MmuCore) (r : VirtualMemoryRequest) (m : τ) : Bool :=
  !u.mmuIsPresent ||
    match asiSpace r.asi with
    | .passThrough => true
    | .ordinary =>
      (translate phys u r.address r.asi
        (r.asi == asiUserInstruction || r.asi == asiSupervisorInstruction) false false m).1.isSome
    | _ => false

/-- The answer of the procedure, with the line that its response then holds. -/
def answer (r : VirtualMemoryRequest) (s : Sides τ) : VirtualMemoryResponse × (MmuCore × τ) :=
  let x := access phys r s.timed
  if r.accessType = .READ_LINE ∧ reachesMemory phys s.timed.1 r s.timed.2 = true then x
  else ({ x.1 with line := s.line }, x.2)

/-- A request to both. -/
def sides : Machine (Sides τ) VirtualMemoryRequest where
  step s r := some
    { line := (answer phys r s).1.line
      timed := (answer phys r s).2
      functional := (MmuCore.access phys r s.functional).2 }

/-- The same memory, TLB and registers. -/
structure SameState (x y : MmuCore × τ) : Prop where
  memory_eq : y.2 = x.2
  tlb_eq : y.1.tlb = x.1.tlb
  controlRegister_eq : y.1.controlRegister = x.1.controlRegister
  contextTablePointerRegister_eq :
    y.1.contextTablePointerRegister = x.1.contextTablePointerRegister
  contextRegister_eq : y.1.contextRegister = x.1.contextRegister
  faultStatusRegister_eq : y.1.faultStatusRegister = x.1.faultStatusRegister
  faultAddressRegister_eq : y.1.faultAddressRegister = x.1.faultAddressRegister

/-- Both answer a request alike, and leave the same state. -/
structure AnsweredAlike (s : Sides τ) (r : VirtualMemoryRequest) : Prop where
  readWord0_eq : (answer phys r s).1.readWord0 = (MmuCore.access phys r s.functional).1.readWord0
  readWord1_eq : (answer phys r s).1.readWord1 = (MmuCore.access phys r s.functional).1.readWord1
  mae_eq : (answer phys r s).1.mae = (MmuCore.access phys r s.functional).1.mae
  line_eq : r.accessType = .READ_LINE →
    (answer phys r s).1.cacheable = (MmuCore.access phys r s.functional).1.cacheable ∧
      (answer phys r s).1.line = (MmuCore.access phys r s.functional).1.line
  state : SameState (MmuCore.access phys r s.functional).2 (answer phys r s).2

/-- The requests of a core with caches: at an address of its size, in any space. -/
def IsRequest (r : VirtualMemoryRequest) : Prop :=
  r.asi.toNat < 256 ∧
    match r.accessType with
    | .IFETCH => r.address.toNat % 4 = 0
    | .LOAD | .STORE | .ATOMIC_LS => dwordAddress r.address = r.address
    | .READ_LINE => True
    | .FLUSH | .NO_ACCESS => False

/-- A line read is in a space of memory, and finds an empty line in the procedure's response if it
is refused. -/
def LineInOrder (s : Sides τ) (r : VirtualMemoryRequest) : Prop :=
  r.accessType = .READ_LINE →
    (s.timed.1.mmuIsPresent = true → takesLine r.asi = true) ∧
      (s.timed.1.refusesRequest phys r s.timed.2 = true → s.line = fun _ => 0)

instance (s : Sides τ) (r : VirtualMemoryRequest) : Decidable (LineInOrder phys s r) :=
  inferInstanceAs (Decidable (_ → _ ∧ _))

/-- What holds between the sides after every request. -/
structure InStep (s : Sides τ) : Prop where
  memory_eq : s.timed.2 = s.functional.2
  mmu_eq : s.timed.1.withoutLast = s.functional.1.withoutLast

variable {phys}

theorem Alike.sameState (h : Alike x y) : SameState x.2 y.2 :=
  ⟨h.memory_eq, congrArg (·.tlb) h.mmu_eq, congrArg (·.controlRegister) h.mmu_eq,
    congrArg (·.contextTablePointerRegister) h.mmu_eq, congrArg (·.contextRegister) h.mmu_eq,
    congrArg (·.faultStatusRegister) h.mmu_eq, congrArg (·.faultAddressRegister) h.mmu_eq⟩

/-- The procedure answers from both sides' states alike. -/
theorem InStep.access_eq {s : Sides τ} (h : InStep s) (phys : PhysicalMemory τ)
    (r : VirtualMemoryRequest) :
    dropLast (access phys r s.timed) = dropLast (access phys r s.functional) := by
  obtain ⟨line, ⟨u, m⟩, u', m'⟩ := s
  obtain ⟨hm, hu⟩ := h
  dsimp only at hm hu ⊢
  rw [← access_withoutLast, ← access_withoutLast, hu, hm]

/-- Both MMUs answer a request alike, from one state. -/
theorem alike_access (hlock : IgnoresLock phys) (hr : IsRequest r) (x : MmuCore × τ)
    (hspace : r.accessType = .READ_LINE → x.1.mmuIsPresent = true → takesLine r.asi = true) :
    Alike (MmuCore.access phys r x) (access phys r x) := by
  obtain ⟨u, m⟩ := x
  obtain ⟨hasi, hr⟩ := hr
  cases hk : r.accessType with
  | IFETCH => exact .of_eq (access_read_eq hlock u m (.inl hk) hasi)
  | LOAD => exact .of_eq (access_read_eq hlock u m (.inr hk) hasi)
  | STORE =>
    rw [hk] at hr
    have h := agrees_store hlock u m hk hasi hr
    rw [AgreesOn, hr] at h
    exact h.alike hr
  | ATOMIC_LS =>
    rw [hk] at hr
    have h := agrees_atomic hlock u m hk
    rw [AgreesOn, hr] at h
    exact h.alike hr
  | READ_LINE => exact .of_eq (access_readLine_eq hlock hk u m (hspace hk))
  | FLUSH | NO_ACCESS =>
    rw [hk] at hr
    exact hr.elim

/-- A line read that does not get to memory shows an empty line. -/
theorem line_of_not_reachesMemory (hk : r.accessType = .READ_LINE) {u : MmuCore} {m : τ}
    (hreach : ¬ reachesMemory phys u r m = true) : (access phys r (u, m)).1.line = fun _ => 0 := by
  have hy : access phys r (u, m) = handleRead phys u r m := by
    unfold access
    rw [hk]
  rw [reachesMemory, Bool.or_eq_true, not_or, Bool.not_eq_true', Bool.not_eq_false] at hreach
  rw [hy, handleRead, hreach.1, if_neg (by decide), hk]
  have hreach := hreach.2
  cases hspace : asiSpace r.asi with
  | ordinary =>
    rw [hspace] at hreach
    dsimp only
    cases ht : (translate phys u r.address r.asi _ false false m).1 with
    | none => rfl
    | some t => exact absurd (congrArg isSome ht) hreach
  | passThrough =>
    rw [hspace] at hreach
    exact absurd rfl hreach
  | _ => rfl

/-- In a space of memory, only the entry found keeps a line read from memory. -/
theorem refusesRequest_of_not_reachesMemory (hlock : IgnoresLock phys)
    (hk : r.accessType = .READ_LINE) {u : MmuCore} {m : τ}
    (hspace : u.mmuIsPresent = true → takesLine r.asi = true)
    (hreach : ¬ reachesMemory phys u r m = true) : u.refusesRequest phys r m = true := by
  rw [reachesMemory, Bool.or_eq_true, not_or, Bool.not_eq_true', Bool.not_eq_false] at hreach
  obtain ⟨hp, hreach⟩ := hreach
  rcases Bool.or_eq_true_iff.1 (hspace hp) with hspace | hspace
  · rw [eq_of_beq hspace] at hreach
    exact absurd rfl hreach
  · have hspace := eq_of_beq hspace
    rw [hspace] at hreach
    have hlow : asiMmuPassThrough (r.asi.setWidth 8) = false := by
      rw [← Bool.not_eq_true, ← asiSpace_eq_passThrough, hspace]
      decide
    have hrefuses : u.refuses phys r.address r.asi false false m = true := by
      rw [← isNone_translate hlock hp r.address r.asi
        (r.asi == asiUserInstruction || r.asi == asiSupervisorInstruction), isNone_iff_eq_none]
      exact not_isSome_iff_eq_none.1 hreach
    have ht : u.translates = true := (Bool.and_eq_true_iff.1 hrefuses).1
    rw [MmuCore.refusesRequest, MmuCore.translatesRequest, isWrite,
      isAtomic, hk, ht, hlow, hrefuses]
    rfl

/-- A request that is in order is answered alike, and the sides stay in step. -/
theorem InStep.step (hlock : IgnoresLock phys) {s : Sides τ} (h : InStep s) (hr : IsRequest r)
    (hline : LineInOrder phys s r) :
    AnsweredAlike phys s r ∧
      Alike (MmuCore.access phys r s.functional) (answer phys r s) := by
  have hdom : s.timed.1.mmuIsPresent = s.functional.1.mmuIsPresent :=
    congrArg (·.mmuIsPresent) h.mmu_eq
  have hboth := alike_access hlock hr s.functional fun hk hp =>
    (hline hk).1 (hdom.trans hp)
  have heq := h.access_eq phys r
  have hresp : (access phys r s.timed).1 = (access phys r s.functional).1 := by
    have := congrArg Prod.fst heq
    exact this
  have hshown : (answer phys r s).1 = { (access phys r s.timed).1 with
      line := (answer phys r s).1.line } ∧ (answer phys r s).2 = (access phys r s.timed).2 := by
    unfold answer
    split <;> exact ⟨rfl, rfl⟩
  have halike : Alike (MmuCore.access phys r s.functional) (answer phys r s) := by
    refine ⟨?_, ?_, ?_, ?_, ?_⟩
    · rw [hshown.1, hresp]
      exact hboth.readWord0_eq
    · rw [hshown.1, hresp]
      exact hboth.readWord1_eq
    · rw [hshown.1, hresp]
      exact hboth.mae_eq
    · rw [hshown.2]
      exact (congrArg (·.2.2) heq).trans hboth.memory_eq
    · rw [hshown.2]
      exact (congrArg (·.2.1) heq).trans hboth.mmu_eq
  refine ⟨⟨halike.readWord0_eq, halike.readWord1_eq, halike.mae_eq, fun hk => ?_,
    halike.sameState⟩, halike⟩
  have hfunctional : access phys r s.functional = MmuCore.access phys r s.functional :=
    access_readLine_eq hlock hk s.functional.1 s.functional.2 fun hp =>
      (hline hk).1 (hdom.trans hp)
  rw [← hfunctional, ← hresp]
  refine ⟨by rw [hshown.1], ?_⟩
  by_cases hreach : reachesMemory phys s.timed.1 r s.timed.2 = true
  · rw [answer, if_pos ⟨hk, hreach⟩]
  · rw [answer, if_neg fun hc => hreach hc.2, line_of_not_reachesMemory hk hreach]
    exact (hline hk).2 (refusesRequest_of_not_reachesMemory hlock hk (hline hk).1 hreach)

/-- In every run from equal states in which all line reads are in order, the procedure and
`MmuCore` answer every request alike and leave the same memory, TLB and registers. -/
theorem timed_answers_alike (hlock : IgnoresLock phys) (line : Fin 8 → BitVec 64)
    (x : MmuCore × τ) {rs : List VirtualMemoryRequest}
    (hrs : (sides phys).AllSteps (fun s r => IsRequest r ∧ LineInOrder phys s r) rs ⟨line, x, x⟩) :
    (sides phys).AllSteps (AnsweredAlike phys) rs ⟨line, x, x⟩ := by
  refine hrs.imp_of_invariant (I := InStep) ?_ ?_ ⟨rfl, rfl⟩
  · intro s r h hr
    exact (h.step hlock hr.1 hr.2).1
  · intro s r s' h hr hs'
    have hafter := (h.step hlock hr.1 hr.2).2
    cases hs'
    exact ⟨hafter.memory_eq, hafter.mmu_eq⟩

/-! ## The line of a refused read -/

/-- An MMU that is switched on and reports no faults. -/
def noFaultMmu : MmuCore := { MmuCore.initial true true true {} with controlRegister := 3 }

/-- A memory in which no word is a table entry. -/
def fours : Words := ⟨fun _ => 4⟩

abbrev flatMemory : PhysicalMemory Words := Words.ram fun _ => true

/-- A read of the doubleword at address 0, as of a line. -/
def lineRequest (asi : Word) : VirtualMemoryRequest :=
  { wordAccess .READ_LINE 0 asi 0 with byteMask := 0xFF }

/-- A refused line read through the tables, after one that passes them by. -/
theorem refused_read_shows_old_line :
    IsRequest (lineRequest 0x20) ∧ IsRequest (lineRequest 0x0A) ∧
      ¬ (sides flatMemory).AllSteps (AnsweredAlike flatMemory) [lineRequest 0x20, lineRequest 0x0A]
        ⟨fun _ => 0, (noFaultMmu, fours), (noFaultMmu, fours)⟩ := by
  refine ⟨⟨by decide, trivial⟩, ⟨by decide, trivial⟩, fun h => ?_⟩
  have hline := ((h.2 _ rfl).1.line_eq rfl).2
  exact absurd (congrFun hline 0) (by decide)

theorem refused_read_first_answered_alike :
    (sides flatMemory).AllSteps (AnsweredAlike flatMemory) [lineRequest 0x0A, lineRequest 0x20]
      ⟨fun _ => 0, (noFaultMmu, fours), (noFaultMmu, fours)⟩ :=
  timed_answers_alike (fun _ _ _ => rfl) _ _
    ⟨⟨⟨by decide, trivial⟩, fun _ => ⟨by decide, fun _ => rfl⟩⟩, by
      intro s hs
      cases hs
      exact ⟨⟨⟨by decide, trivial⟩, fun _ => ⟨by decide, by decide⟩⟩, fun _ _ => trivial⟩⟩

end MmuProcedure

end SparcV8
