import SparcV8.Mmu.Tables

/-!
# The tables of the reference MMU

The search for the entry of an address, the rights an entry gives, and what a probe returns, in
numbers. The walk of the code is this search, and its permission matrix gives these rights.
-/

namespace SparcV8

open BitVec Pte

namespace ReferenceMmu

/-! ## Entries -/

inductive EntryKind where
  | invalid | pointer | page | reserved
  deriving DecidableEq, Repr

def kind (entry : Word) : EntryKind :=
  match entry.toNat % 4 with
  | 0 => .invalid
  | 1 => .pointer
  | 2 => .page
  | _ => .reserved

/-- The table a pointer names: bits 31 to 2 are bits 35 to 6 of the address. -/
def tableBase (pointer : Word) : Nat := pointer.toNat / 4 * 64

/-- The address of an entry. A table's base is a multiple of its size, so that the index falls on
clear bits. -/
def entryAddress (pointer : Word) (index : Nat) : Nat := tableBase pointer ||| 4 * index

/-- The index of an address into the table of a level below the context table. -/
def index (va : Word) (level : Nat) : Nat :=
  match level with
  | 1 => va.toNat / 2 ^ 24
  | 2 => va.toNat / 2 ^ 18 % 64
  | _ => va.toNat / 2 ^ 12 % 64

/-- The size of the page an entry of a level maps, as a power of two. -/
def pageBits (level : Nat) : Nat :=
  match level with
  | 0 => 32
  | 1 => 24
  | 2 => 18
  | _ => 12

/-! ## The search -/

/-- The entry a search ends at. -/
structure Stop where
  level : Nat
  address : Nat
  entry : Word

/-- Follow at most `more` pointers from the entry of a level. -/
def search (read : Nat → Word) (va : Word) : Nat → Nat → Nat → Stop
  | 0, level, address => ⟨level, address, read address⟩
  | more + 1, level, address =>
    if kind (read address) = .pointer then
      search read va more (level + 1) (entryAddress (read address) (index va (level + 1)))
    else ⟨level, address, read address⟩

/-- The search for the entry of an address, from the context table. -/
def walk (read : Nat → Word) (contextTablePointer context va : Word) : Stop :=
  search read va 3 0 (entryAddress contextTablePointer context.toNat)

/-! ## Access rights -/

inductive Privilege where
  | user | supervisor
  deriving DecidableEq, Repr

structure Rights where
  read : Bool
  write : Bool
  execute : Bool
  deriving DecidableEq

/-- The rights of the access permissions field. -/
def rights (acc : Nat) (privilege : Privilege) : Rights :=
  match acc, privilege with
  | 0, _ => ⟨true, false, false⟩
  | 1, _ => ⟨true, true, false⟩
  | 2, _ => ⟨true, false, true⟩
  | 3, _ => ⟨true, true, true⟩
  | 4, _ => ⟨false, false, true⟩
  | 5, .user => ⟨true, false, false⟩
  | 5, .supervisor => ⟨true, true, false⟩
  | 6, .user => ⟨false, false, false⟩
  | 6, .supervisor => ⟨true, false, true⟩
  | 7, .user => ⟨false, false, false⟩
  | 7, .supervisor => ⟨true, true, true⟩
  | _, _ => ⟨true, true, true⟩

/-- An access, as far as its rights go. -/
structure Access where
  privilege : Privilege
  /-- To the instruction space; otherwise to the data space. -/
  instruction : Bool
  reads : Bool
  writes : Bool
  deriving DecidableEq

/-- The permissions give the access all it needs. Any access to the instruction space needs execute.
-/
def Access.allowed (a : Access) (acc : Nat) : Bool :=
  let r := rights acc a.privilege
  (!a.instruction || r.execute) && (!a.writes || r.write) &&
    (!(a.reads && !a.instruction) || r.read)

/-- The fault of an access: a user without any right lacks the privilege. -/
def Access.pageFault (a : Access) (acc : Nat) : FaultType :=
  if a.allowed acc then .NONE
  else if a.privilege = .user ∧ rights acc .user = ⟨false, false, false⟩ then .PRIVILEGE_VIOLATION
  else .PROTECTION_ERROR

/-- The fault of an access whose search ends at an entry. -/
def Access.fault (a : Access) (entry : Word) : FaultType :=
  match kind entry with
  | .invalid => .INVALID_ADDRESS_ERROR
  | .pointer | .reserved => .TRANSLATION_ERROR
  | .page => a.pageFault (entry.toNat / 4 % 8)

/-- The page an entry names. -/
def Stop.pageBase (s : Stop) : Nat := s.entry.toNat / 256 * 4096

/-- The page number is that of a page of the entry's level. -/
def Stop.Aligned (s : Stop) : Prop := 2 ^ pageBits s.level ∣ s.pageBase

instance (s : Stop) : Decidable s.Aligned :=
    inferInstanceAs (Decidable (2 ^ pageBits s.level ∣ s.pageBase))

/-- The physical address of a virtual one, through the page of an entry. -/
def Stop.physicalAddress (s : Stop) (va : Word) : Nat :=
  s.pageBase + va.toNat % 2 ^ pageBits s.level

/-! ## Probes -/

/-- A probe of a type below 4 asks for the entry at level `3 - type`, the entire probe (type 4) for
the page entry wherever it is. -/
def probe (read : Nat → Word) (contextTablePointer context va : Word) (type : Nat) : Word :=
  let root := entryAddress contextTablePointer context.toNat
  if type = 4 then
    let s := search read va 3 0 root
    if kind s.entry = .page then s.entry else 0
  else
    let s := search read va (3 - type) 0 root
    if s.level ≠ 3 - type then 0
    else
      match kind s.entry with
      | .page | .invalid => s.entry
      | .reserved => 0
      | .pointer => if type = 0 then 0 else s.entry

end ReferenceMmu

/-! ## The walk of the code -/

open ReferenceMmu

variable (entry : Word)

/-- The kind of an entry is its type field. -/
theorem kind_eq :
    kind entry =
      if entryType entry = etInvalid then .invalid
      else if entryType entry = etPtd then .pointer
      else if entryType entry = etPte then .page
      else .reserved := by
  have hmod : (entryType entry).toNat = entry.toNat % 4 := toNat_readBits_zero entry (by decide)
  unfold kind
  rcases entryType_cases entry with h | h | h | h
  all_goals
    rw [h] at hmod
    rw [← hmod, h]
    rfl

theorem kind_eq_pointer_iff : kind entry = .pointer ↔ entryType entry = etPtd := by
  rw [kind_eq]
  rcases entryType_cases entry with h | h | h | h <;> rw [h] <;> decide

theorem toNat_getPhyAddrFromPTD (ptd index : Word) :
    (getPhyAddrFromPTD ptd index).toNat = entryAddress ptd index.toNat := by
  have hptd : (ptd &&& ~~~3).toNat = ptd.toNat / 4 * 4 := toNat_and_not_low ptd 2
  have hlt := ptd.isLt
  have hlt' := index.isLt
  rw [getPhyAddrFromPTD, toNat_or, toNat_shiftLeft, toNat_shiftLeft, toNat_setWidth, toNat_setWidth,
    hptd, Nat.shiftLeft_eq, Nat.shiftLeft_eq, entryAddress, tableBase]
  congr 1 <;> omega

theorem toNat_indexAt_start (ctp context va : Word) {level : Level} (h : level.val < 3) :
    ((Walk.start ctp context va).indexAt level).toNat = index va (level.val + 1) := by
  have hva := va.isLt
  fin_cases level
  · refine (toNat_readBits va (by decide)).trans ?_
    change va.toNat / 2 ^ 24 % 2 ^ 8 = va.toNat / 2 ^ 24
    omega
  · exact toNat_readBits va (by decide)
  · exact toNat_readBits va (by decide)
  · exact absurd h (by decide)

/-- The words of a memory, by byte address. -/
def Words.wordAt (dom : Nat → Bool) (c : Words) (address : Nat) : Word :=
  c.read dom (address / 4)

/-- What a walk has found is where the search has stopped. -/
def ReferenceMmu.Stop.Matches (s : Stop) (r : WalkResult) : Prop :=
  s.level = r.level.val ∧ s.address = r.phyAddrOfPte.toNat ∧ s.entry = r.pte

variable (dom : Nat → Bool)

/-- A walk of the code is a search from where it has got to. -/
theorem search_matches_find (c : Words) (ctp context va : Word) {stopAtLevel : Level}
    {steps : Nat} {w : Walk} (hindex : w.indexAt = (Walk.start ctp context va).indexAt)
    (hlevel : w.curLevel.val ≤ stopAtLevel.val)
    (hsteps : stopAtLevel.val - w.curLevel.val ≤ steps) :
    (search (c.wordAt dom) va (stopAtLevel.val - w.curLevel.val) w.curLevel.val
      w.curPhyAddr.toNat).Matches (w.find (c.entryAt dom) stopAtLevel steps) := by
  induction steps generalizing w with
  | zero =>
    rw [Nat.le_zero.1 hsteps]
    exact ⟨rfl, rfl, rfl⟩
  | succ steps ih =>
    rw [Walk.find]
    cases hw : w.recordWalkStep (c.entryAt dom w.curPhyAddr) stopAtLevel with
    | none =>
      -- the entry is no pointer, or the last level has been reached
      rcases hmore : stopAtLevel.val - w.curLevel.val with _ | more
      · exact ⟨rfl, rfl, rfl⟩
      · have hkind : ¬kind (c.wordAt dom w.curPhyAddr.toNat) = .pointer := by
          rw [kind_eq_pointer_iff]
          intro hptd
          have hlt : w.curLevel < stopAtLevel := by
            rw [Fin.lt_def]
            omega
          exact absurd ((if_pos ⟨hptd, hlt⟩).symm.trans hw) (by simp)
        rw [search, if_neg hkind]
        exact ⟨rfl, rfl, rfl⟩
    | some w' =>
      obtain ⟨hcur, hidx, haddr⟩ := Walk.recordWalkStep_eq_some hw
      have hc : entryType (c.entryAt dom w.curPhyAddr) = etPtd ∧
          w.curLevel < stopAtLevel := by
        by_contra hc
        exact absurd ((if_neg hc).symm.trans hw) (by simp)
      have hlt : w.curLevel.val < stopAtLevel.val := hc.2
      have hkind : kind (c.wordAt dom w.curPhyAddr.toNat) = .pointer :=
        (kind_eq_pointer_iff _).2 hc.1
      have hnext := ih (hidx.trans hindex) (by omega) (by omega)
      have hmore : stopAtLevel.val - w.curLevel.val = stopAtLevel.val - w'.curLevel.val + 1 := by
        omega
      have hstop := stopAtLevel.isLt
      rw [hmore, search, if_pos hkind, hcur]
      rw [haddr, toNat_getPhyAddrFromPTD, hindex, toNat_indexAt_start _ _ _ (by omega),
        hcur] at hnext
      exact hnext

/-- A walk from the context table down to a level is the search down to it. -/
theorem search_matches_walk (c : Words) (ctp context va : Word) (stopAtLevel : Level) :
    (search (c.wordAt dom) va stopAtLevel.val 0 (entryAddress ctp context.toNat)).Matches
      ((Walk.start ctp context va).find (c.entryAt dom) stopAtLevel 3) := by
  have h := search_matches_find dom c ctp context va rfl
    (Nat.zero_le stopAtLevel.val) (Nat.le_of_lt_succ stopAtLevel.isLt)
  rw [← toNat_getPhyAddrFromPTD]
  exact h

/-! ## Rights and addresses of the code -/

/-- The access of an address space and a direction, to the spaces 8 to 0xB. -/
def accessOf (asi : Word) (isWrite isAtomic : Bool) : ReferenceMmu.Access :=
  { privilege := if asi = asiUserInstruction ∨ asi = asiUserData then .user else .supervisor
    instruction := asi == asiUserInstruction || asi == asiSupervisorInstruction
    reads := !isWrite || isAtomic
    writes := isWrite || isAtomic }

/-- One of the four ordinary spaces. -/
def ordinaryAsi (asi : Word) : Prop :=
  asi = asiUserInstruction ∨ asi = asiSupervisorInstruction ∨ asi = asiUserData ∨
    asi = asiSupervisorData

/-- On a page, the checks of the code find the fault of the rights table. -/
theorem permissionFault_eq {asi : Word} (hasi : ordinaryAsi asi) (isWrite isAtomic : Bool)
    (acc : Fin 8) :
    let fault := permissionFault acc.val (computeAccessType asi isWrite)
    (if isAtomic ∧ fault = .NONE then permissionFault acc.val (computeAccessType asi !isWrite)
      else fault) = (accessOf asi isWrite isAtomic).pageFault acc.val := by
  rcases hasi with rfl | rfl | rfl | rfl <;> revert isWrite isAtomic acc <;> decide

/-- The fault of an access is judged by the entry alone. -/
theorem checkFault_eq {asi : Word} (hasi : ordinaryAsi asi) (isWrite isAtomic : Bool) (pte : Word) :
    (MmuCore.checkFault asi isWrite isAtomic pte).2 =
      (accessOf asi isWrite isAtomic).fault pte := by
  have hother : (MmuCore.checkFault asi isWrite isAtomic pte).2 =
      if isAtomic ∧ computeFaultType (computeAccessType asi isWrite) pte = .NONE then
        computeFaultType (computeAccessType asi !isWrite) pte
      else computeFaultType (computeAccessType asi isWrite) pte := by
    simp only [MmuCore.checkFault]
    by_cases h : isAtomic = true ∧ computeFaultType (computeAccessType asi isWrite) pte = .NONE
    · rw [if_pos h, if_pos h]
      by_cases hn : computeFaultType (computeAccessType asi !isWrite) pte = .NONE
      · rw [if_neg (not_not.2 hn), h.2, hn]
      · rw [if_pos hn]
    · rw [if_neg h, if_neg h]
  have hacc : (acc pte).toNat = pte.toNat / 4 % 8 := toNat_readBits pte (by decide)
  rw [hother, Access.fault, kind_eq]
  unfold computeFaultType
  rcases entryType_cases pte with h | h | h | h
  · simp [h, etInvalid]
  · simp [h, etInvalid, etPtd]
  · have hpage := permissionFault_eq hasi isWrite isAtomic
      ⟨pte.toNat / 4 % 8, Nat.mod_lt _ (by decide)⟩
    simp only [h, hacc]
    exact hpage
  · simp [h, etInvalid, etPtd, etPte, etReserved]

theorem toNat_pageOffset (level : Level) (va : Word) :
    (pageOffset level va).toNat = va.toNat % 2 ^ pageBits level.val := by
  fin_cases level <;> exact toNat_readBits_zero va (by decide)

/-- Through an aligned page an address keeps its offset. -/
theorem toNat_constructPhysicalAddr {s : Stop} {r : WalkResult} (h : s.Matches r) (ha : s.Aligned)
    (va : Word) : (constructPhysicalAddr r.pte r.level va).toNat = s.physicalAddress va := by
  obtain ⟨hlevel, -, hentry⟩ := h
  have hppn : (ppn r.pte).toNat = r.pte.toNat / 256 := by
    have hlt := r.pte.isLt
    rw [ppn, toNat_readBits _ (by decide)]
    omega
  have hlt := r.pte.isLt
  have hva := va.isLt
  obtain ⟨a, ha⟩ := ha
  have hbase : (ppn r.pte).toNat * 2 ^ 12 % 2 ^ 64 = 2 ^ pageBits s.level * a := by
    rw [hppn, ← ha, Stop.pageBase, hentry]
    omega
  have hoffset : va.toNat % 2 ^ pageBits s.level < 2 ^ pageBits s.level :=
    Nat.mod_lt _ (Nat.two_pow_pos _)
  rw [constructPhysicalAddr, toNat_or, toNat_shiftLeft, toNat_setWidth,
    toNat_setWidth, toNat_pageOffset, ← hlevel, Nat.shiftLeft_eq,
    Nat.mod_eq_of_lt (by omega : (ppn r.pte).toNat < 2 ^ 64), hbase,
    Nat.mod_eq_of_lt (by have := Nat.mod_le va.toNat (2 ^ pageBits s.level); omega),
    Stop.physicalAddress, ha, Nat.two_pow_add_eq_or_of_lt hoffset]

end SparcV8
