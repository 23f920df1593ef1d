import SparcV8.Processor.Memory

/-!
# Page tables of the reference MMU

The layout of page-table entries and pointers, the permission matrix, and the state of one walk,
which starts in the context table (level 0) and follows pointers through at most three further
levels.
-/

namespace SparcV8

open BitVec

/-! ## Address space identifiers -/

def asiMmuFlushProbe : Word := 0x03
def asiMmuRegister : Word := 0x04
def asiMmuDiagnosticI : Word := 0x05
def asiMmuDiagnosticID : Word := 0x06
def asiMmuDiagnosticIO : Word := 0x07
def asiUserInstruction : Word := 0x08
def asiSupervisorInstruction : Word := 0x09
def asiUserData : Word := 0x0A
def asiSupervisorData : Word := 0x0B

/-- The pass-through spaces. Predicates on ranges take the low byte of an ASI. -/
def asiMmuPassThrough (asi : BitVec 8) : Bool := 0x20 ≤ asi && asi ≤ 0x2F

def asiIsIcacheFlush (asi : BitVec 8) : Bool := 0x18 ≤ asi && asi ≤ 0x1C

def asiIsDcacheFlush (asi : BitVec 8) : Bool := 0x10 ≤ asi && asi ≤ 0x14

def asiIsCacheTagOrData (asi : BitVec 8) : Bool := 0x0C ≤ asi && asi ≤ 0x0F

/-! ## Entries -/

/-- The level of a table: 0 is the context table, 3 the page table proper. -/
abbrev Level := Fin 4

namespace Pte

def entryType (pte : Word) : Word := readBits pte 1 0

def acc (pte : Word) : Word := readBits pte 4 2

/-- The referenced bit. -/
def referenced (pte : Word) : Word := readBits pte 5 5

/-- The modified bit. -/
def modified (pte : Word) : Word := readBits pte 6 6

def cacheable (pte : Word) : Word := readBits pte 7 7

def ppn (pte : Word) : Word := readBits pte 31 8

def setReferenced (pte : Word) : Word := writeBits pte 5 5 1

def setModified (pte : Word) : Word := writeBits pte 6 6 1

def etInvalid : Word := 0
/-- A pointer to the next table. -/
def etPtd : Word := 1
/-- A leaf. -/
def etPte : Word := 2
def etReserved : Word := 3

/-- The access rights 6 and 7 make an entry global. -/
def accIsGlobal (pte : Word) : Bool := 6 ≤ acc pte

variable (pte : Word)

theorem setReferenced_eq : setReferenced pte = pte ||| 0x20 := by
  apply eq_of_getLsbD_eq
  intro i hi
  rw [setReferenced, getLsbD_writeBits _ _ (by decide), getLsbD_or,
    show (0x20 : Word) = twoPow 32 5 from rfl, getLsbD_twoPow]
  by_cases h : i = 5
  · subst h
    simp
  · rw [if_neg (by omega)]
    simp [show ¬ 5 = i by omega]

theorem setModified_eq : setModified pte = pte ||| 0x40 := by
  apply eq_of_getLsbD_eq
  intro i hi
  rw [setModified, getLsbD_writeBits _ _ (by decide), getLsbD_or,
    show (0x40 : Word) = twoPow 32 6 from rfl, getLsbD_twoPow]
  by_cases h : i = 6
  · subst h
    simp
  · rw [if_neg (by omega)]
    simp [show ¬ 6 = i by omega]

@[simp] theorem referenced_setReferenced : referenced (setReferenced pte) = 1 :=
  (readBits_writeBits_self (by decide)).trans (by decide)

@[simp] theorem referenced_setModified : referenced (setModified pte) = referenced pte :=
  readBits_writeBits_off (by decide)

/-- The four kinds of entry. -/
theorem entryType_cases :
    entryType pte = etInvalid ∨ entryType pte = etPtd ∨ entryType pte = etPte ∨
      entryType pte = etReserved := by
  have hlt : (entryType pte).toNat < 2 ^ (1 - 0 + 1) := toNat_readBits_lt pte (by decide)
  have h : (entryType pte).toNat = 0 ∨ (entryType pte).toNat = 1 ∨ (entryType pte).toNat = 2 ∨
      (entryType pte).toNat = 3 := by omega
  rcases h with h | h | h | h
  · exact .inl (eq_of_toNat_eq h)
  · exact .inr (.inl (eq_of_toNat_eq h))
  · exact .inr (.inr (.inl (eq_of_toNat_eq h)))
  · exact .inr (.inr (.inr (eq_of_toNat_eq h)))

end Pte

/-- The address of entry `index` of the table a pointer names. -/
def getPhyAddrFromPTD (ptd index : Word) : BitVec 64 :=
  ((ptd &&& ~~~3).setWidth 64 <<< 4) ||| (index.setWidth 64 <<< 2)

/-- The part of a virtual address a leaf of the given level passes through. -/
def pageOffset (level : Level) (va : Word) : Word :=
  match level with
  | 3 => readBits va 11 0
  | 2 => readBits va 17 0
  | 1 => readBits va 23 0
  | 0 => readBits va 31 0

def constructPhysicalAddr (pte : Word) (level : Level) (va : Word) : BitVec 64 :=
  ((Pte.ppn pte).setWidth 64 <<< 12) ||| (pageOffset level va).setWidth 64

/-! ## Access rights -/

/-- The access type of an access, by its address space and direction. -/
inductive AccessType where
  | LOAD_USER_DATA | LOAD_SUPERVISOR_DATA | LOAD_USER_INSTRUCTION | LOAD_SUPERVISOR_INSTRUCTION
  | STORE_USER_DATA | STORE_SUPERVISOR_DATA | STORE_USER_INSTRUCTION
  | STORE_SUPERVISOR_INSTRUCTION
  deriving DecidableEq, Repr

def AccessType.code : AccessType → Nat
  | LOAD_USER_DATA => 0
  | LOAD_SUPERVISOR_DATA => 1
  | LOAD_USER_INSTRUCTION => 2
  | LOAD_SUPERVISOR_INSTRUCTION => 3
  | STORE_USER_DATA => 4
  | STORE_SUPERVISOR_DATA => 5
  | STORE_USER_INSTRUCTION => 6
  | STORE_SUPERVISOR_INSTRUCTION => 7

/-- The fault types the MMU records. -/
inductive FaultType where
  | NONE | INVALID_ADDRESS_ERROR | PROTECTION_ERROR | PRIVILEGE_VIOLATION | TRANSLATION_ERROR
  deriving DecidableEq, Repr

def FaultType.code : FaultType → Nat
  | NONE => 0
  | INVALID_ADDRESS_ERROR => 1
  | PROTECTION_ERROR => 2
  | PRIVILEGE_VIOLATION => 3
  | TRANSLATION_ERROR => 4

/-- A space outside the four ordinary ones counts as user data, also for a store. -/
def computeAccessType (asi : Word) (isWrite : Bool) : AccessType :=
  if isWrite then
    if asi = asiUserData then .STORE_USER_DATA
    else if asi = asiSupervisorData then .STORE_SUPERVISOR_DATA
    else if asi = asiUserInstruction then .STORE_USER_INSTRUCTION
    else if asi = asiSupervisorInstruction then .STORE_SUPERVISOR_INSTRUCTION
    else .LOAD_USER_DATA
  else if asi = asiUserData then .LOAD_USER_DATA
  else if asi = asiSupervisorData then .LOAD_SUPERVISOR_DATA
  else if asi = asiUserInstruction then .LOAD_USER_INSTRUCTION
  else if asi = asiSupervisorInstruction then .LOAD_SUPERVISOR_INSTRUCTION
  else .LOAD_USER_DATA

/-- The permission matrix for a leaf with access rights `acc`. -/
def permissionFault (acc : Nat) (accessType : AccessType) : FaultType :=
  match acc with
  | 0 => if accessType.code ∈ [2, 3, 4, 5, 6, 7] then .PROTECTION_ERROR else .NONE
  | 1 => if accessType.code ∈ [2, 3, 6, 7] then .PROTECTION_ERROR else .NONE
  | 2 => if accessType.code ∈ [4, 5, 6, 7] then .PROTECTION_ERROR else .NONE
  | 3 => .NONE
  | 4 => if accessType.code ∈ [0, 1, 4, 5, 6, 7] then .PROTECTION_ERROR else .NONE
  | 5 => if accessType.code ∈ [2, 3, 4, 6, 7] then .PROTECTION_ERROR else .NONE
  | 6 =>
    if accessType.code ∈ [5, 7] then .PROTECTION_ERROR
    else if accessType.code ∈ [0, 2, 4, 6] then .PRIVILEGE_VIOLATION
    else .NONE
  | 7 => if accessType.code ∈ [0, 2, 4, 6] then .PRIVILEGE_VIOLATION else .NONE
  | _ => .NONE

def computeFaultType (accessType : AccessType) (pte : Word) : FaultType :=
  if Pte.entryType pte = Pte.etInvalid then .INVALID_ADDRESS_ERROR
  else if Pte.entryType pte = Pte.etPtd ∨ Pte.entryType pte = Pte.etReserved then
    .TRANSLATION_ERROR
  else permissionFault (Pte.acc pte).toNat accessType

/-- Only a leaf can let an access through. -/
theorem entryType_of_computeFaultType {accessType : AccessType} {pte : Word}
    (h : computeFaultType accessType pte = .NONE) : Pte.entryType pte = Pte.etPte := by
  unfold computeFaultType at h
  rcases Pte.entryType_cases pte with he | he | he | he
  · rw [if_pos he] at h
    cases h
  · rw [if_neg (by rw [he]; decide), if_pos (.inl he)] at h
    cases h
  · exact he
  · rw [if_neg (by rw [he]; decide), if_pos (.inr he)] at h
    cases h

/-! ## Walks -/

/-- A walk under way: the table indices, and the entry it fetches next. -/
structure Walk where
  l1Index : Word
  l2Index : Word
  l3Index : Word
  curLevel : Level
  curPhyAddr : BitVec 64

/-- The entry a walk ended at, or that the TLB holds. -/
structure WalkResult where
  pte : Word
  level : Level
  /-- Where the entry itself lives. -/
  phyAddrOfPte : BitVec 64
  deriving DecidableEq

/-- The start of a walk in the context table. -/
def Walk.start (contextTablePointer context va : Word) : Walk :=
  { l1Index := readBits va 31 24, l2Index := readBits va 23 18, l3Index := readBits va 17 12,
    curLevel := 0, curPhyAddr := getPhyAddrFromPTD contextTablePointer context }

variable (w : Walk)

/-- The index into the table below the current level. -/
def Walk.index : Word :=
  if w.curLevel = 0 then w.l1Index else if w.curLevel = 1 then w.l2Index else w.l3Index

/-- The walk after a fetched entry, if that is a pointer above the last level. -/
def Walk.recordWalkStep (fetchedPte : Word) (stopAtLevel : Level) : Option Walk :=
  if Pte.entryType fetchedPte = Pte.etPtd ∧ w.curLevel < stopAtLevel then
    some { w with curLevel := w.curLevel + 1, curPhyAddr := getPhyAddrFromPTD fetchedPte w.index }
  else none

/-- What a walk that ends with this entry has found. -/
def Walk.result (fetchedPte : Word) : WalkResult :=
  { pte := fetchedPte, level := w.curLevel, phyAddrOfPte := w.curPhyAddr }

end SparcV8
