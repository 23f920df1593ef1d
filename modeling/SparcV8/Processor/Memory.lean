import SparcV8.Core.Word.Bytes
import SparcV8.Processor.BitManipulation
import Mathlib.Logic.Function.Basic

/-!
# Memory interfaces and the flat memory

Requests and responses, the two abstract interfaces, and `MemCore`, the flat word-addressed memory
of the configuration without an MMU. The handshake bit `valid` is left out: every access below is
answered at once.
-/

namespace SparcV8

inductive MemAccessType where
  | NO_ACCESS | LOAD | STORE | IFETCH | ATOMIC_LS | FLUSH | READ_LINE
  deriving DecidableEq, Repr

structure VirtualMemoryRequest where
  accessType : MemAccessType
  address : Word
  asi : Word
  word0 : Word
  word1 : Word
  /-- Low nibble: bytes of the word at the lower address; high nibble: the upper. -/
  byteMask : Word
  deriving DecidableEq

/-- A request for the word at an address, with the data of a store. -/
def wordAccess (kind : MemAccessType) (address asi word0 : Word) : VirtualMemoryRequest :=
  { accessType := kind, address := address, asi := asi, word0 := word0, word1 := 0,
    byteMask := 0x0F }

/-- The request is a fetch or a load. -/
abbrev VirtualMemoryRequest.Reads (r : VirtualMemoryRequest) : Prop :=
  r.accessType = .IFETCH ∨ r.accessType = .LOAD

/-- The request is a store or an atomic. -/
abbrev VirtualMemoryRequest.Stores (r : VirtualMemoryRequest) : Prop :=
  r.accessType = .STORE ∨ r.accessType = .ATOMIC_LS

/-- The fields after `mae` are filled for a `READ_LINE`, and the physical address also for a store
or an atomic that reached memory. -/
structure VirtualMemoryResponse where
  readWord0 : Word := 0
  readWord1 : Word := 0
  /-- Memory access exception. -/
  mae : Bool := false
  line : Fin 8 → BitVec 64 := fun _ => 0
  cacheable : Bool := false
  acc : Word := 0
  physicalAddress : BitVec 64 := 0
  physicalAddressValid : Bool := false

inductive PhysicalAccessType where
  | READ | WRITE
  deriving DecidableEq, Repr

structure PhysicalMemoryRequest where
  accessType : PhysicalAccessType
  lock : Bool
  physicalAddress : BitVec 64
  data : BitVec 64
  byteMask : BitVec 8
  deriving DecidableEq

structure PhysicalMemoryResponse where
  readData : BitVec 64
  mae : Bool
  deriving DecidableEq

/-- Whatever a core's memory requests go to, with its state `σ`. -/
structure VirtualMemory (σ : Type) where
  access : VirtualMemoryRequest → σ → VirtualMemoryResponse × σ

/-- Whatever an MMU sends its translated requests to, with its state `τ`. -/
structure PhysicalMemory (τ : Type) where
  access : PhysicalMemoryRequest → τ → PhysicalMemoryResponse × τ

/-- Overwrite each byte of `existingWord` whose bit is set in `nibbleMask`. -/
def mergeMaskedBytes (existingWord newWord nibbleMask : Word) : Word :=
  (List.range 4).foldl
    (fun result i =>
      if readBits nibbleMask i i ≠ 0 then
        writeBits result (8 * (i + 1) - 1) (8 * i) (readBits newWord (8 * (i + 1) - 1) (8 * i))
      else result)
    existingWord

variable (existingWord newWord nibbleMask : Word)

/-- After `k` rounds of the loop the selected ones of the low `k` bytes are replaced. -/
theorem getLsbD_mergeLoop {k : Nat} (hk : k ≤ 4) (j : Nat) :
    ((List.range k).foldl
      (fun result i =>
        if readBits nibbleMask i i ≠ 0 then
          writeBits result (8 * (i + 1) - 1) (8 * i) (readBits newWord (8 * (i + 1) - 1) (8 * i))
        else result)
      existingWord).getLsbD j =
      if j / 8 < k ∧ nibbleMask.getLsbD (j / 8) = true then newWord.getLsbD j
      else existingWord.getLsbD j := by
  induction k with
  | zero => simp
  | succ k ih =>
    rw [List.range_succ, List.foldl_append, List.foldl_cons, List.foldl_nil]
    have hbit : readBits nibbleMask k k ≠ 0 ↔ nibbleMask.getLsbD k = true :=
      readBits_ne_zero_iff nibbleMask (by omega)
    by_cases hm : nibbleMask.getLsbD k = true
    · rw [if_pos (hbit.2 hm), getLsbD_writeBits _ _ (by omega), ih (by omega)]
      by_cases hjk : j / 8 = k
      · rw [if_pos (by omega), getLsbD_readBits _ (by omega), if_pos ⟨by omega, hjk ▸ hm⟩]
        have h1 : 8 * k + (j - 8 * k) = j := by omega
        have h2 : j ≤ 8 * (k + 1) - 1 := by omega
        simp [h1, h2]
      · rw [if_neg (by omega)]
        have hlt : j / 8 < k ↔ j / 8 < k + 1 := by omega
        simp only [hlt]
    · rw [if_neg (fun h => hm (hbit.1 h)), ih (by omega)]
      by_cases hjk : j / 8 = k
      · rw [if_neg (by omega), if_neg (fun h => hm (hjk ▸ h.2))]
      · have hlt : j / 8 < k ↔ j / 8 < k + 1 := by omega
        simp only [hlt]

theorem getLsbD_mergeMaskedBytes {j : Nat} (hj : j < 32) :
    (mergeMaskedBytes existingWord newWord nibbleMask).getLsbD j =
      if nibbleMask.getLsbD (j / 8) = true then newWord.getLsbD j else existingWord.getLsbD j := by
  have hbyte : j / 8 < 4 := by omega
  rw [mergeMaskedBytes, getLsbD_mergeLoop _ _ _ (by decide)]
  simp [hbyte]

/-- A merge takes each byte from the word its mask bit selects. -/
theorem bigEndianByte_mergeMaskedBytes {k : Nat} (hk : k < 4) :
    bigEndianByte 4 (mergeMaskedBytes existingWord newWord nibbleMask).toNat k =
      if nibbleMask.getLsbD (3 - k) = true then bigEndianByte 4 newWord.toNat k
      else bigEndianByte 4 existingWord.toNat k := by
  apply BitVec.eq_of_getLsbD_eq
  intro i hi
  have hdiv : (8 * (4 - 1 - k) + i) / 8 = 3 - k := by omega
  rw [getLsbD_bigEndianByte, getLsbD_mergeMaskedBytes _ _ _ (by omega), hdiv]
  split <;> rw [getLsbD_bigEndianByte]

/-- The flat memory: 32-bit words, of which the first `nwords` exist. -/
structure MemCore where
  core : Nat → Word

namespace MemCore

/-- Memory size in bytes. -/
def memSize : Nat := 0x10000000

def nwords : Nat := memSize >>> 2

variable (m : MemCore)

def readWord (address : Word) : Word :=
  if address.toNat >>> 2 < nwords then m.core (address.toNat >>> 2) else 0

def writeWord (address word : Word) : MemCore :=
  if address.toNat >>> 2 < nwords then
    { core := Function.update m.core (address.toNat >>> 2) word }
  else m

/-- The masked doubleword write of `STORE` and `ATOMIC_LS`, on the words found. -/
def writeMasked (request : VirtualMemoryRequest) (existing0 existing1 : Word) : MemCore :=
  (m.writeWord request.address
    (mergeMaskedBytes existing0 request.word0 (readBits request.byteMask 3 0))).writeWord
    (request.address + 4)
    (mergeMaskedBytes existing1 request.word1 (readBits request.byteMask 7 4))

def access (request : VirtualMemoryRequest) (m : MemCore) : VirtualMemoryResponse × MemCore :=
  let word0 := m.readWord request.address
  let word1 := m.readWord (request.address + 4)
  match request.accessType with
  | .IFETCH => ({ readWord0 := word0 }, m)
  | .LOAD => ({ readWord0 := word0, readWord1 := word1 }, m)
  | .STORE => ({}, m.writeMasked request word0 word1)
  | .ATOMIC_LS =>
    ({ readWord0 := word0, readWord1 := word1 }, m.writeMasked request word0 word1)
  | .FLUSH | .NO_ACCESS | .READ_LINE => ({}, m)

/-- `MemCore` as the memory below a core. -/
def virtualMemory : VirtualMemory MemCore := ⟨access⟩

end MemCore

/-- A flat memory of zeros. -/
def zeroMemory : MemCore := ⟨fun _ => 0⟩

/-- A flat memory of one word, at address 0, and zeros. -/
def wordMemory (word : Word) : MemCore := ⟨fun i => if i = 0 then word else 0⟩

end SparcV8
