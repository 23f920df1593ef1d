import SparcV8.Processor.Memory
import Mathlib.Tactic.SplitIfs

/-!
# Physical memory

The address map, main memory and the system bus below an MMU, and `PlainMemory`: what it
means for a physical memory to be plain, that is 32-bit words without side effects.
-/

namespace SparcV8

open MemCore

/-! ## The address map -/

namespace SystemAddressMap

inductive Target where
  | MAIN_MEMORY | PERIPHERAL_DEVICES | APARA_ENGINE | UNMAPPED
  deriving DecidableEq, Repr

inductive Profile where
  | FLAT | AJIT_APARA
  deriving DecidableEq, Repr

/-- The layout of the address space, chosen once by the configuration's driver. -/
structure Layout where
  profile : Profile := .FLAT
  clusters : Nat := 1
  enginesPerCluster : Nat := 1
  deriving DecidableEq

def peripheralDevicesMin : Nat := 0xFFFF0000
def peripheralDevicesMax : Nat := 0xFFFFFFFF

def aparaDmemBase (c e : Nat) : Nat := 0x01000000 + c * 0x40000 + e * 0x10000
def aparaCcuBase (c e : Nat) : Nat := 0xFFFE0000 + c * 0x200 + e * 0x80
def aparaDmaBase (c e : Nat) : Nat := 0xFFFE2000 + c * 0x200 + e * 0x80

/-- The address lies in one of the three windows of an engine. -/
def inEngineWindows (c e a : Nat) : Bool :=
  (aparaDmemBase c e ≤ a && a - aparaDmemBase c e < 0x10000) ||
  (aparaCcuBase c e ≤ a && a - aparaCcuBase c e < 0x80) ||
  (aparaDmaBase c e ≤ a && a - aparaDmaBase c e < 0x80)

/-- The engine whose window holds the address. -/
def aparaEngineAt (l : Layout) (a : Nat) : Option Nat :=
  if l.profile ≠ .AJIT_APARA then none
  else
    (List.range l.clusters).findSome? fun c =>
      (List.range l.enginesPerCluster).findSome? fun e =>
        if inEngineWindows c e a then some (c * l.enginesPerCluster + e) else none

def decode (l : Layout) (physicalAddress : BitVec 64) : Target :=
  let a := physicalAddress.toNat
  if (aparaEngineAt l a).isSome then .APARA_ENGINE
  else if a ≤ memSize - 1 then .MAIN_MEMORY
  else if peripheralDevicesMin ≤ a ∧ a ≤ peripheralDevicesMax then .PERIPHERAL_DEVICES
  else .UNMAPPED

end SystemAddressMap

/-! ## Doublewords on the physical side -/

/-- The word at the lower address is the low half. -/
def doubleword (word1 word0 : Word) : BitVec 64 :=
  (word1.setWidth 64 <<< 32) ||| word0.setWidth 64

variable (d : BitVec 64)

def lowWord : Word := d.setWidth 32

def highWord : Word := (d >>> 32).setWidth 32

variable (word1 word0 : Word)

@[simp] theorem lowWord_doubleword : lowWord (doubleword word1 word0) = word0 := by
  apply BitVec.eq_of_getLsbD_eq
  intro i hi
  simp [lowWord, doubleword, hi]

@[simp] theorem highWord_doubleword : highWord (doubleword word1 word0) = word1 := by
  apply BitVec.eq_of_getLsbD_eq
  intro i hi
  have hlt : 32 + i < 64 := by omega
  simp [highWord, doubleword, hi, hlt]

/-- A doubleword is put together from its words. -/
theorem doubleword_words (d : BitVec 64) : doubleword (highWord d) (lowWord d) = d := by
  apply BitVec.eq_of_getLsbD_eq
  intro i hi
  simp only [doubleword, highWord, lowWord, BitVec.getLsbD_or, BitVec.getLsbD_shiftLeft,
    BitVec.getLsbD_setWidth, BitVec.getLsbD_ushiftRight, hi, decide_true, Bool.true_and]
  by_cases hlt : i < 32
  · simp [hlt]
  · have hsum : 32 + (i - 32) = i := by omega
    have hlt' : i - 32 < 32 := by omega
    have hlt'' : i - 32 < 64 := by omega
    simp [hlt, hlt', hlt'', hsum]

/-! ## Main memory and the bus -/

namespace MainMemory

/-- `none` is the failure of the assertion that the address fits in 32 bits. -/
def toMemCoreAddress (physicalAddress : BitVec 64) : Option Word :=
  if physicalAddress >>> 32 = 0 then some (physicalAddress.setWidth 32) else none

/-- An access at an address that has passed the assertion. -/
def accessAt (addr : Word) (request : PhysicalMemoryRequest) (m : MemCore) :
    PhysicalMemoryResponse × MemCore :=
  let word0 := m.readWord addr
  let word1 := m.readWord (addr + 4)
  match request.accessType with
  | .READ => ({ readData := doubleword word1 word0, mae := false }, m)
  | .WRITE =>
    let mask := request.byteMask.setWidth 32
    ({ readData := 0, mae := false },
      (m.writeWord addr (mergeMaskedBytes word0 (lowWord request.data)
        (readBits mask 3 0))).writeWord
        (addr + 4) (mergeMaskedBytes word1 (highWord request.data) (readBits mask 7 4)))

def access (request : PhysicalMemoryRequest) (m : MemCore) :
    Option (PhysicalMemoryResponse × MemCore) := do
  let addr ← toMemCoreAddress request.physicalAddress
  some (accessAt addr request m)

end MainMemory

variable {a : BitVec 64}

namespace SystemBus

variable {δ : Type}
variable (l : SystemAddressMap.Layout)

/-- The bus over main memory and the devices, with no engine attached. -/
def access (devices : PhysicalMemory δ) (request : PhysicalMemoryRequest) (m : MemCore × δ) :
    PhysicalMemoryResponse × (MemCore × δ) :=
  match SystemAddressMap.decode l request.physicalAddress with
  | .MAIN_MEMORY =>
    let (response, m') := MainMemory.accessAt (request.physicalAddress.setWidth 32) request m.1
    (response, (m', m.2))
  | .PERIPHERAL_DEVICES =>
    let (response, d) := devices.access request m.2
    (response, (m.1, d))
  | .APARA_ENGINE | .UNMAPPED => ({ readData := 0, mae := false }, m)

def physicalMemory (devices : PhysicalMemory δ) :
    PhysicalMemory (MemCore × δ) := ⟨access l devices⟩

/-- Below the bus the assertion of main memory holds. -/
theorem toMemCoreAddress_of_decode {l : SystemAddressMap.Layout}
    (h : SystemAddressMap.decode l a = .MAIN_MEMORY) :
    MainMemory.toMemCoreAddress a = some (a.setWidth 32) := by
  have hlt : a.toNat < 2 ^ 32 := by
    simp only [SystemAddressMap.decode] at h
    split_ifs at h with h1 h2
    have : memSize - 1 < 2 ^ 32 := by decide
    omega
  rw [MainMemory.toMemCoreAddress, if_pos]
  apply BitVec.eq_of_toNat_eq
  rw [BitVec.toNat_ushiftRight, Nat.shiftRight_eq_div_pow, Nat.div_eq_of_lt hlt]
  rfl

/-- Devices that are not there: reads give 0, writes are ignored. -/
def noDevices : PhysicalMemory Unit := ⟨fun _ d => ({ readData := 0, mae := false }, d)⟩

end SystemBus

/-! ## Plain memories -/

/-- The abstract plain memory. An absent word reads as 0 and ignores writes. -/
structure Words where
  /-- The word at a byte address divided by 4. -/
  word : Nat → Word

namespace Words

variable (dom : Nat → Bool)

def read (c : Words) (i : Nat) : Word := if dom i then c.word i else 0

def write (c : Words) (i : Nat) (word : Word) : Words :=
  if dom i then { word := Function.update c.word i word } else c

def access (r : PhysicalMemoryRequest) (c : Words) : PhysicalMemoryResponse × Words :=
  let i := r.physicalAddress.toNat / 4
  match r.accessType with
  | .READ => ({ readData := doubleword (c.read dom (i + 1)) (c.read dom i), mae := false }, c)
  | .WRITE =>
    let mask := r.byteMask.setWidth 32
    let word0 := mergeMaskedBytes (c.read dom i) (lowWord r.data) (readBits mask 3 0)
    let word1 := mergeMaskedBytes (c.read dom (i + 1)) (highWord r.data) (readBits mask 7 4)
    ({ readData := 0, mae := false }, (c.write dom i word0).write dom (i + 1) word1)

def ram : PhysicalMemory Words := ⟨access dom⟩

variable (c : Words)

theorem read_write (i j : Nat) (word : Word) :
    (c.write dom i word).read dom j =
      if j = i then (if dom i then word else 0) else c.read dom j := by
  unfold write read
  by_cases hi : dom i = true
  · by_cases hj : j = i
    · subst hj
      simp [hi]
    · simp [hi, hj]
  · by_cases hj : j = i
    · subst hj
      simp [hi]
    · simp [hi, hj]

end Words

/-- A physical memory whose contents are words, and whose accesses do what the abstract memory does.
-/
structure PlainMemory {τ : Type} (phys : PhysicalMemory τ) where
  contents : τ → Words
  dom : Nat → Bool
  response_eq : ∀ r m, (phys.access r m).1 = (Words.access dom r (contents m)).1
  contents_eq : ∀ r m,
    contents (phys.access r m).2 = (Words.access dom r (contents m)).2

variable (existingWord newWord : Word)

/-- No byte is merged under an empty mask. -/
theorem mergeMaskedBytes_empty :
    mergeMaskedBytes existingWord newWord 0 = existingWord := rfl

/-- A full mask takes the new word. -/
theorem mergeMaskedBytes_full : mergeMaskedBytes existingWord newWord 0xF = newWord := by
  apply BitVec.eq_of_getLsbD_eq
  intro i hi
  have hmask : ∀ k < 4, (0xF : Word).getLsbD k = true := by decide
  rw [getLsbD_mergeMaskedBytes _ _ _ hi, if_pos (hmask _ (by omega))]

namespace SystemBus

/-- The words of main memory exist. -/
def dom (i : Nat) : Bool := i < nwords

theorem readWord_eq (m : MemCore) (address : Word) :
    m.readWord address = Words.read dom ⟨m.core⟩ (address.toNat / 4) := by
  simp [readWord, Words.read, dom, Nat.shiftRight_eq_div_pow]

theorem core_writeWord (m : MemCore) (address word : Word) :
    (⟨(m.writeWord address word).core⟩ : Words) =
      Words.write dom ⟨m.core⟩ (address.toNat / 4) word := by
  rw [writeWord, Words.write, Nat.shiftRight_eq_div_pow]
  by_cases h : address.toNat / 4 < nwords
  · rw [if_pos (by simpa using h), if_pos (by simpa [dom] using h)]
  · rw [if_neg (by simpa using h), if_neg (by simpa [dom] using h)]

/-- In the flat layout an address is in main memory exactly when it is small. -/
theorem decode_flat (a : BitVec 64) :
    SystemAddressMap.decode {} a = .MAIN_MEMORY ↔ a.toNat < memSize := by
  have hnone : SystemAddressMap.aparaEngineAt {} a.toNat = none := rfl
  simp only [SystemAddressMap.decode, hnone]
  have hpos : 0 < memSize := by decide
  constructor
  · intro h
    split_ifs at h with h1
    omega
  · intro h
    rw [if_neg (by simp), if_pos (by omega)]

variable {r : PhysicalMemoryRequest} (m : MemCore × Unit)

/-- Outside main memory nothing answers. -/
theorem access_flat_of_ge (h : memSize ≤ r.physicalAddress.toNat) :
    access {} noDevices r m = ({ readData := 0, mae := false }, m) := by
  have hne : SystemAddressMap.decode {} r.physicalAddress ≠ .MAIN_MEMORY := by
    rw [Ne, decode_flat]
    omega
  unfold access
  split
  · next hd => exact absurd hd hne
  · rfl
  · rfl
  · rfl

theorem access_flat_of_lt (h : r.physicalAddress.toNat < memSize) :
    access {} noDevices r m =
      ((MainMemory.accessAt (r.physicalAddress.setWidth 32) r m.1).1,
        ((MainMemory.accessAt (r.physicalAddress.setWidth 32) r m.1).2, m.2)) := by
  rw [access, (decode_flat _).2 h]

/-- The two words of a doubleword of main memory, as 32-bit addresses. -/
theorem toNat_address32 (h : a.toNat < memSize) :
    (a.setWidth 32).toNat / 4 = a.toNat / 4 ∧
      (a.setWidth 32 + 4).toNat / 4 = a.toNat / 4 + 1 := by
  have hsize : memSize = 2 ^ 28 := rfl
  have h32 : (a.setWidth 32).toNat = a.toNat := by
    rw [BitVec.toNat_setWidth]
    omega
  rw [BitVec.toNat_add, h32, show (4 : Word).toNat = 4 from rfl]
  omega

/-- Within main memory an access acts on two words. -/
theorem accessAt_eq (h : a.toNat < memSize) (r : PhysicalMemoryRequest) (ha : r.physicalAddress = a)
    (m : MemCore) :
    (MainMemory.accessAt (a.setWidth 32) r m).1 = (Words.access dom r ⟨m.core⟩).1 ∧
      (⟨(MainMemory.accessAt (a.setWidth 32) r m).2.core⟩ : Words) =
        (Words.access dom r ⟨m.core⟩).2 := by
  obtain ⟨h0, h4⟩ := toNat_address32 h
  rw [MainMemory.accessAt, Words.access, ha]
  cases r.accessType with
  | READ => simp only [readWord_eq, h0, h4, and_self]
  | WRITE => simp only [readWord_eq, core_writeWord, h0, h4, and_self]

/-- Outside main memory the abstract words are absent. -/
theorem access_absent (c : Words) (h : memSize ≤ r.physicalAddress.toNat) :
    Words.access dom r c = ({ readData := 0, mae := false }, c) := by
  have hn : memSize = 4 * nwords := rfl
  have h0 : dom (r.physicalAddress.toNat / 4) = false := decide_eq_false (by omega)
  have h1 : dom (r.physicalAddress.toNat / 4 + 1) = false := decide_eq_false (by omega)
  unfold Words.access
  cases r.accessType with
  | READ => simp [Words.read, h0, h1, doubleword]
  | WRITE => simp [Words.write, h0, h1]

/-- The bus of the flat layout, without devices, is a plain memory. -/
def plain : PlainMemory (physicalMemory {} noDevices) where
  contents m := ⟨m.1.core⟩
  dom := dom
  response_eq r m := by
    change (access {} noDevices r m).1 = _
    rcases Nat.lt_or_ge r.physicalAddress.toNat memSize with h | h
    · rw [access_flat_of_lt m h]
      exact (accessAt_eq h r rfl m.1).1
    · rw [access_flat_of_ge m h, access_absent _ h]
  contents_eq r m := by
    change (⟨(access {} noDevices r m).2.1.core⟩ : Words) = _
    rcases Nat.lt_or_ge r.physicalAddress.toNat memSize with h | h
    · rw [access_flat_of_lt m h]
      exact (accessAt_eq h r rfl m.1).2
    · rw [access_flat_of_ge m h, access_absent _ h]

end SystemBus

/-- The bus of the flat layout with zeros in main memory. -/
def zeroBus : MemCore × Unit := (zeroMemory, ())

/-- The flat bus with one page table entry, that of all addresses when the context table is at
address 0. -/
def pageBus (entry : Word) : MemCore × Unit := (wordMemory entry, ())

/-- Two entries of the level-1 table at 0x400 point to one level-2 table at 0x800. -/
def sharedTable : MemCore :=
  ⟨fun i =>
    if i = 0 then 0x41 else if i = 0x100 then 0x81 else if i = 0x101 then 0x81
    else if i = 0x200 then 0x1000000E else 0⟩

end SparcV8
