import SparcV8.Mmu.Translation

/-!
# Doublewords and lines of the word memory

The data paths of the MMU go by doublewords of 8 bytes, and by lines of 64. Over the word memory
each is a function of the contents, and none reports an exception.
-/

namespace SparcV8

open MmuCore Words

namespace Words

variable (dom : Nat → Bool) (c : Words)

/-- The doubleword at a byte address divided by 8. -/
def dwordAt (n : Nat) : BitVec 64 :=
  doubleword (c.read dom (2 * n + 1)) (c.read dom (2 * n))

/-- The doublewords of the line at a byte address divided by 64. -/
def lineAt (line : Nat) (i : Fin 8) : BitVec 64 := c.dwordAt dom (8 * line + i)

variable (a : BitVec 64)

theorem readPhysicalDoubleword_eq (byteMask : BitVec 8) :
    readPhysicalDoubleword (ram dom) a byteMask c =
      ({ word0 := c.read dom (2 * (a.toNat / 8)),
         word1 := c.read dom (2 * (a.toNat / 8) + 1) }, c) := by
  have hi : a.toNat / 8 * 8 / 4 = 2 * (a.toNat / 8) := by omega
  simp [readPhysicalDoubleword, ram, access, toNat_alignedDword, hi]

/-- The base of a line, and the doublewords of it. -/
theorem toNat_lineBase (i : Fin 8) :
    ((a &&& ~~~63) + 8 * BitVec.ofNat 64 i.val).toNat / 8 = 8 * (a.toNat / 64) + i := by
  have hbase : (a &&& ~~~63).toNat = a.toNat / 64 * 64 := toNat_and_not_low a 6
  have hi := i.isLt
  rw [BitVec.toNat_add, BitVec.toNat_mul, hbase, BitVec.toNat_ofNat,
    show (8 : BitVec 64).toNat = 8 from rfl]
  omega

/-- Reading some doublewords of a line fills in these. -/
theorem foldl_readLineStep (is : List (Fin 8)) (line : Fin 8 → BitVec 64) :
    is.foldl (readLineStep (ram dom) (a &&& ~~~63)) (line, false, c) =
      (fun i => if i ∈ is then c.lineAt dom (a.toNat / 64) i else line i, false, c) := by
  induction is generalizing line with
  | nil => simp
  | cons i is ih =>
    have hstep : readLineStep (ram dom) (a &&& ~~~63) (line, false, c) i =
        (Function.update line i (c.lineAt dom (a.toNat / 64) i), false, c) := by
      simp only [readLineStep, if_off, readPhysicalDoubleword_eq, toNat_lineBase]
      rfl
    rw [List.foldl_cons, hstep, ih]
    congr 1
    funext j
    by_cases hj : j = i
    · subst hj
      simp
    · simp [hj]

/-- A line read returns the line of the address. -/
theorem readLine_eq :
    readLine (ram dom) (a &&& ~~~63) c =
      (c.lineAt dom (a.toNat / 64), false, c) := by
  rw [readLine, foldl_readLineStep]
  simp

end Words

namespace MmuCore

variable (dom : Nat → Bool) (u : MmuCore) (c : Words)

/-- What a line read finds: the line, or the one doubleword asked for. -/
def lineFound (t : Translation) (byteMask : Word) : Fin 8 → BitVec 64 :=
  if t.cacheable && u.isCacheableTarget t.physicalAddr then
    c.lineAt dom (t.physicalAddr.toNat / 64)
  else if byteMask ≠ 0 then
    Function.update (fun _ => 0) (lineOffset t.physicalAddr)
      (c.dwordAt dom (t.physicalAddr.toNat / 8))
  else fun _ => 0

theorem readLineAt_eq (t : Translation) (byteMask : Word) :
    u.readLineAt (ram dom) t byteMask c =
      ({ readWord0 := lowWord (u.lineFound dom c t byteMask (lineOffset t.physicalAddr))
         readWord1 := highWord (u.lineFound dom c t byteMask (lineOffset t.physicalAddr))
         line := u.lineFound dom c t byteMask
         cacheable := t.cacheable && u.isCacheableTarget t.physicalAddr
         acc := t.acc, physicalAddress := t.physicalAddr }, c) := by
  simp only [readLineAt, lineFound, readLine_eq, readPhysicalDoubleword_eq]
  cases t.cacheable && u.isCacheableTarget t.physicalAddr with
  | true => rfl
  | false =>
    by_cases hmask : byteMask = 0
    · simp [hmask]
    · simp only [if_off, if_pos hmask]
      rfl

theorem readData_eq (a : BitVec 64) (readSecondWord : Bool) (mask : BitVec 8) :
    readData (ram dom) a readSecondWord mask c =
      (if readSecondWord then
        { word0 := c.read dom (2 * (a.toNat / 8)),
          word1 := c.read dom (2 * (a.toNat / 8) + 1) }
      else { word0 := c.entryAt dom a }, c) := by
  cases readSecondWord with
  | true => exact readPhysicalDoubleword_eq dom c a mask
  | false => simp [readData, readPhysicalWord_eq]

/-- No completed request over the word memory reports an exception. -/
theorem mae_complete (r : VirtualMemoryRequest) (t : Translation) :
    (u.complete (ram dom) r t c).1.mae = false := by
  unfold complete
  cases r.accessType with
  | IFETCH => simp [readData_eq]
  | LOAD => simp [readData_eq]
  | READ_LINE => simp [readLineAt_eq]
  | _ => rfl

variable {dom u c} {r : VirtualMemoryRequest}

theorem complete_of_read (hk : r.accessType ≠ .STORE) (hk' : r.accessType ≠ .ATOMIC_LS)
    (t : Translation) : (u.complete (ram dom) r t c).2 = (u, c) := by
  unfold complete
  cases h : r.accessType with
  | IFETCH => simp only [readData_eq]
  | LOAD => simp only [readData_eq]
  | READ_LINE => simp only [readLineAt_eq]
  | STORE => exact absurd h hk
  | ATOMIC_LS => exact absurd h hk'
  | _ => rfl

end MmuCore

end SparcV8
