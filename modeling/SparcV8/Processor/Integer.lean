import SparcV8.Processor.State

/-!
# Integer, branch and state-register instructions

Each `execute_*` function of the source. Those whose switch has an `assert` in its
default, and the division, return an `Option`.
-/

namespace SparcV8

open Opcode

namespace SparcCore

variable {nw : Nat}
variable (s : SparcCore nw)

/-- Write `value` to the destination register. -/
def writeRd (value : Word) : SparcCore nw :=
  { s with reg := s.reg.wR s.reg.rRd value }

/-- The same under the source's test for `rd` not being 0. -/
def writeNonzeroRd (value : Word) : SparcCore nw :=
  if s.reg.rRd ≠ 0 then s.writeRd value else s

def writeY (value : Word) : SparcCore nw :=
  { s with reg := { s.reg with Y := value } }

/-- Set the integer condition codes. -/
def writeIcc (n z v c : Word) : SparcCore nw :=
  { s with reg := (((s.reg.wN n).wZ z).wV v).wC c }

/-- The sign bit of a word as a truth value. -/
def signBit (w : Word) : Bool := readBits w 31 31 != 0

/-! ## Arithmetic and logic -/

variable (op : Opcode)

def logicalResult (operand1 operand2 : Word) : Option Word :=
  match op with
  | AND | ANDcc => some (operand1 &&& operand2)
  | ANDN | ANDNcc => some (operand1 &&& ~~~operand2)
  | OR | ORcc => some (operand1 ||| operand2)
  | ORN | ORNcc => some (operand1 ||| ~~~operand2)
  | XOR | XORcc => some (operand1 ^^^ operand2)
  | XNOR | XNORcc => some (operand1 ^^^ ~~~operand2)
  | _ => none

def executeLogical (s : SparcCore nw) : Option (SparcCore nw) := do
  let result ← logicalResult op s.operand1 s.operand2
  let s := s.writeRd result
  match op with
  | ANDcc | ANDNcc | ORcc | ORNcc | XORcc | XNORcc =>
    some (s.writeIcc (readBits result 31 31) (wordOfBool (result == 0)) 0 0)
  | _ => some s

def executeSETHI : SparcCore nw := s.writeNonzeroRd (s.reg.rImm22 <<< 10)

def shiftResult (operand1 : Word) (shiftCount : Nat) : Option Word :=
  if shiftCount = 0 then some operand1
  else
    match op with
    | SLL => some (operand1 <<< shiftCount)
    | SRL => some (operand1 >>> shiftCount)
    | SRA =>
      if readBits operand1 31 31 = 0 then
        some (writeBits (operand1 >>> shiftCount) 31 (31 - shiftCount + 1) 0)
      else some (writeBits (operand1 >>> shiftCount) 31 (31 - shiftCount + 1) 0xffffffff)
    | _ => none

def executeShift (s : SparcCore nw) : Option (SparcCore nw) := do
  let shiftCount :=
    if s.reg.rI = 0 then (readBits (s.reg.rR s.reg.rRs2) 4 0).toNat else s.reg.rRs2.toNat
  let result ← shiftResult op s.operand1 (shiftCount % 32)
  some (s.writeRd result)

variable (a b c : Bool)

/-- Overflow and carry of an addition, from the signs of operands and result. -/
def addOverflow : Bool := (a && b && !c) || (!a && !b && c)
def addCarry : Bool := (a && b) || (!c && (a || b))

/-- Overflow and borrow of a subtraction. -/
def subOverflow : Bool := (a && !b && !c) || (!a && b && c)
def subCarry : Bool := (!a && b) || (c && (!a || b))

def addResult (operand1 operand2 c : Word) : Option Word :=
  match op with
  | ADD | ADDcc => some (operand1 + operand2)
  | ADDX | ADDXcc => some (operand1 + operand2 + c)
  | _ => none

def executeAdd (s : SparcCore nw) : Option (SparcCore nw) := do
  let operand1 := s.operand1
  let operand2 := s.operand2
  let result ← addResult op operand1 operand2 s.reg.rC
  let a := signBit operand1
  let b := signBit operand2
  let c := signBit result
  let s := s.writeRd result
  match op with
  | ADDcc | ADDXcc =>
    some (s.writeIcc (readBits result 31 31) (wordOfBool (result == 0))
      (wordOfBool (addOverflow a b c)) (wordOfBool (addCarry a b c)))
  | _ => some s

def subResult (operand1 operand2 c : Word) : Option Word :=
  match op with
  | SUB | SUBcc => some (operand1 - operand2)
  | SUBX | SUBXcc => some (operand1 - operand2 - c)
  | _ => none

def executeSub (s : SparcCore nw) : Option (SparcCore nw) := do
  let operand1 := s.operand1
  let operand2 := s.operand2
  let result ← subResult op operand1 operand2 s.reg.rC
  let a := signBit operand1
  let b := signBit operand2
  let c := signBit result
  let s := s.writeRd result
  if op == SUBcc || op == SUBXcc then
    some (s.writeIcc (wordOfBool c) (wordOfBool (result == 0))
      (wordOfBool (subOverflow a b c)) (wordOfBool (subCarry a b c)))
  else some s

/-- One of the operands carries a tag. -/
def tagged (operand1 operand2 : Word) : Bool :=
  readBits operand1 1 0 != 0 || readBits operand2 1 0 != 0

/-- The tail of the tagged instructions: trap on overflow (`TV` forms), or set the condition codes
and write. -/
def finishTagged (trapping v carry : Bool) (result : Word) : SparcCore nw :=
  if trapping && v then s.raise .tagOverflow
  else
    (s.writeIcc (wordOfBool (signBit result)) (wordOfBool (result == 0)) (wordOfBool v)
      (wordOfBool carry)).writeRd result

def executeTadd (s : SparcCore nw) : SparcCore nw :=
  let result := s.operand1 + s.operand2
  let a := signBit s.operand1
  let b := signBit s.operand2
  let c := signBit result
  s.finishTagged (op == TADDccTV) (addOverflow a b c || tagged s.operand1 s.operand2)
    (addCarry a b c) result

def executeTsub (s : SparcCore nw) : SparcCore nw :=
  let result := s.operand1 - s.operand2
  let a := signBit s.operand1
  let b := signBit s.operand2
  let c := signBit result
  s.finishTagged (op == TSUBccTV) (subOverflow a b c || tagged s.operand1 s.operand2)
    (subCarry a b c) result

def executeMulStep : SparcCore nw :=
  let nxorV := (s.reg.rN ^^^ s.reg.rV) <<< 31
  let operand1 := readBits s.operand1 31 1 ^^^ nxorV
  let operand2 := if readBits s.reg.Y 0 0 = 0 then 0 else s.operand2
  let result := operand1 + operand2
  let y := (s.operand1 <<< 31) ||| readBits s.reg.Y 31 1
  let o1 := signBit operand1
  let o2 := signBit operand2
  let r := signBit result
  ((s.writeY y).writeNonzeroRd result).writeIcc (readBits result 31 31) (wordOfBool (result == 0))
    (wordOfBool (addOverflow o1 o2 r)) (wordOfBool (addCarry o1 o2 r))

/-- The 64-bit product: zero-extended for `UMUL`, sign-extended for `SMUL`. -/
def product (operand1 operand2 : Word) : BitVec 64 :=
  if op == UMUL || op == UMULcc then operand1.setWidth 64 * operand2.setWidth 64
  else operand1.signExtend 64 * operand2.signExtend 64

def executeMul (s : SparcCore nw) : SparcCore nw :=
  let mulResult := product op s.operand1 s.operand2
  let result : Word := (readBits64 mulResult 31 0).setWidth 32
  let s := (s.writeY ((readBits64 mulResult 63 32).setWidth 32)).writeNonzeroRd result
  if op == UMULcc || op == SMULcc then
    s.writeIcc (readBits result 31 31) (wordOfBool (result == 0)) 0 0
  else s

variable (dividend : BitVec 64)

/-- Quotient and overflow bit of the unsigned division. -/
def unsignedQuotient (operand2 : Word) : Word × Bool :=
  let temp64bit := dividend / operand2.setWidth 64
  if readBits64 temp64bit 63 32 = 0 then ((readBits64 temp64bit 31 0).setWidth 32, false)
  else (0xFFFFFFFF, true)

/-- Quotient and overflow bit. `int64_t / int32_t` overflows for the least dividend and the divisor
-1; the host's signal is `none`. -/
def signedQuotient (operand2 : Word) : Option (Word × Bool) :=
  if dividend = BitVec.intMin 64 ∧ operand2 = 0xFFFFFFFF then none
  else
    let temp64bit := BitVec.sdiv dividend (operand2.signExtend 64)
    if readBits64 temp64bit 63 31 = 0 ∨ readBits64 temp64bit 63 31 = 0x1FFFFFFFF then
      some ((readBits64 temp64bit 31 0).setWidth 32, false)
    else if 0 < temp64bit.toInt then some (0x7FFFFFFF, true)
    else some (0x80000000, true)

/-- The quotient of a division by a divisor that is not 0. -/
def quotient (dividend : BitVec 64) (operand2 : Word) : Option (Word × Bool) :=
  if op == UDIV || op == UDIVcc then some (unsignedQuotient dividend operand2)
  else signedQuotient dividend operand2

def executeDiv (s : SparcCore nw) : Option (SparcCore nw) :=
  if s.operand2 = 0 then some (s.raise .divisionByZero)
  else do
    let (result, v) ← quotient op (concatBits s.reg.Y s.operand1) s.operand2
    let s := s.writeNonzeroRd result
    if op == UDIVcc || op == SDIVcc then
      some (s.writeIcc (readBits result 31 31) (wordOfBool (result == 0)) (wordOfBool v) 0)
    else some s

/-! ## Register windows and control transfer -/

def executeSaveRestore (s : SparcCore nw) : SparcCore nw :=
  -- operands from the old window, destination in the new one
  let result := s.operand1 + s.operand2
  let newCWP := if op == SAVE then s.reg.previousWindow else s.reg.nextWindow
  if s.reg.windowInvalid newCWP then
    s.raise (if op == SAVE then .windowOverflow else .windowUnderflow)
  else
    let s := { s with reg := s.reg.wCWP newCWP }
    if s.trap = false ∧ s.reg.rRd ≠ 0 then s.writeRd result else s

/-- Continue at `nPC`, then at the target or after the delay slot; `always` is the branch-always
opcode. -/
def branch (taken always : Bool) : SparcCore nw :=
  let pc := s.reg.PC
  let npc := s.reg.nPC
  let reg := s.reg.wPC npc
  if taken then
    { s with
      reg := reg.wNPC (pc + signExtend (reg.rDisp22 <<< 2) 23)
      annul := if always && reg.rA == 1 then true else s.annul }
  else
    { s with reg := reg.wNPC (npc + 4), annul := if reg.rA == 1 then true else s.annul }

/-- The condition of a `Bicc`. -/
def evalIcc (reg : Registers nw) : Option Bool :=
  let z := reg.rZ != 0
  let n := reg.rN != 0
  let v := reg.rV != 0
  let c := reg.rC != 0
  match op with
  | BNE => some !z
  | BE => some z
  | BG => some !(z || (n ^^ v))
  | BLE => some (z || (n ^^ v))
  | BGE => some !(n ^^ v)
  | BL => some (n ^^ v)
  | BGU => some (!c && !z)
  | BLEU => some (c || z)
  | BCC => some !c
  | BCS => some c
  | BPOS => some !n
  | BNEG => some n
  | BVC => some !v
  | BVS => some v
  | BA => some true
  | BN => some false
  | _ => none

def executeBicc (s : SparcCore nw) : Option (SparcCore nw) := do
  let taken ← evalIcc op s.reg
  some (s.branch taken (op == BA))

def executeCALL : SparcCore nw :=
  let pc := s.reg.PC
  let npc := s.reg.nPC
  let reg := (s.reg.wR 15 pc).wPC npc
  { s with reg := reg.wNPC (pc + (reg.rDisp30 <<< 2)) }

def executeJMPL : SparcCore nw :=
  let jumpAddress := s.operand1 + s.operand2
  if readBits jumpAddress 1 0 ≠ 0 then s.raise .memAddressNotAligned
  else { s with reg := ((s.reg.wR s.reg.rRd s.reg.PC).wPC s.reg.nPC).wNPC jumpAddress }

/-- A trap of `RETT` while traps are disabled: the core stops. -/
def enterError (t : TrapFlag) (tt : Word) : SparcCore nw :=
  { s.raise t with state := .ERROR, reg := s.reg.wTt tt }

def executeRETT : SparcCore nw :=
  let newCwp := s.reg.nextWindow
  let s := { s with address := s.operand1 + s.operand2 }
  if s.reg.rET = 1 then
    s.raise (if s.reg.rS = 0 then .privilegedInstruction else .illegalInstruction)
  else if s.reg.rS = 0 then s.enterError .privilegedInstruction 0x03
  else if s.reg.windowInvalid newCwp then s.enterError .windowUnderflow 0x06
  else if readBits s.address 1 0 ≠ 0 then s.enterError .memAddressNotAligned 0x07
  else
    let reg := (((s.reg.wET 1).wPC s.reg.nPC).wNPC s.address).wCWP newCwp
    { s with reg := reg.wS reg.rPS }

/-- The condition of a `Ticc`. -/
def trapEvalIcc (reg : Registers nw) : Option Bool :=
  let z := reg.rZ != 0
  let n := reg.rN != 0
  let v := reg.rV != 0
  let c := reg.rC != 0
  match op with
  | TNE => some !z
  | TE => some z
  | TG => some !(z || (n ^^ v))
  | TLE => some (z || (n ^^ v))
  | TGE => some !(n ^^ v)
  | TL => some (n ^^ v)
  | TGU => some (!c && !z)
  | TLEU => some (c || z)
  | TCC => some !c
  | TCS => some c
  | TPOS => some !n
  | TNEG => some n
  | TVC => some !v
  | TVS => some v
  | TA => some true
  | TN => some false
  | _ => none

def executeTicc (s : SparcCore nw) : Option (SparcCore nw) := do
  let taken ← trapEvalIcc op s.reg
  let operand2 := if s.reg.rI = 0 then s.reg.rR s.reg.rRs2
    else signExtend (readBits s.reg.rSimm13 7 0) 8
  let trapNumber := s.operand1 + operand2
  if taken then
    some { s.raise .trapInstruction with ticcTrapType := readBits trapNumber 6 0 }
  else some s.advance

/-! ## State registers -/

/-- No ancillary register is privileged or illegal in this implementation. -/
def privilegedASR (_ : RegNum) : Bool := false
def illegalInstructionASR (_ : RegNum) : Bool := false

/-- The value a read of a state register returns. -/
def stateRegValue (s : SparcCore nw) : Option Word :=
  match op with
  | RDY => some s.reg.Y
  | RDASR =>
    some (if s.reg.rRs1 = asrCoreThreadId then s.coreThreadIdWord else s.reg.ASR s.reg.rRs1)
  | RDPSR => some s.reg.PSR
  | RDWIM => some s.reg.WIM
  | RDTBR => some s.reg.TBR
  | _ => none

def executeReadStateReg (s : SparcCore nw) : Option (SparcCore nw) :=
  if (op == RDPSR || op == RDWIM || op == RDTBR || (op == RDASR && privilegedASR s.reg.rRs1)) &&
      s.reg.rS == 0 then
    some (s.raise .privilegedInstruction)
  else if op == RDASR && illegalInstructionASR s.reg.rRs1 then some (s.raise .illegalInstruction)
  else if s.reg.rRd ≠ 0 then (stateRegValue op s).map s.writeRd
  else some s

def executeWriteStateReg (s : SparcCore nw) : Option (SparcCore nw) :=
  let result := s.operand1 ^^^ s.operand2
  match op with
  | WRY => some (s.writeY result)
  | WRASR =>
    if privilegedASR s.reg.rRd && s.reg.rS == 0 then some (s.raise .privilegedInstruction)
    else if illegalInstructionASR s.reg.rRd then some (s.raise .illegalInstruction)
    else if s.reg.rRd ≠ asrCoreThreadId then some { s with reg := s.reg.wASR s.reg.rRd result }
    else some s
  | WRPSR =>
    if s.reg.rS = 0 then some (s.raise .privilegedInstruction)
    else if nw ≤ (readBits result 4 0).toNat then some (s.raise .illegalInstruction)
    -- bits 31 to 24 are hardwired
    else some { s with reg := { s.reg with PSR := writeBits s.reg.PSR 23 0 result } }
  | WRWIM =>
    if s.reg.rS = 0 then some (s.raise .privilegedInstruction)
    else some { s with reg := s.reg.wWIM result }
  | WRTBR =>
    if s.reg.rS = 0 then some (s.raise .privilegedInstruction)
    else
      some { s with reg := { s.reg with TBR := writeBits s.reg.TBR 31 12 (readBits result 31 12) } }
  | _ => none

def executeSTBAR : SparcCore nw := { s with storeBarrierPending := true }

def executeUNIMP : SparcCore nw := s.raise .illegalInstruction

def executeCBccc : SparcCore nw := s.executeUNIMP

def executeCPop : SparcCore nw := s.executeUNIMP

end SparcCore

end SparcV8
