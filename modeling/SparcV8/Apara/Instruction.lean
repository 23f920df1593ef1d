import SparcV8.Apara.Types

/-!
# The instructions of the APARA engine

A word has its opcode in bits [30:26], and bit 31 set if it is the first of a bundle. The opcode
says what the other bits are.
-/

namespace SparcV8.Apara

/-- The operations. `UNDEFINED` stands for the codes that have none. -/
inductive Opcode where
  | NOP | CALL | BRANCH | RETURN
  | ADD | SUB | MUL | DIV | OR | AND | XOR | NOR | NAND | XNOR | SHL | SHR
  | FSQRT | DOT | CAST | LOAD | STORE | SET | VREDUCE | CMOV | PACK | SLICE
  | NULL_OP | HALT
  | UNDEFINED
deriving DecidableEq, Repr

def Opcode.fromCode (code : BitVec 5) : Opcode :=
  match code.toNat with
  | 0x00 => .NOP | 0x01 => .CALL | 0x02 => .BRANCH | 0x03 => .RETURN
  | 0x04 => .ADD | 0x05 => .SUB | 0x06 => .MUL | 0x07 => .DIV
  | 0x08 => .OR | 0x09 => .AND | 0x0A => .XOR | 0x0B => .NOR | 0x0C => .NAND | 0x0D => .XNOR
  | 0x0E => .SHL | 0x0F => .SHR
  | 0x10 => .FSQRT | 0x11 => .DOT | 0x12 => .CAST | 0x13 => .LOAD | 0x14 => .STORE
  | 0x15 => .SET | 0x16 => .VREDUCE | 0x17 => .CMOV | 0x18 => .PACK | 0x19 => .SLICE
  | 0x1A => .NULL_OP | 0x1B => .HALT
  | _ => .UNDEFINED

/-- The operations from `ADD` to `SHR`. -/
def Opcode.isAlu : Opcode → Bool
  | .ADD | .SUB | .MUL | .DIV | .OR | .AND | .XOR | .NOR | .NAND | .XNOR | .SHL | .SHR => true
  | _ => false

/-- The conditions of branches and moves, on a value compared with 0. -/
inductive Condition where
  | ALWAYS | EQ | GT | LT | GE | LE | NE | NEVER
deriving DecidableEq, Repr

def Condition.fromCode (code : BitVec 3) : Condition :=
  match code.toNat with
  | 0 => .ALWAYS | 1 => .EQ | 2 => .GT | 3 => .LT | 4 => .GE | 5 => .LE | 6 => .NE
  | _ => .NEVER

/-- What an instruction is, for the rules of the bundle. -/
inductive InstructionClass where
  | NONE | ALU | VECTOR | DOT | CAST | DIVIDE | MEMORY | CONTROL | HALT
deriving DecidableEq, Repr

/-- The number of a register. -/
abbrev RegIndex := BitVec 5

structure Instruction where
  word : BitVec 32 := 0
  bundleStart : Bool := false
  valid : Bool := false
  opcode : Opcode := .NOP
  klass : InstructionClass := .NONE
  rd : RegIndex := 0
  rs1 : RegIndex := 0
  rs2 : RegIndex := 0
  /-- The type of the sources, of a test, of a transfer, or of a cast. -/
  type : DataType := {}
  castSource : DataType := {}
  destType : DataType := {}
  /-- An ALU operation with a vector type. -/
  isVector : Bool := false
  /-- With an immediate value; for a call, with a label. -/
  immediate : Bool := false
  immValue : Int := 0
  /-- What is added to `rs2`: elements for a load or store. -/
  increment : Int := 0
  /-- The distance of a jump, in instruction words. -/
  jump : Int := 0
  condition : Condition := .ALWAYS
  /-- `DOT` accumulates; a vector operation replicates. -/
  flag : Bool := false
  subOpcode : Opcode := .ADD
  packedBits : Nat := 0
  wordBits : Nat := 0
  sliceHigh : Nat := 0
  sliceLow : Nat := 0
  setByteIndex : Nat := 0
  setValue : BitVec 16 := 0
deriving DecidableEq, Repr

/-- The type of a result: that of the sources, with another width. -/
def inferDestination (op : Opcode) (src : DataType) : DataType :=
  if src.isVector then
    if op = .DOT ∨ op = .VREDUCE then { src with bits := if src.isFloat then 32 else 64 } else src
  else if op.isAlu && !src.isFloat then { src with bits := 64 }
  else src

namespace Instruction

variable (i : Instruction)

/-- A cast to a wider element writes two registers, one to a narrower reads two. -/
def castRegisterCounts : Nat × Nat :=
  if i.castSource.isVector then
    if i.type.bits < i.castSource.bits then (i.castSource.bits / i.type.bits, 1)
    else if i.castSource.bits < i.type.bits then (1, i.type.bits / i.castSource.bits)
    else (1, 1)
  else (1, 1)

def packInputRegisters : Nat := (i.packedBits + i.wordBits - 1) / i.wordBits

/-- The registers that a load writes or a store reads. -/
def transferRegisters : Nat := if i.type.bits ≤ 64 then 1 else i.type.bits / 64

def transferBytes : Nat := i.type.bits / 8

/-- A bundle with one of these has eight slots. -/
def needsFullBundle : Bool :=
  i.klass == .CONTROL || i.klass == .MEMORY || i.opcode == .DIV || i.opcode == .FSQRT

def isControl : Bool := i.klass == .CONTROL

/-- The encodings that the engine executes. -/
def checkValidity : Bool :=
  match i.opcode with
  | .NOP | .NULL_OP | .HALT | .RETURN | .CALL | .SET => true
  | .BRANCH | .CMOV => i.type.valid && !i.type.isVector && decide (i.type.bits ≤ 64)
  | .PACK =>
    decide (i.wordBits ≤ 64) && decide (i.wordBits ≤ i.packedBits) && decide (i.packedBits ≤ 256) &&
      decide (i.packInputRegisters ≤ 32)
  | .SLICE => decide (i.sliceLow ≤ i.sliceHigh)
  | .LOAD | .STORE =>
    i.type.valid && decide (i.type.bits ≥ 8) && decide (i.rd.toNat + i.transferRegisters ≤ 32)
  | .CAST =>
    if !i.type.valid || !i.castSource.valid || decide (i.type.bits > 64) ||
        decide (i.castSource.bits > 64) then false
    else decide (i.castRegisterCounts.1 ≤ 2) && decide (i.castRegisterCounts.2 ≤ 2)
  | .DOT => i.type.valid && decide (i.type.bits ≤ 64)
  | .VREDUCE =>
    if !i.type.valid || decide (i.type.bits > 64) then false
    else if i.type.isFloat then i.subOpcode == .ADD || i.subOpcode == .MUL
    else
      i.subOpcode == .ADD || i.subOpcode == .MUL || i.subOpcode == .OR || i.subOpcode == .AND ||
        i.subOpcode == .XOR || i.subOpcode == .XNOR
  | .FSQRT =>
    i.type.valid && i.type.isFloat && !i.type.isVector && (i.type.bits == 32 || i.type.bits == 64)
  | _ =>
    if !i.opcode.isAlu || !i.type.valid then false
    else if i.isVector then i.opcode == .ADD || i.opcode == .SUB || i.opcode == .MUL
    else if i.type.isFloat then
      i.opcode == .ADD || i.opcode == .SUB || i.opcode == .MUL || i.opcode == .DIV
    else true

variable (w : BitVec 32)

/-- The fields of a word, before it is known to be valid. -/
def decodeFields : Instruction :=
  let i : Instruction :=
    { word := w, bundleStart := w.getLsbD 31, opcode := .fromCode (w.extractLsb 30 26),
      valid := true, rd := w.extractLsb 20 16, rs1 := w.extractLsb 15 11,
      rs2 := w.extractLsb 4 0 }
  match i.opcode with
  | .NOP | .NULL_OP => i
  | .HALT => { i with klass := .HALT }
  | .CALL =>
    { i with klass := .CONTROL, immediate := w.getLsbD 25, jump := (w.extractLsb 24 0).toInt }
  | .RETURN => { i with klass := .CONTROL }
  | .BRANCH =>
    let type := DataType.fromCode ((w.extractLsb 25 22).setWidth 5)
    { i with
      klass := .CONTROL, type := type, condition := .fromCode (w.extractLsb 21 19),
      increment := if type.isFloat || type.isVector then 0 else (w.extractLsb 18 17).toInt,
      jump := (w.extractLsb 16 5).toInt }
  | .FSQRT =>
    let type := DataType.fromCode (w.extractLsb 25 21)
    { i with klass := .DIVIDE, type := type, destType := type }
  | .DOT =>
    let type := DataType.fromCode (w.extractLsb 25 21)
    { i with
      klass := .DOT, type := type, flag := w.getLsbD 10,
      destType := inferDestination i.opcode type }
  | .VREDUCE =>
    let type := DataType.fromCode (w.extractLsb 25 21)
    { i with
      klass := .VECTOR, type := type, subOpcode := .fromCode (w.extractLsb 10 6),
      destType := inferDestination i.opcode type }
  | .CAST =>
    -- whether the destination is a vector comes from the source
    let castSource := DataType.fromCode (w.extractLsb 14 10)
    let type :=
      { DataType.fromCode (w.extractLsb 25 21) with isVector := castSource.isVector }
    { i with klass := .CAST, type := type, castSource := castSource, destType := type }
  | .CMOV =>
    let type := DataType.fromCode (w.extractLsb 25 21)
    { i with
      klass := .ALU, type := type, condition := .fromCode (w.extractLsb 10 8),
      increment := if type.isFloat || type.isVector then 0 else (w.extractLsb 7 6).toInt }
  | .PACK =>
    { i with
      klass := .ALU, packedBits := 2 ^ (w.extractLsb 15 12).toNat,
      wordBits := 2 ^ (w.extractLsb 11 9).toNat }
  | .SET =>
    { i with
      klass := .ALU, setByteIndex := (w.extractLsb 23 21).toNat, setValue := w.extractLsb 15 0 }
  | .SLICE =>
    { i with
      klass := .ALU,
      sliceHigh := (w.extractLsb 25 21).toNat * 2 + (w.getLsbD 15).toNat,
      sliceLow := (w.extractLsb 14 9).toNat }
  | .LOAD | .STORE =>
    { i with
      klass := .MEMORY, type := .fromCode (w.extractLsb 25 21), immediate := w.getLsbD 10,
      increment := (w.extractLsb 9 5).toInt, immValue := (w.extractLsb 9 0).toInt }
  | .UNDEFINED => { i with valid := false }
  | _ =>
    let type := DataType.fromCode (w.extractLsb 25 21)
    let i := { i with
      type := type, isVector := type.isVector, destType := inferDestination i.opcode type,
      klass := if type.isVector then .VECTOR else if i.opcode = Opcode.DIV then .DIVIDE else .ALU }
    if type.isVector then { i with flag := w.getLsbD 10 }
    else { i with immediate := w.getLsbD 10, immValue := (w.extractLsb 9 0).toInt }

theorem opcode_decodeFields (w : BitVec 32) :
    (decodeFields w).opcode = .fromCode (w.extractLsb 30 26) := by
  unfold decodeFields
  generalize Opcode.fromCode (w.extractLsb 30 26) = op
  cases op <;> dsimp only <;> split <;> dsimp only

def decode : Instruction :=
  let i := decodeFields w
  if i.valid then { i with valid := i.checkValidity } else i

end Instruction

end SparcV8.Apara
