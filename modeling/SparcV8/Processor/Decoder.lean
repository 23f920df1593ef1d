import SparcV8.Processor.Opcodes
import SparcV8.Processor.Registers

/-!
# The instruction decoder

The tables of Appendix F as the source's switches list them. A switch with consecutive cases is a
list indexed by the field; falling off its end is the source's `assert(0)`, modelled as `none`.
-/

namespace SparcV8

open Opcode

/-- Table F-4, indexed by `op3`. -/
def loadStoreOpcodes : List Opcode :=
  [LD, LDUB, LDUH, LDD, .ST, STB, STH, STD,
   unassigned, LDSB, LDSH, unassigned, unassigned, LDSTUB, unassigned, SWAP,
   LDA, LDUBA, LDUHA, LDDA, STA, STBA, STHA, STDA,
   unassigned, LDSBA, LDSHA, unassigned, unassigned, LDSTUBA, unassigned, SWAPA,
   LDF, LDFSR, unassigned, LDDF, STF, STFSR, STDFQ, STDF,
   unassigned, unassigned, unassigned, unassigned, unassigned, unassigned, unassigned, unassigned,
   LDC, LDCSR, unassigned, LDDC, STC, STCSR, STDCQ, STDC,
   unassigned, unassigned, unassigned, unassigned, unassigned, unassigned, unassigned, unassigned]

/-- Table F-3, indexed by `op3`. The entries 0x28, 0x30, 0x34, 0x35 and 0x3A are decided in
`decodeArith`. -/
def arithOpcodes : List Opcode :=
  [ADD, AND, OR, XOR, SUB, ANDN, ORN, XNOR,
   ADDX, unassigned, UMUL, SMUL, SUBX, unassigned, UDIV, SDIV,
   ADDcc, ANDcc, ORcc, XORcc, SUBcc, ANDNcc, ORNcc, XNORcc,
   ADDXcc, unassigned, UMULcc, SMULcc, SUBXcc, unassigned, UDIVcc, SDIVcc,
   TADDcc, TSUBcc, TADDccTV, TSUBccTV, MULScc, SLL, SRL, SRA,
   unassigned, RDPSR, RDWIM, RDTBR, unassigned, unassigned, unassigned, unassigned,
   unassigned, WRPSR, WRWIM, WRTBR, unassigned, unassigned, CPop1, CPop2,
   JMPL, RETT, unassigned, FLUSH, SAVE, RESTORE, unassigned, unassigned]

/-- Table F-7, indexed by `cond`. -/
def biccOpcodes : List Opcode :=
  [BN, BE, BLE, BL, BLEU, BCS, BNEG, BVS, BA, BNE, BG, BGE, BGU, BCC, BPOS, BVC]

def fbfccOpcodes : List Opcode :=
  [FBN, FBNE, FBLG, FBUL, FBL, FBUG, FBG, FBU, FBA, FBE, FBUE, FBGE, FBUGE, FBLE, FBULE, FBO]

def ticcOpcodes : List Opcode :=
  [TN, TE, TLE, TL, TLEU, TCS, TNEG, TVS, TA, TNE, TG, TGE, TGU, TCC, TPOS, TVC]

/-- Table F-5: the `opf` values of the FPop1 operations. -/
def fpop1Opcodes : List (Nat × Opcode) :=
  [(0x01, FMOVs), (0x05, FNEGs), (0x09, FABSs), (0x29, FSQRTs), (0x2A, FSQRTd), (0x2B, FSQRTq),
   (0x41, FADDs), (0x42, FADDd), (0x43, FADDq), (0x45, FSUBs), (0x46, FSUBd), (0x47, FSUBq),
   (0x49, FMULs), (0x4A, FMULd), (0x4B, FMULq), (0x4D, FDIVs), (0x4E, FDIVd), (0x4F, FDIVq),
   (0x69, FsMULd), (0x6E, FdMULq), (0xC4, FiTOs), (0xC6, FdTOs), (0xC7, FqTOs), (0xC8, FiTOd),
   (0xC9, FsTOd), (0xCB, FqTOd), (0xCC, FiTOq), (0xCD, FsTOq), (0xCE, FdTOq), (0xD1, FsTOi),
   (0xD2, FdTOi), (0xD3, FqTOi)]

/-- Table F-6: the `opf` values of the FPop2 operations. -/
def fpop2Opcodes : List (Nat × Opcode) :=
  [(0x51, FCMPs), (0x52, FCMPd), (0x53, FCMPq), (0x55, FCMPEs), (0x56, FCMPEd), (0x57, FCMPEq)]

namespace Registers

variable {nw : Nat}
variable (reg : Registers nw)

def decodeLoadStore : Option Opcode := loadStoreOpcodes[reg.rOp3.toNat]?

def decodeBicc : Option Opcode := biccOpcodes[reg.rCond.toNat]?

def decodeFBfcc : Option Opcode := fbfccOpcodes[reg.rCond.toNat]?

def decodeTicc : Option Opcode := ticcOpcodes[reg.rCond.toNat]?

def decodeFPop1 : Opcode :=
  (fpop1Opcodes.lookup reg.rOpf.toNat).getD unimplemented

def decodeFPop2 : Opcode :=
  (fpop2Opcodes.lookup reg.rOpf.toNat).getD unimplemented

def decodeArith : Option Opcode :=
  match reg.rOp3.toNat with
  | 0x28 =>
    if reg.rRs1 = 15 ∧ reg.rRd = 0 then some STBAR
    else if reg.rRs1 = 0 then some RDY
    else some RDASR
  | 0x30 => if reg.rRd = 0 then some WRY else some WRASR
  | 0x34 => some reg.decodeFPop1
  | 0x35 => some reg.decodeFPop2
  | 0x3A => reg.decodeTicc
  | op3 => arithOpcodes[op3]?

/-- Table F-2: the formats with `op` 0. -/
def decodeFormat2 : Option Opcode :=
  match reg.rOp2.toNat with
  | 0 => some UNIMP
  | 1 => some unimplemented
  | 2 => reg.decodeBicc
  | 3 => some unimplemented
  | 4 => if reg.rRd = 0 ∧ reg.rImm22 = 0 then some NOP else some SETHI
  | 5 => some unimplemented
  | 6 => reg.decodeFBfcc
  | 7 => some CBccc
  | _ => none

/-- Table F-1. `none` is an assertion failure of the source. -/
def decode : Option Opcode :=
  match reg.rOp.toNat with
  | 0 => reg.decodeFormat2
  | 1 => some CALL
  | 2 => reg.decodeArith
  | 3 => reg.decodeLoadStore
  | _ => none

end Registers

end SparcV8
