import Mathlib.Tactic.Common

/-!
# Instruction opcodes

Every SPARC V8 opcode in the order of the source enumeration. Instruction groups are recognised by
comparing positions, so the group predicates compare constructor indices as the source does.
-/

namespace SparcV8

/-- The source enumeration, in its own order. -/
inductive Opcode where
  | LDSB | LDSH | LDUB | LDUH | LD | LDD | LDSBA | LDSHA | LDUBA | LDUHA | LDA | LDDA | LDF
  | LDDF | LDFSR | LDC | LDDC | LDCSR | STB | STH | ST | STD | STBA | STHA | STA | STDA
  | STF | STDF | STFSR | STDFQ | STC | STDC | STCSR | STDCQ | LDSTUB | LDSTUBA | SWAP
  | SWAPA | SETHI | NOP | AND | ANDcc | ANDN | ANDNcc | OR | ORcc | ORN | ORNcc | XOR
  | XORcc | XNOR | XNORcc | SLL | SRL | SRA | ADD | ADDcc | ADDX | ADDXcc | TADDcc
  | TADDccTV | SUB | SUBcc | SUBX | SUBXcc | TSUBcc | TSUBccTV | MULScc | UMUL | SMUL
  | UMULcc | SMULcc | UDIV | SDIV | UDIVcc | SDIVcc | SAVE | RESTORE | BA | BN | BNE | BE
  | BG | BLE | BGE | BL | BGU | BLEU | BCC | BCS | BPOS | BNEG | BVC | BVS | FBA | FBN
  | FBU | FBG | FBUG | FBL | FBUL | FBLG | FBNE | FBE | FBUE | FBGE | FBUGE | FBLE | FBULE
  | FBO | CBccc | CBA | CBN | CB3 | CB2 | CB23 | CB1 | CB13 | CB12 | CB123 | CB0 | CB03
  | CB02 | CB023 | CB01 | CB013 | CB012 | CALL | JMPL | RETT | TA | TN | TNE | TE | TG
  | TLE | TGE | TL | TGU | TLEU | TCC | TCS | TPOS | TNEG | TVC | TVS | RDY | RDASR | RDPSR
  | RDWIM | RDTBR | WRY | WRASR | WRPSR | WRWIM | WRTBR | STBAR | UNIMP | FLUSH | FiTOs
  | FiTOd | FiTOq | FsTOi | FdTOi | FqTOi | FsTOd | FsTOq | FdTOs | FdTOq | FqTOs | FqTOd
  | FMOVs | FNEGs | FABSs | FSQRTs | FSQRTd | FSQRTq | FADDs | FADDd | FADDq | FSUBs
  | FSUBd | FSUBq | FMULs | FMULd | FMULq | FsMULd | FdMULq | FDIVs | FDIVd | FDIVq | FCMPs
  | FCMPd | FCMPq | FCMPEs | FCMPEd | FCMPEq | CPop1 | CPop2 | unimplemented | unassigned
  deriving DecidableEq, Repr

namespace Opcode

/-- `lo ≤ op ≤ hi` in the order of the enumeration. -/
def between (lo op hi : Opcode) : Bool :=
  decide (lo.ctorIdx ≤ op.ctorIdx) && decide (op.ctorIdx ≤ hi.ctorIdx)

variable (op : Opcode)

def isFBfccInstruction : Bool := between FBA op FBO

def isMemoryInstruction : Bool :=
  between LDSB op SWAPA || op == FLUSH || op == STBAR

def isBranchInstruction : Bool :=
  op == CALL || op == RETT || op == JMPL || between BA op BVS || isFBfccInstruction op ||
    op == CBccc || between TA op TVS

def isLoadInstruction : Bool := between LDSB op LDCSR

def isDoubleLoadInstruction : Bool :=
  op == LDD || op == LDDA || op == LDDF || op == LDDC

def isStoreInstruction : Bool := between STB op STDCQ

/-- `STDC` is absent from the source's list. -/
def isDoubleStoreInstruction : Bool :=
  op == STD || op == STDA || op == STDF || op == STDFQ || op == STDCQ

def isLoadStoreAtomicInstruction : Bool := between LDSTUB op SWAPA

def isFpop1Instruction : Bool := between FiTOs op FDIVq

def isFpop2Instruction : Bool := between FCMPs op FCMPEq

def isFloatingPointInstruction : Bool :=
  between FBA op FBO || between FiTOs op FCMPEq

end Opcode

end SparcV8
