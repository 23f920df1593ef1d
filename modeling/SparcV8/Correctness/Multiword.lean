import SparcV8.Core.Word.Limbs
import SparcV8.Processor.Arithmetic

/-!
# Arithmetic on several words

`ADDcc` on the lowest words of two numbers and `ADDXcc` on the others add the numbers, and `SUBcc`
with `SUBXcc` subtract them. The flags of the last instruction are those of the whole addition or
subtraction.
-/

namespace SparcV8

open Opcode SparcCore List Nat

variable {nw : Nat} {σ : Type}

/-! ## Programs on several words -/

/-- The registers of one word: `rd` gets the result of `rs1` and `rs2`. -/
structure LimbRegisters where
  rd : RegNum
  rs1 : RegNum
  rs2 : RegNum

/-- One instruction on the lowest words, another on the words above. -/
def carryProgram (first next : BitVec 6) : List LimbRegisters → List Word
  | [] => []
  | l :: ls =>
    formatThree first l.rd l.rs1 l.rs2 :: ls.map fun l => formatThree next l.rd l.rs1 l.rs2

/-- `ADDcc`, then `ADDXcc`. -/
def addProgram : List LimbRegisters → List Word := carryProgram 0x10 0x18

/-- `SUBcc`, then `SUBXcc`. -/
def subProgram : List LimbRegisters → List Word := carryProgram 0x14 0x1C

/-- Results are in different registers, and none overwrites a word still to be read. -/
structure Separate (ls : List LimbRegisters) : Prop where
  nonzero : ∀ l ∈ ls, l.rd ≠ 0
  pairwise : ls.Pairwise fun l l' => l.rd ≠ l'.rs1 ∧ l.rd ≠ l'.rs2 ∧ l.rd ≠ l'.rd

variable {ls : List LimbRegisters}

theorem Separate.tail {l : LimbRegisters} (h : Separate (l :: ls)) : Separate ls :=
  ⟨fun l' hl' => h.nonzero l' (mem_cons_of_mem l hl'), (pairwise_cons.1 h.pairwise).2⟩

def leftWords (ls : List LimbRegisters) (s : SparcCore nw) : List Word :=
  ls.map fun l => s.reg.rR l.rs1

def rightWords (ls : List LimbRegisters) (s : SparcCore nw) : List Word :=
  ls.map fun l => s.reg.rR l.rs2

def resultWords (ls : List LimbRegisters) (s : SparcCore nw) : List Word :=
  ls.map fun l => s.reg.rR l.rd

/-! ## A chain of instructions -/

variable {fpu : FloatingPointFunctions} {mem : VirtualMemory σ} {c : Bool}
variable {s : SparcCore nw}

section Chain

variable {m : σ}

/-- An instruction on one word: `Q` relates operands, result and both carries. -/
def DoesWord (fpu : FloatingPointFunctions) (mem : VirtualMemory σ) (m : σ) (op3 : BitVec 6)
    (reads : Bool → SparcCore nw → Prop)
    (Q : Word → Word → Word → Bool → Bool → SparcCore nw → Prop) : Prop :=
  ∀ (s : SparcCore nw) (c : Bool) (l : LimbRegisters), s.trap = false → reads c s →
    ∃ s' r b, executeWord fpu mem (formatThree op3 l.rd l.rs1 l.rs2) s m = some (s', m) ∧
      Wrote s s' l.rd r ∧ s'.reg.rC = wordOfBool b ∧ Q (s.reg.rR l.rs1) (s.reg.rR l.rs2) r c b s'

/-- After some instructions `P` relates the words, and no other register changes. -/
structure Chained (P : List Word → List Word → List Word → Bool → SparcCore nw → Prop)
    (ls : List LimbRegisters) (c : Bool) (s s' : SparcCore nw) : Prop where
  words : P (leftWords ls s) (rightWords ls s) (resultWords ls s') c s'
  others : ∀ k, (∀ l ∈ ls, k ≠ l.rd) → s'.reg.rR k = s.reg.rR k

variable {Q : Word → Word → Word → Bool → Bool → SparcCore nw → Prop}
  {P : List Word → List Word → List Word → Bool → SparcCore nw → Prop} {op3 next : BitVec 6}
  {reads : Bool → SparcCore nw → Prop} (hnw : 2 ≤ nw)
  (hsingle : ∀ {x y r c b s}, Q x y r c b s → P [x] [y] [r] c s)
  (hcons : ∀ {x y r c b s s' xs ys rs}, Q x y r c b s → P xs ys rs b s' → xs ≠ [] →
    xs.length = ys.length → P (x :: xs) (y :: ys) (r :: rs) c s')

include hnw hsingle hcons

/-- One instruction, and the instructions on the words above. -/
theorem exists_chained_cons (hstep : DoesWord fpu mem m op3 reads Q) {l : LimbRegisters}
    (hls : Separate (l :: ls))
    (hrest : ls ≠ [] → ∀ (s : SparcCore nw) (b : Bool), s.trap = false → s.reg.rC = wordOfBool b →
      ∃ s', executeWords fpu mem (ls.map fun l => formatThree next l.rd l.rs1 l.rs2) s m = some
      (s', m) ∧ Chained P ls b s s') (ht : s.trap = false) (hc : reads c s) :
    ∃ s', executeWords fpu mem (formatThree op3 l.rd l.rs1 l.rs2 ::
        ls.map fun l => formatThree next l.rd l.rs1 l.rs2) s m = some (s', m) ∧
      Chained P (l :: ls) c s s' := by
  obtain ⟨s₁, r, b, hword, hwrote, hcarry, hq⟩ := hstep s c l ht hc
  have hr : s₁.reg.rR l.rd = r := hwrote.result (hls.nonzero l mem_cons_self)
  obtain ⟨hl, -⟩ := pairwise_cons.1 hls.pairwise
  by_cases hempty : ls = []
  · subst hempty
    refine ⟨s₁, (executeWords_cons _ hword).trans rfl, ?_, fun k hk => ?_⟩
    · change P [s.reg.rR l.rs1] [s.reg.rR l.rs2] [s₁.reg.rR l.rd] c s₁
      rw [hr]
      exact hsingle hq
    · exact hwrote.others hnw k (hk l mem_cons_self)
  · obtain ⟨s', hrun, hchained⟩ := hrest hempty s₁ b (hwrote.trap.trans ht) hcarry
    refine ⟨s', (executeWords_cons _ hword).trans hrun, ?_, fun k hk => ?_⟩
    · -- the words above are still as at the start, and the result below stays
      have hleft : leftWords ls s₁ = leftWords ls s :=
        map_congr_left fun l' hl' => hwrote.others hnw _ (hl l' hl').1.symm
      have hright : rightWords ls s₁ = rightWords ls s :=
        map_congr_left fun l' hl' => hwrote.others hnw _ (hl l' hl').2.1.symm
      have hkept : s'.reg.rR l.rd = r :=
        (hchained.others l.rd fun l' hl' => (hl l' hl').2.2).trans hr
      have hwords := hchained.words
      rw [hleft, hright] at hwords
      change P (s.reg.rR l.rs1 :: leftWords ls s) (s.reg.rR l.rs2 :: rightWords ls s)
        (s'.reg.rR l.rd :: resultWords ls s') c s'
      rw [hkept]
      refine hcons hq hwords ?_ ?_
      · exact fun h => hempty (map_eq_nil_iff.1 h)
      · rw [leftWords, rightWords, length_map, length_map]
    · rw [hchained.others k fun l' hl' => hk l' (mem_cons_of_mem l hl')]
      exact hwrote.others hnw k (hk l mem_cons_self)

/-- The instructions on the words above the lowest. -/
theorem exists_chained (hstep : DoesWord fpu mem m next (fun c s => s.reg.rC = wordOfBool c) Q)
    (hls : Separate ls) (hne : ls ≠ []) (s : SparcCore nw) (b : Bool) (ht : s.trap = false)
    (hc : s.reg.rC = wordOfBool b) :
    ∃ s', executeWords fpu mem (ls.map fun l => formatThree next l.rd l.rs1 l.rs2) s m =
      some (s', m) ∧ Chained P ls b s s' := by
  induction ls generalizing s b with
  | nil => exact absurd rfl hne
  | cons l ls ih =>
    exact exists_chained_cons hnw hsingle hcons hstep hls
      (fun hne s b ht hc => ih hls.tail hne s b ht hc) ht hc

end Chain

/-! ## Addition -/

variable {b : Bool} {rs xs ys : List Word}

section Add

variable {m : σ}

/-- One word of an addition. -/
structure AddsWord (x y r : Word) (c b : Bool) (s : SparcCore nw) : Prop where
  carry_eq : s.reg.rC = wordOfBool b
  value : x.toNat + y.toNat + c.toNat = r.toNat + 2 ^ 32 * b.toNat
  overflow : ∃ v, s.reg.rV = wordOfBool v ∧ (v = true ↔
    ¬(-2 ^ 31 ≤ x.toInt + y.toInt + c.toNat ∧ x.toInt + y.toInt + c.toNat < 2 ^ 31))

/-- The words of an addition, with the flags of its last instruction. -/
def AddsWords (xs ys rs : List Word) (c : Bool) (s : SparcCore nw) : Prop :=
  ∃ b v, LimbSum xs ys rs c.toNat b v ∧ s.reg.rC = wordOfBool b ∧ s.reg.rV = wordOfBool v

variable {x y r : Word}

theorem AddsWord.single (h : AddsWord x y r c b s) : AddsWords [x] [y] [r] c s := by
  obtain ⟨v, hv, hoverflow⟩ := h.overflow
  refine ⟨b, v, ⟨?_, ?_⟩, h.carry_eq, hv⟩
  · have hvalue := h.value
    simp only [limbValue_cons, limbValue_nil, length_singleton]
    omega
  · rw [hoverflow]
    simp only [limbSigned, length_singleton]
    norm_num

theorem AddsWord.cons {s' : SparcCore nw} (h : AddsWord x y r c b s)
    (hrest : AddsWords xs ys rs b s') (hxs : xs ≠ []) (hlen : xs.length = ys.length) :
    AddsWords (x :: xs) (y :: ys) (r :: rs) c s' := by
  obtain ⟨b', v, hsum, hflags⟩ := hrest
  exact ⟨b', v, hsum.cons (by decide) hxs hlen h.value, hflags⟩

/-- The state that `ADDcc` and `ADDXcc` leave, for the carry they add. -/
def added (c : Bool) (s : SparcCore nw) : SparcCore nw :=
  let r := s.operand1 + s.operand2 + wordOfBool c
  (s.writeRd r).writeIcc (readBits r 31 31) (wordOfBool (r == 0))
    (wordOfBool (addOverflow (signBit s.operand1) (signBit s.operand2) (signBit r)))
    (wordOfBool (addCarry (signBit s.operand1) (signBit s.operand2) (signBit r)))

/-- What a word of `ADDcc` or `ADDXcc` does, for the carry it adds. -/
theorem exists_addsWord (fpu : FloatingPointFunctions) (mem : VirtualMemory σ) (m : σ) {op : Opcode}
    {word : Word} {rd rs1 rs2 : RegNum} (c : Bool) (h : RegisterWord s word op rd rs1 rs2)
    (hinteger : op.isIntegerInstruction = true) (hbranch : op.isBranchInstruction = false)
    (ht : s.trap = false)
    (hadd : executeInstruction fpu op (s.ready word) = some (added c (s.ready word))) :
    ∃ s' r b, executeWord fpu mem word s m = some (s', m) ∧
      Wrote s s' rd r ∧ s'.reg.rC = wordOfBool b ∧
      AddsWord (s.reg.rR rs1) (s.reg.rR rs2) r c b s' := by
  simp only [added, readBits_sign, signBit_eq_msb, h.operand1_eq, h.operand2_eq] at hadd
  obtain ⟨s', hword, hwrote, hflags, -⟩ :=
    exists_executeWord h.decode hinteger hbranch ht hadd m
  rw [h.rd_eq] at hwrote
  obtain ⟨hvalue, hoverflow⟩ := add_flags (s.reg.rR rs1) (s.reg.rR rs2) c rfl
  exact ⟨s', _, _, hword, hwrote, hflags.c_eq, hflags.c_eq, hvalue, _, hflags.v_eq, hoverflow⟩

theorem executeInstruction_ADDcc (fpu : FloatingPointFunctions) (s : SparcCore nw) :
    executeInstruction fpu ADDcc s = some (added false s) := by
  have hzero : ∀ x : Word, x + wordOfBool false = x := fun x => BitVec.add_zero x
  simp only [added, hzero]
  rfl

theorem executeInstruction_ADDXcc (fpu : FloatingPointFunctions) (hc : s.reg.rC = wordOfBool c) :
    executeInstruction fpu ADDXcc s = some (added c s) := by
  rw [added, ← hc]
  rfl

theorem doesWord_ADDcc :
    DoesWord fpu mem m 0x10 (fun c (_ : SparcCore nw) => c = false) AddsWord := by
  rintro s c l ht rfl
  exact exists_addsWord fpu mem m false (registerWord_formatThree s _ _ _ _ rfl (by decide))
    rfl rfl ht
    (executeInstruction_ADDcc fpu _)

theorem doesWord_ADDXcc :
    DoesWord fpu mem m 0x18 (fun c (s : SparcCore nw) => s.reg.rC = wordOfBool c) AddsWord := by
  intro s c l ht hc
  exact exists_addsWord fpu mem m c (registerWord_formatThree s _ _ _ _ rfl (by decide)) rfl rfl ht
    (executeInstruction_ADDXcc fpu ((rC_ready s _).trans hc))

end Add

/-! ## Subtraction -/

section Sub

variable {m : σ}

/-- One word of a subtraction. -/
structure SubtractsWord (x y r : Word) (c b : Bool) (s : SparcCore nw) : Prop where
  borrow_eq : s.reg.rC = wordOfBool b
  value : x.toNat + 2 ^ 32 * b.toNat = y.toNat + c.toNat + r.toNat
  less : ∃ n v, s.reg.rN = wordOfBool n ∧ s.reg.rV = wordOfBool v ∧
    ((n ^^ v) = true ↔ x.toInt < y.toInt + c.toNat)

/-- The words of a subtraction, with the flags of its last instruction. -/
def SubtractsWords (xs ys rs : List Word) (c : Bool) (s : SparcCore nw) : Prop :=
  ∃ b n v, LimbDifference xs ys rs c.toNat b (n ^^ v) ∧ s.reg.rC = wordOfBool b ∧
    s.reg.rN = wordOfBool n ∧ s.reg.rV = wordOfBool v

theorem SubtractsWord.single {x y r : Word} (h : SubtractsWord x y r c b s) :
    SubtractsWords [x] [y] [r] c s := by
  obtain ⟨n, v, hn, hv, hless⟩ := h.less
  refine ⟨b, n, v, ⟨?_, hless⟩, h.borrow_eq, hn, hv⟩
  have hvalue := h.value
  simp only [limbValue_cons, limbValue_nil, length_singleton]
  omega

theorem SubtractsWord.cons {x y r : Word} {s' : SparcCore nw} (h : SubtractsWord x y r c b s)
    (hrest : SubtractsWords xs ys rs b s') (hxs : xs ≠ []) (hlen : xs.length = ys.length) :
    SubtractsWords (x :: xs) (y :: ys) (r :: rs) c s' := by
  obtain ⟨b', n, v, hdiff, hflags⟩ := hrest
  exact ⟨b', n, v, hdiff.cons hxs hlen h.value, hflags⟩

/-- The state that `SUBcc` and `SUBXcc` leave, for the borrow they subtract. -/
def subtracted (c : Bool) (s : SparcCore nw) : SparcCore nw :=
  let r := s.operand1 - s.operand2 - wordOfBool c
  (s.writeRd r).writeIcc (wordOfBool (signBit r)) (wordOfBool (r == 0))
    (wordOfBool (subOverflow (signBit s.operand1) (signBit s.operand2) (signBit r)))
    (wordOfBool (subCarry (signBit s.operand1) (signBit s.operand2) (signBit r)))

/-- What a word of `SUBcc` or `SUBXcc` does, for the borrow it subtracts. -/
theorem exists_subtractsWord (fpu : FloatingPointFunctions) (mem : VirtualMemory σ) (m : σ)
    {op : Opcode} {word : Word} {rd rs1 rs2 : RegNum} (c : Bool)
    (h : RegisterWord s word op rd rs1 rs2) (hinteger : op.isIntegerInstruction = true)
    (hbranch : op.isBranchInstruction = false) (ht : s.trap = false)
    (hsub : executeInstruction fpu op (s.ready word) = some (subtracted c (s.ready word))) :
    ∃ s' r b, executeWord fpu mem word s m = some (s', m) ∧
      Wrote s s' rd r ∧ s'.reg.rC = wordOfBool b ∧
      SubtractsWord (s.reg.rR rs1) (s.reg.rR rs2) r c b s' := by
  simp only [subtracted, signBit_eq_msb, h.operand1_eq, h.operand2_eq] at hsub
  obtain ⟨s', hword, hwrote, hflags, -⟩ :=
    exists_executeWord h.decode hinteger hbranch ht hsub m
  rw [h.rd_eq] at hwrote
  obtain ⟨hvalue, hless, -⟩ := sub_flags (s.reg.rR rs1) (s.reg.rR rs2) c rfl
  exact ⟨s', _, _, hword, hwrote, hflags.c_eq, hflags.c_eq, hvalue, _, _, hflags.n_eq,
    hflags.v_eq, hless⟩

theorem executeInstruction_SUBcc (fpu : FloatingPointFunctions) (s : SparcCore nw) :
    executeInstruction fpu SUBcc s = some (subtracted false s) := by
  have hzero : ∀ x : Word, x - wordOfBool false = x := fun x => BitVec.sub_zero x
  simp only [subtracted, hzero]
  rfl

theorem executeInstruction_SUBXcc (fpu : FloatingPointFunctions) (hc : s.reg.rC = wordOfBool c) :
    executeInstruction fpu SUBXcc s = some (subtracted c s) := by
  rw [subtracted, ← hc]
  rfl

theorem doesWord_SUBcc :
    DoesWord fpu mem m 0x14 (fun c (_ : SparcCore nw) => c = false) SubtractsWord := by
  rintro s c l ht rfl
  exact exists_subtractsWord fpu mem m false
    (registerWord_formatThree s _ _ _ _ rfl (by decide)) rfl
    rfl ht (executeInstruction_SUBcc fpu _)

theorem doesWord_SUBXcc :
    DoesWord fpu mem m 0x1C (fun c (s : SparcCore nw) => s.reg.rC = wordOfBool c)
      SubtractsWord := by
  intro s c l ht hc
  exact exists_subtractsWord fpu mem m c
    (registerWord_formatThree s _ _ _ _ rfl (by decide)) rfl rfl
    ht (executeInstruction_SUBXcc fpu ((rC_ready s _).trans hc))

end Sub

/-! ## Whole numbers -/

section Whole

variable {n : Nat} {v : Bool}

/-- An addition without carry in, as an addition of wide words. -/
theorem wide_of_limbSum (h : LimbSum xs ys rs 0 b v) (hx : xs.length = n) (hy : ys.length = n)
    (hr : rs.length = n) (hn : 0 < n) :
    wide n rs = wide n xs + wide n ys ∧ b = BitVec.uaddOverflow (wide n xs) (wide n ys) ∧
      v = BitVec.saddOverflow (wide n xs) (wide n ys) := by
  have hvalue := h.value
  have hoverflow := h.overflow_iff
  rw [hx, add_zero] at hvalue
  rw [hx, Int.natCast_zero, Int.add_zero, ← toInt_wide (by decide) hx hn,
    ← toInt_wide (by decide) hy hn] at hoverflow
  have hlt := limbValue_lt (by decide) rs
  rw [hr] at hlt
  refine ⟨BitVec.eq_of_toNat_eq ?_, ?_, ?_⟩
  · rw [BitVec.toNat_add, toNat_wide (by decide) hr, toNat_wide (by decide) hx,
      toNat_wide (by decide) hy, hvalue, add_mul_mod_self_left, mod_eq_of_lt hlt]
  · rw [BitVec.uaddOverflow, toNat_wide (by decide) hx, toNat_wide (by decide) hy, hvalue]
    cases b with
    | false => simpa using hlt
    | true => simp
  · rw [Bool.eq_iff_iff, hoverflow, BitVec.saddOverflow]
    simp only [Bool.or_eq_true, decide_eq_true_eq]
    push_cast
    omega

/-- A subtraction without borrow in, as a subtraction of wide words. -/
theorem wide_of_limbDifference (h : LimbDifference xs ys rs 0 b v) (hx : xs.length = n)
    (hy : ys.length = n) (hr : rs.length = n) (hn : 0 < n) :
    wide n rs = wide n xs - wide n ys ∧ b = (wide n xs).ult (wide n ys) ∧
      v = (wide n xs).slt (wide n ys) := by
  have hvalue := h.value
  have hless := h.less_iff
  rw [hx, add_zero] at hvalue
  rw [Int.natCast_zero, Int.add_zero, ← toInt_wide (by decide) hx hn,
    ← toInt_wide (by decide) hy hn] at hless
  have hlt := limbValue_lt (by decide) rs
  have hylt := limbValue_lt (by decide) ys
  rw [hr] at hlt
  rw [hy] at hylt
  refine ⟨BitVec.eq_of_toNat_eq ?_, ?_, ?_⟩
  · rw [BitVec.toNat_sub, toNat_wide (by decide) hr, toNat_wide (by decide) hx,
      toNat_wide (by decide) hy]
    cases b with
    | false =>
      rw [Bool.toNat_false, mul_zero, add_zero] at hvalue
      rw [hvalue, show 2 ^ (32 * n) - limbValue ys + (limbValue ys + limbValue rs) =
        limbValue rs + 2 ^ (32 * n) by omega, add_mod_right, mod_eq_of_lt hlt]
    | true =>
      rw [Bool.toNat_true, mul_one] at hvalue
      rw [show 2 ^ (32 * n) - limbValue ys + limbValue xs = limbValue rs by omega, mod_eq_of_lt hlt]
  · rw [BitVec.ult, toNat_wide (by decide) hx, toNat_wide (by decide) hy]
    cases b with
    | false =>
      rw [Bool.toNat_false, mul_zero, add_zero] at hvalue
      exact (decide_eq_false (by omega)).symm
    | true =>
      rw [Bool.toNat_true, mul_one] at hvalue
      exact (decide_eq_true (by omega)).symm
  · rw [Bool.eq_iff_iff, hless, BitVec.slt, decide_eq_true_eq]

end Whole

/-- The two programs leave the sum and the difference of the numbers in the registers, with the
carry and overflow, and the borrow and the signed comparison, of the numbers in the flags. -/
theorem multiword_arithmetic (fpu : FloatingPointFunctions) (mem : VirtualMemory σ) (m : σ)
    (hnw : 2 ≤ nw) {n : Nat} (hn : 1 ≤ n) {ls : List LimbRegisters} (hlen : ls.length = n)
    (hls : Separate ls) (s : SparcCore nw) (ht : s.trap = false) :
    (∃ s', executeWords fpu mem (addProgram ls) s m = some (s', m) ∧
      wide n (resultWords ls s') = wide n (leftWords ls s) + wide n (rightWords ls s) ∧
      s'.reg.rC = wordOfBool (BitVec.uaddOverflow (wide n (leftWords ls s))
        (wide n (rightWords ls s))) ∧
      s'.reg.rV = wordOfBool (BitVec.saddOverflow (wide n (leftWords ls s))
        (wide n (rightWords ls s)))) ∧
    ∃ s', executeWords fpu mem (subProgram ls) s m = some (s', m) ∧
      wide n (resultWords ls s') = wide n (leftWords ls s) - wide n (rightWords ls s) ∧
      s'.reg.rC = wordOfBool ((wide n (leftWords ls s)).ult (wide n (rightWords ls s))) ∧
      s'.reg.rN ^^^ s'.reg.rV =
        wordOfBool ((wide n (leftWords ls s)).slt (wide n (rightWords ls s))) := by
  have hx : (leftWords ls s).length = n := (length_map _).trans hlen
  have hy : (rightWords ls s).length = n := (length_map _).trans hlen
  have hr : ∀ s' : SparcCore nw, (resultWords ls s').length = n :=
    fun s' => (length_map _).trans hlen
  obtain _ | ⟨l, ls⟩ := ls
  · exact absurd hlen (by simp; omega)
  constructor
  · obtain ⟨s', hrun, ⟨b, v, hsum, hcarry, hoverflow⟩, -⟩ :=
      exists_chained_cons hnw AddsWord.single AddsWord.cons doesWord_ADDcc hls
        (exists_chained hnw AddsWord.single AddsWord.cons doesWord_ADDXcc hls.tail) ht rfl
    obtain ⟨hwide, rfl, rfl⟩ := wide_of_limbSum hsum hx hy (hr s') hn
    exact ⟨s', hrun, hwide, hcarry, hoverflow⟩
  · obtain ⟨s', hrun, ⟨b, n', v, hdiff, hborrow, hneg, hoverflow⟩, -⟩ :=
      exists_chained_cons hnw SubtractsWord.single SubtractsWord.cons doesWord_SUBcc hls
        (exists_chained hnw SubtractsWord.single SubtractsWord.cons doesWord_SUBXcc hls.tail) ht rfl
    obtain ⟨hwide, rfl, hless⟩ := wide_of_limbDifference hdiff hx hy (hr s') hn
    refine ⟨s', hrun, hwide, hborrow, ?_⟩
    rw [hneg, hoverflow, ← hless]
    cases n' <;> cases v <;> rfl

/-- A core with two numbers of two words, `0xFFFFFFFF` and 1 in the low ones. -/
def twoWordCore : SparcCore 8 :=
  let s : SparcCore 8 := SparcCore.initial 0 0 0 0 false
  { s with reg := (s.reg.wR 10 0xFFFFFFFF).wR 12 1 }

theorem multiword_arithmetic_two_words :
    let ls : List LimbRegisters := [⟨8, 10, 12⟩, ⟨9, 11, 13⟩]
    twoWordCore.trap = false ∧
      (∃ s', executeWords default MemCore.virtualMemory (addProgram ls) twoWordCore zeroMemory =
          some (s', zeroMemory) ∧
        wide 2 (resultWords ls s') =
          wide 2 (leftWords ls twoWordCore) + wide 2 (rightWords ls twoWordCore)) ∧
      ∃ s', executeWords default MemCore.virtualMemory (subProgram ls) twoWordCore zeroMemory =
          some (s', zeroMemory) ∧
        wide 2 (resultWords ls s') =
          wide 2 (leftWords ls twoWordCore) - wide 2 (rightWords ls twoWordCore) := by
  intro ls
  obtain ⟨⟨s₁, hadd, hsum, -⟩, s₂, hsub, hdiff, -⟩ :=
    multiword_arithmetic default MemCore.virtualMemory zeroMemory (by decide) (show 1 ≤ 2 by decide)
      (show ls.length = 2 from rfl) ⟨by decide, by decide⟩ twoWordCore rfl
  exact ⟨rfl, ⟨s₁, hadd, hsum⟩, s₂, hsub, hdiff⟩

end SparcV8
