import SparcV8.Apara.Effects

/-!
# Exceptions of bundles

A bundle of which any slot raises an exception changes nothing but the flag and the `ERROR` register
of its thread. Any other bundle takes effect as a whole.
-/

namespace SparcV8.Apara

open AparaCore List Function SlotWork ExceptionCode Apara.Bundle

variable (unit : DoubleUnit)

namespace Bundle

variable (ts : ThreadState) (b : Bundle)

/-- The bundle is none, or a slot raises an exception or a return address error. -/
def Raises : Prop :=
  b.valid = false ∨
    ∃ w ∈ executeSlots unit ts b, w.exception ≠ .NONE ∨ w.rasError = true

instance : Decidable (b.Raises unit ts) := inferInstanceAs (Decidable (_ ∨ ∃ _ ∈ _, _))

/-- The exception of a slot. Where there is no bundle it is that of slot 0. -/
def slotException (s : Nat) : ExceptionCode :=
  if b.valid then (((executeSlots unit ts b)[s]?).map exception).getD .NONE
  else if s = 0 then .ILLEGAL
  else .NONE

/-- The return addresses are full, or there is none. -/
def rasFails : Bool := b.valid && (executeSlots unit ts b).any rasError

/-- The bits of `ERROR` for a bundle that is not executed. -/
structure ErrorBits (bits : BitVec 32) : Prop where
  codes : ∀ s < 8, bits.extractLsb' (3 * s) 3 = (b.slotException unit ts s).toCode
  exception : bits.getLsbD 24 = true ↔ ∃ s, b.slotException unit ts s ≠ .NONE
  ras : bits.getLsbD 26 = b.rasFails unit ts
  others : bits.getLsbD 25 = false ∧ ∀ j ≥ 27, bits.getLsbD j = false

end Bundle

/-! ## The codes of the slots -/

theorem toCode_eq_zero {e : ExceptionCode} : e.toCode = 0 ↔ e = .NONE := by
  cases e <;> decide

/-- Every slot has its own three bits. -/
theorem getLsbD_exceptionCodes (s : Nat) (work : List SlotWork) {j : Nat} (hj : j < 32) :
    (exceptionCodes s work).getLsbD j = (decide (s ≤ j / 3) &&
      ((work[j / 3 - s]?.map exception).getD .NONE).toCode.getLsbD (j % 3)) := by
  induction work generalizing s with
  | nil =>
    have hzero : ∀ i, NONE.toCode.getLsbD i = false := fun _ => BitVec.getLsbD_zero
    simp [exceptionCodes, hzero]
  | cons w work ih =>
    rw [exceptionCodes, BitVec.getLsbD_or, ih, BitVec.getLsbD_shiftLeft, BitVec.getLsbD_setWidth]
    rcases Nat.lt_trichotomy s (j / 3) with hlt | heq | hgt
    · -- the bits of a later slot
      have hindex : j / 3 - s = j / 3 - (s + 1) + 1 := by omega
      have hbeyond : w.exception.toCode.getLsbD (j - 3 * s) = false :=
        BitVec.getLsbD_of_ge _ _ (by omega)
      rw [hindex, getElem?_cons_succ, hbeyond, decide_eq_true (show s ≤ j / 3 by omega),
        decide_eq_true (show s + 1 ≤ j / 3 by omega), Bool.and_false, Bool.and_false, Bool.false_or]
    · have hin : j - 3 * s = j % 3 := by omega
      have hbelow : ¬ j < 3 * s := by omega
      have hbound : j % 3 < 32 := by omega
      simp [← heq, hin, hbelow, hj, hbound]
    · have hbelow : j < 3 * s := by omega
      rw [decide_eq_true hbelow, decide_eq_false (show ¬ s ≤ j / 3 by omega),
        decide_eq_false (show ¬ s + 1 ≤ j / 3 by omega)]
      simp

theorem exceptionCodes_eq_zero {work : List SlotWork} (hlength : work.length ≤ 8) :
    exceptionCodes 0 work = 0 ↔ ∀ w ∈ work, w.exception = .NONE := by
  constructor
  · intro hzero w hw
    obtain ⟨s, hs, rfl⟩ := getElem_of_mem hw
    apply toCode_eq_zero.1
    apply BitVec.eq_of_getLsbD_eq
    intro i hi
    have hbit := getLsbD_exceptionCodes 0 work (show 3 * s + i < 32 by omega)
    have hslot : (3 * s + i) / 3 = s := by omega
    have hplace : (3 * s + i) % 3 = i := by omega
    rw [hzero, hslot, hplace, Nat.sub_zero, getElem?_eq_getElem hs] at hbit
    simpa using hbit.symm
  · intro hnone
    apply BitVec.eq_of_getLsbD_eq
    intro j hj
    rw [getLsbD_exceptionCodes 0 work hj]
    have hcode : ((work[j / 3 - 0]?.map exception).getD .NONE) = .NONE := by
      cases hslot : work[j / 3 - 0]? with
      | none => rfl
      | some w => exact hnone w (mem_of_getElem? hslot)
    rw [hcode, show NONE.toCode = 0#3 from rfl, BitVec.getLsbD_zero, Bool.and_false]
    exact BitVec.getLsbD_zero.symm

/-! ## Bundles -/

/-- No bundle has more than eight slots. -/
theorem size_makeBundle_le (pc : BitVec 32) (words : List (BitVec 32)) :
    (makeBundle pc words).slots.length ≤ 8 := by
  have htake : (words.take BUNDLE_MAX_SLOTS).length ≤ 8 := length_take_le _ _
  unfold makeBundle
  split
  · exact Nat.zero_le 8
  · next w rest heq =>
    rw [heq] at htake
    split
    · exact Nat.zero_le 8
    · simpa only [length_map] using htake

theorem size_fetchBundle_le (c : AparaCore) (pc : BitVec 32) :
    (c.fetchBundle pc).slots.length ≤ 8 := by
  unfold fetchBundle
  split
  · exact Nat.zero_le 8
  · exact size_makeBundle_le _ _

theorem length_executeSlots (ts : ThreadState) (b : Bundle) :
    (executeSlots unit ts b).length = b.slots.length :=
  length_mapIdx

section Raises

variable {unit} {ts : ThreadState} {b : Bundle}

theorem raises_iff (hvalid : b.valid = true) (hsize : b.slots.length ≤ 8) :
    b.Raises unit ts ↔ exceptionCodes 0 (executeSlots unit ts b) ≠ 0 ∨
      (executeSlots unit ts b).any rasError = true := by
  have hlength : (executeSlots unit ts b).length ≤ 8 := by
    rw [length_executeSlots]
    exact hsize
  rw [Raises, hvalid, Ne, exceptionCodes_eq_zero hlength, any_eq_true]
  constructor
  · rintro (hno | ⟨w, hw, hexception | hras⟩)
    · cases hno
    · exact .inl fun hnone => hexception (hnone w hw)
    · exact .inr ⟨w, hw, hras⟩
  · rintro (hsome | ⟨w, hw, hras⟩)
    · push Not at hsome
      obtain ⟨w, hw, hexception⟩ := hsome
      exact .inr ⟨w, hw, .inl hexception⟩
    · exact .inr ⟨w, hw, .inr hras⟩

/-- The bits that an exception sets. -/
theorem errorBits_codes (hvalid : b.valid = true) (hsize : b.slots.length ≤ 8) :
    b.ErrorBits unit ts (exceptionCodes 0 (executeSlots unit ts b) |||
      (if exceptionCodes 0 (executeSlots unit ts b) ≠ 0 then ERROR_EXCEPTION else 0) |||
      (if (executeSlots unit ts b).any rasError then ERROR_RAS else 0)) := by
  have hlength : (executeSlots unit ts b).length ≤ 8 := by
    rw [length_executeSlots]
    exact hsize
  have hexc (x : Prop) [Decidable x] : ∀ j < 32,
      (if x then ERROR_EXCEPTION else 0 : BitVec 32).getLsbD j = (decide (j = 24) && decide x) := by
    by_cases hx : x
    · simp only [hx, if_true, decide_true, Bool.and_true]
      decide
    · simp [hx]
  have hras (x : Bool) : ∀ j < 32,
      (if x then ERROR_RAS else 0 : BitVec 32).getLsbD j = (decide (j = 26) && x) := by
    cases x
    · simp
    · decide
  have hbeyond (j : Nat) (hj : 24 ≤ j) (hj' : j < 32) :
      (exceptionCodes 0 (executeSlots unit ts b)).getLsbD j = false := by
    rw [getLsbD_exceptionCodes 0 _ hj', getElem?_eq_none (by omega)]
    exact (congrArg _ BitVec.getLsbD_zero).trans (Bool.and_false _)
  have hslot (s : Nat) : b.slotException unit ts s =
      (((executeSlots unit ts b)[s]?).map exception).getD .NONE := if_pos hvalid
  refine ⟨fun s hs => ?_, ?_, ?_, ?_, fun j hj => ?_⟩
  · apply BitVec.eq_of_getLsbD_eq
    intro i hi
    have hin : 3 * s + i < 32 := by omega
    have hdiv : (3 * s + i) / 3 = s := by omega
    have hmod : (3 * s + i) % 3 = i := by omega
    rw [BitVec.getLsbD_extractLsb', BitVec.getLsbD_or, BitVec.getLsbD_or, hexc _ _ hin,
      hras _ _ hin, getLsbD_exceptionCodes 0 _ hin, hdiv, hmod, hslot,
      decide_eq_true hi, decide_eq_false (show ¬ 3 * s + i = 24 by omega),
      decide_eq_false (show ¬ 3 * s + i = 26 by omega)]
    simp
  · rw [BitVec.getLsbD_or, BitVec.getLsbD_or, hexc _ _ (by decide), hras _ _ (by decide),
      hbeyond 24 (by decide) (by decide)]
    simp only [Ne, exceptionCodes_eq_zero hlength, decide_true, Bool.true_and, Bool.false_or,
      Nat.reduceEqDiff, decide_false, Bool.false_and, Bool.or_false, decide_eq_true_eq, hslot]
    push Not
    constructor
    · rintro ⟨w, hw, hexception⟩
      obtain ⟨s, hs, rfl⟩ := getElem_of_mem hw
      refine ⟨s, ?_⟩
      rw [getElem?_eq_getElem hs]
      exact hexception
    · rintro ⟨s, hexception⟩
      cases hwork : (executeSlots unit ts b)[s]? with
      | none =>
        rw [hwork] at hexception
        exact absurd rfl hexception
      | some w =>
        rw [hwork] at hexception
        exact ⟨w, mem_of_getElem? hwork, hexception⟩
  · rw [BitVec.getLsbD_or, BitVec.getLsbD_or, hexc _ _ (by decide), hras _ _ (by decide),
      hbeyond 26 (by decide) (by decide), rasFails, hvalid]
    simp
  · rw [BitVec.getLsbD_or, BitVec.getLsbD_or, hexc _ _ (by decide), hras _ _ (by decide),
      hbeyond 25 (by decide) (by decide)]
    simp
  · by_cases hin : j < 32
    · rw [BitVec.getLsbD_or, BitVec.getLsbD_or, hexc _ _ hin, hras _ _ hin,
        hbeyond j (by omega) hin, decide_eq_false (show ¬ j = 24 by omega),
        decide_eq_false (show ¬ j = 26 by omega)]
      simp
    · exact BitVec.getLsbD_of_ge _ _ (by omega)

/-- The bits for words that are no bundle. -/
theorem errorBits_invalid (hvalid : b.valid = false) :
    b.ErrorBits unit ts (ILLEGAL.toCode.setWidth 32 |||
      (if ILLEGAL.toCode.setWidth 32 ≠ (0 : BitVec 32) then ERROR_EXCEPTION else 0) |||
      (if false then ERROR_RAS else 0)) := by
  have hslot (s : Nat) : b.slotException unit ts s = if s = 0 then .ILLEGAL else .NONE := by
    rw [slotException, hvalid, if_off]
  refine ⟨fun s hs => ?_, ?_, ?_, by decide, fun j hj => ?_⟩
  · rw [hslot]
    revert s
    decide
  · refine ⟨fun _ => ⟨0, ?_⟩, fun _ => by decide⟩
    rw [hslot, if_pos rfl]
    decide
  · rw [rasFails, hvalid, Bool.false_and]
    decide
  · by_cases hin : j < 32
    · revert j
      decide
    · exact BitVec.getLsbD_of_ge _ _ (by omega)

end Raises

/-! ## A step -/

section Step

variable {σ : Type} (port : Option (OffIslandPort σ)) {unit} {c : AparaCore} {t : ThreadIndex}

/-- What a step changes if the bundle is not executed. -/
theorem step_of_raises (hrun : (c.threads t).runnable = true) (x : σ)
    (hraises : (c.fetchBundle (c.threads t).pc).Raises unit (c.threads t)) :
    ∃ bits, (c.fetchBundle (c.threads t).pc).ErrorBits unit (c.threads t) bits ∧
      (step port unit t (c, x)).2.1.withoutPending t = (c.setThread t
        { c.threads t with halted := true, error := (c.threads t).error ||| bits }).withoutPending
          t ∧
      (step port unit t (c, x)).2.2 = x := by
  have hsize := size_fetchBundle_le c (c.threads t).pc
  unfold step beginStep
  generalize c.fetchBundle (c.threads t).pc = b at hraises hsize ⊢
  cases hvalid : b.valid with
  | false =>
    refine ⟨_, errorBits_invalid hvalid, ?_⟩
    simp only [beginStepWith, hrun, hvalid, Bool.not_true, Bool.not_false, Bool.false_eq_true,
      if_true, if_false, finishWithException, Bool.or_true]
    exact ⟨withoutPending_setPending t (c.setThread t _) _, trivial⟩
  | true =>
    refine ⟨_, errorBits_codes hvalid hsize, ?_⟩
    rw [raises_iff hvalid hsize] at hraises
    simp only [beginStepWith, hrun, hvalid, Bool.not_true, if_off,
      if_pos hraises, finishWithException, Bool.or_true, if_true]
    exact ⟨withoutPending_setPending t (c.setThread t _) _, trivial⟩

variable (p : PendingStep)

theorem transactions_setPending (s : Nat) (work : List SlotWork) :
    (c.setPending t p).transactions s work = c.transactions s work := by
  induction work generalizing s with
  | nil => rfl
  | cons w work ih =>
    rw [transactions, ih]
    rfl

theorem slotEffects_setPending (s : Nat) (work : List SlotWork) (m : DataMemory σ) :
    slotEffects port (c.setPending t p) s work m = slotEffects port c s work m := by
  induction work generalizing s m with
  | nil => rfl
  | cons w work ih =>
    simp only [slotEffects, ih]
    rfl

/-- The accesses and the commit of a bundle do what its slots do in turn. -/
theorem withoutPending_performTransactions (d : AparaCore) (x : σ)
    (htransaction : (d.pending t).transaction = d.transactions 0 (d.pending t).work) :
    let z := performTransactions port t 0 (d.pending t).transaction (d, x)
    let effects := slotEffects port d 0 (d.pending t).work (d.dmem, x)
    (z.1.commitStep t).2.withoutPending t =
        ({ d with dmem := effects.2.1 }.setThread t
          (threadAfter (d.threads t) (d.pending t).bundle (d.pending t).work
            effects.1)).withoutPending t ∧
      z.2 = effects.2.2 := by
  obtain ⟨hwrites, hmemory⟩ := withLoads_transferAll port d 0 (d.pending t).work (d.dmem, x)
  have hperform := performTransactions_eq port t (d.pending t).transaction d x [] rfl
  rw [length_nil, nil_append] at hperform
  dsimp only
  rw [hperform, withoutPending_commitStep]
  dsimp only
  rw [update_self]
  rw [htransaction, hwrites, hmemory]
  simp [withoutPending, setPending, setThread, update_idem]

/-- What a step changes if the bundle is executed. -/
theorem step_of_not_raises (hrun : (c.threads t).runnable = true) (x : σ)
    (hno : ¬ (c.fetchBundle (c.threads t).pc).Raises unit (c.threads t)) :
    let b := c.fetchBundle (c.threads t).pc
    let work := executeSlots unit (c.threads t) b
    let effects := slotEffects port c 0 work (c.dmem, x)
    (step port unit t (c, x)).2.1.withoutPending t =
        ({ c with dmem := effects.2.1 }.setThread t
          (threadAfter (c.threads t) b work effects.1)).withoutPending t ∧
      (step port unit t (c, x)).2.2 = effects.2.2 := by
  have hsize := size_fetchBundle_le c (c.threads t).pc
  unfold step beginStep
  generalize c.fetchBundle (c.threads t).pc = b at hno hsize ⊢
  have hvalid : b.valid = true := by
    rw [← Bool.not_eq_false]
    exact fun hno' => hno (.inl hno')
  rw [raises_iff hvalid hsize] at hno
  simp only [beginStepWith, hrun, hvalid, Bool.not_true, if_off, if_neg hno, Bool.or_false]
  have hdone := fun p => withoutPending_performTransactions port (t := t) (c.setPending t p) x
  have hpending (p : PendingStep) : (c.setPending t p).pending t = p := update_self ..
  simp only [hpending, transactions_setPending, slotEffects_setPending] at hdone
  rw [hpending]
  obtain ⟨hcore, hmemory⟩ := hdone
    { bundle := b
      work := executeSlots unit (c.threads t) b
      transaction := c.transactions 0 (executeSlots unit (c.threads t) b)
      result := { thread := t, executed := true, pc := (c.threads t).pc } } rfl
  refine ⟨hcore.trans ?_, hmemory⟩
  simp only [withoutPending, setPending, setThread, update_idem]

variable (unit) in
/-- A bundle that is not executed changes nothing but the flag and the `ERROR` register of its
thread. Any other takes effect as a whole: its slots work on the registers from before it, and
access memory one after the other. Register 0 is never written. -/
theorem bundle_atomic (c : AparaCore) (t : ThreadIndex) (hrun : (c.threads t).runnable = true)
    (x : σ) :
    let b := c.fetchBundle (c.threads t).pc
    let after := step port unit t (c, x)
    (b.Raises unit (c.threads t) →
      ∃ bits, b.ErrorBits unit (c.threads t) bits ∧
        after.2.1.withoutPending t = (c.setThread t
          { c.threads t with
            halted := true, error := (c.threads t).error ||| bits }).withoutPending t ∧
        after.2.2 = x) ∧
    (¬ b.Raises unit (c.threads t) →
      let work := executeSlots unit (c.threads t) b
      let effects := slotEffects port c 0 work (c.dmem, x)
      after.2.1.withoutPending t =
          (setThread { c with dmem := effects.2.1 } t
            (threadAfter (c.threads t) b work effects.1)).withoutPending t ∧
        after.2.2 = effects.2.2 ∧
        (after.2.1.threads t).r 0 = (c.threads t).r 0) := by
  refine ⟨step_of_raises port hrun x, fun hno => ?_⟩
  obtain ⟨hcore, hmemory⟩ := step_of_not_raises port hrun x hno
  refine ⟨hcore, hmemory, ?_⟩
  have hthread := congrArg (fun d => (d.threads t).r 0) hcore
  simp only [withoutPending, setPending, setThread, update_self, threadAfter,
    commitWrites_zero] at hthread
  exact hthread

/-- An engine whose first bundle sets a register beside an undefined operation. -/
def engineWithUndefined : AparaCore :=
  { threads := fun _ => { active := true }
    imem := fun i => if i.val = 0 then 0xD4010007 else if i.val = 1 then 0x70000000 else 0 }

theorem bundle_atomic_undefined :
    let c := engineWithUndefined
    let after := step (none : Option (OffIslandPort Unit)) default 2 (c, ())
    ∃ bits, (c.fetchBundle 0).ErrorBits default (c.threads 2) bits ∧
      after.2.1.withoutPending 2 = (c.setThread 2
        { c.threads 2 with halted := true, error := 0 ||| bits }).withoutPending 2 ∧
      after.2.2 = () := by
  have hraises : (engineWithUndefined.fetchBundle 0).Raises default
      (engineWithUndefined.threads 2) := by
    decide
  exact (bundle_atomic default none engineWithUndefined 2 rfl ()).1 hraises

end Step

end SparcV8.Apara
