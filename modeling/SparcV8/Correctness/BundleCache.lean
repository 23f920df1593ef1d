import SparcV8.Apara.AparaCore

/-!
# Decoded bundles

An engine decodes a bundle once and keeps it until a word of its line is written. A bundle lies in
one line, so what is kept is what decoding would give now, and an engine steps as if it decoded
every time.
-/

namespace SparcV8.Apara

open Function

/-- An engine with the bundles it keeps; `beyond` is one beyond the memory. -/
structure CachingCore where
  core : AparaCore
  bundleCache : Fin IMEM_WORDS → Bundle := fun _ => {}
  bundleCached : Fin IMEM_WORDS → Bool := fun _ => false
  beyond : Bundle := {}

variable {σ : Type}

namespace CachingCore

variable (c : CachingCore)

def writeImemWord (index : BitVec 32) (word : BitVec 32) : CachingCore :=
  if index.toNat ≥ IMEM_WORDS then c
  else
    let line := index.toNat / 8 * 8
    { c with
      core := c.core.writeImemWord index.toNat word
      bundleCached := fun i => if line ≤ i ∧ i < line + 8 then false else c.bundleCached i }

def bundleAt (pc : BitVec 32) : Bundle × CachingCore :=
  if h : pc.toNat < IMEM_WORDS then
    let i : Fin IMEM_WORDS := ⟨pc.toNat, h⟩
    let c := if c.bundleCached i then c
      else
        { c with
          bundleCache := update c.bundleCache i (c.core.fetchBundle pc)
          bundleCached := update c.bundleCached i true }
    (c.bundleCache i, c)
  else
    let c := { c with beyond := c.core.fetchBundle pc }
    (c.beyond, c)

section Step

variable (port : Option (OffIslandPort σ)) (unit : DoubleUnit) (t : ThreadIndex)

def beginStep : StepResult × CachingCore :=
  let (b, c) := c.bundleAt (c.core.threads t).pc
  let (res, core) := c.core.beginStepWith unit t b
  (res, { c with core := core })

/-- A thread runs one bundle, as `AparaCore.step` does. -/
def step (m : σ) : StepResult × (CachingCore × σ) :=
  let (res, c) := c.beginStep unit t
  if !res.executed || res.exception then (res, (c, m))
  else
    let z := AparaCore.performTransactions port t 0 (c.core.pending t).transaction (c.core, m)
    let d := z.1.commitStep t
    (d.1, ({ c with core := d.2 }, z.2))

end Step

end CachingCore

/-- A call of an engine. Every step may find another memory beyond the engine. -/
inductive EngineCall (σ : Type)
  | writeImemWord (index word : BitVec 32)
  | bundleAt (pc : BitVec 32)
  | step (port : Option (OffIslandPort σ)) (unit : DoubleUnit) (t : ThreadIndex) (m : σ)

def EngineCall.apply {σ : Type} (c : CachingCore) : EngineCall σ → CachingCore
  | writeImemWord index word => c.writeImemWord index word
  | bundleAt pc => (c.bundleAt pc).2
  | step port unit t m => (c.step port unit t m).2.1

/-! ## What a bundle depends on -/

namespace AparaCore

variable {c d : AparaCore}

theorem bundleWords_congr (first : Bool) {a n : Nat}
    (h : ∀ i, a ≤ i → i < a + n → c.imemWord i = d.imemWord i) :
    c.bundleWords first a n = d.bundleWords first a n := by
  induction n generalizing first a with
  | zero => rfl
  | succ n ih =>
    have htail := ih false fun i (hi : a + 1 ≤ i) hn => h i (by omega) (by omega)
    simp only [bundleWords, h a le_rfl (by omega), htail]

/-- A bundle is made of words of its line. -/
theorem fetchBundle_congr {pc : BitVec 32}
    (h : ∀ i, i / 8 = pc.toNat / 8 → c.imemWord i = d.imemWord i) :
    c.fetchBundle pc = d.fetchBundle pc := by
  rw [fetchBundle, fetchBundle, bundleWords_congr true fun i hi hn => h i (by omega)]

theorem fetchBundle_of_imem (h : c.imem = d.imem) (pc : BitVec 32) :
    c.fetchBundle pc = d.fetchBundle pc :=
  fetchBundle_congr fun i _ => by rw [imemWord, imemWord, h]

theorem imemWord_writeImemWord {index i : Nat} (word : BitVec 32) (h : i ≠ index) :
    (c.writeImemWord index word).imemWord i = c.imemWord i := by
  unfold writeImemWord
  split_ifs
  · simp only [imemWord]
    split_ifs
    · exact update_of_ne (by simpa using h) _ _
    · rfl
  · rfl

/-! ## Steps leave the instruction memory alone -/

theorem imem_beginStepWith (unit : DoubleUnit) (t : ThreadIndex) (b : Bundle) :
    (c.beginStepWith unit t b).2.imem = c.imem := by
  simp only [beginStepWith]
  split_ifs <;> rfl

variable (port : Option (OffIslandPort σ)) (t : ThreadIndex)

theorem imem_performTransactions (i : Nat) (xs : List DwordTransaction) (y : AparaCore × σ) :
    (performTransactions port t i xs y).1.imem = y.1.imem := by
  induction xs generalizing i y with
  | nil => rfl
  | cons x xs ih =>
    rw [performTransactions, ih]
    unfold performTransaction performLocal
    cases port with
    | none => split_ifs <;> rfl
    | some port =>
      simp only
      split_ifs <;> rfl

end AparaCore

/-! ## The cache is never stale -/

namespace CachingCore

/-- What is kept is what decoding gives. -/
def Current (c : CachingCore) : Prop :=
  ∀ i, c.bundleCached i = true → c.bundleCache i = c.core.fetchBundle (BitVec.ofNat 32 i)

variable {c : CachingCore} (h : c.Current)
include h

theorem Current.of_imem {core : AparaCore} (hi : core.imem = c.core.imem) :
    Current { c with core := core } :=
  fun i hc => (h i hc).trans (AparaCore.fetchBundle_of_imem hi.symm _)

theorem Current.writeImemWord (index word : BitVec 32) : (c.writeImemWord index word).Current := by
  unfold CachingCore.writeImemWord
  split_ifs with hindex
  · exact h
  · intro i hc
    simp only at hc ⊢
    split_ifs at hc with hline
    refine (h i hc).trans (AparaCore.fetchBundle_congr fun j hj => ?_)
    have hpc : (BitVec.ofNat 32 i.val).toNat = i.val :=
      Nat.mod_eq_of_lt (i.isLt.trans (by decide))
    exact (AparaCore.imemWord_writeImemWord word (by omega)).symm

/-- Looking a bundle up gives what decoding gives, and only fills the cache. -/
theorem Current.bundleAt (pc : BitVec 32) :
    (c.bundleAt pc).1 = c.core.fetchBundle pc ∧ (c.bundleAt pc).2.core = c.core ∧
      (c.bundleAt pc).2.Current := by
  unfold CachingCore.bundleAt
  split_ifs with hpc
  · have hnat : BitVec.ofNat 32 pc.toNat = pc := by simp
    simp only
    split_ifs with hc
    · exact ⟨(h _ hc).trans (by rw [hnat]), rfl, h⟩
    · refine ⟨update_self .., rfl, fun i hi => ?_⟩
      by_cases heq : i = ⟨pc.toNat, hpc⟩
      · subst heq
        simp [hnat]
      · simp only [update_of_ne heq] at hi ⊢
        exact h i hi
  · exact ⟨rfl, rfl, h⟩

variable (port : Option (OffIslandPort σ)) (unit : DoubleUnit) (t : ThreadIndex) (m : σ)

/-- A step is one of the engine that decodes every time. -/
theorem Current.step :
    (c.step port unit t m).2.1.Current ∧
      ((c.step port unit t m).1, (c.step port unit t m).2.1.core, (c.step port unit t m).2.2) =
        AparaCore.step port unit t (c.core, m) := by
  obtain ⟨hb, hcore, hcur⟩ := h.bundleAt (c.core.threads t).pc
  unfold CachingCore.step CachingCore.beginStep AparaCore.step AparaCore.beginStep
  generalize c.bundleAt _ = found at hb hcore hcur ⊢
  obtain ⟨b, ⟨core, cache, cached, beyond⟩⟩ := found
  obtain rfl : b = _ := hb
  obtain rfl : core = c.core := hcore
  have himem := AparaCore.imem_beginStepWith (c := c.core) unit t
    (c.core.fetchBundle (c.core.threads t).pc)
  simp only
  generalize c.core.beginStepWith unit t _ = a at himem ⊢
  by_cases hstop : (!a.1.executed || a.1.exception) = true
  · rw [if_pos hstop, if_pos hstop]
    exact ⟨hcur.of_imem himem, rfl⟩
  · rw [if_neg hstop, if_neg hstop]
    exact ⟨hcur.of_imem ((AparaCore.imem_performTransactions ..).trans himem), rfl⟩

end CachingCore

/-- The same call of an engine that decodes every time. -/
def EngineCall.applyDecoding {σ : Type} (c : AparaCore) : EngineCall σ → AparaCore
  | writeImemWord index word => c.writeImemWord index.toNat word
  | bundleAt _ => c
  | step port unit t m => (AparaCore.step port unit t (c, m)).2.1

theorem CachingCore.Current.apply {c : CachingCore} (h : c.Current) (call : EngineCall σ) :
    (call.apply c).Current ∧ (call.apply c).core = call.applyDecoding c.core := by
  cases call with
  | writeImemWord index word =>
    refine ⟨h.writeImemWord index word, ?_⟩
    simp only [EngineCall.apply, CachingCore.writeImemWord, EngineCall.applyDecoding]
    split_ifs with hi
    · rw [AparaCore.writeImemWord, dif_neg (by omega)]
    · rfl
  | bundleAt pc => exact (h.bundleAt pc).2.symm
  | step port unit t m =>
    obtain ⟨hcur, heq⟩ := h.step port unit t m
    exact ⟨hcur, congrArg (·.2.1) heq⟩

/-- After any calls, what an engine keeps of a bundle is what decoding would give: a step is one of
the engine that decodes every time, and so is the whole run. -/
theorem decodedBundles_current {σ : Type} (core : AparaCore) (calls : List (EngineCall σ)) :
    let c := calls.foldl EngineCall.apply { core := core }
    c.core = calls.foldl EngineCall.applyDecoding core ∧
      (∀ i, c.bundleCached i = true → c.bundleCache i = c.core.fetchBundle (BitVec.ofNat 32 i)) ∧
      (∀ pc, (c.bundleAt pc).1 = c.core.fetchBundle pc) ∧
      ∀ (port : Option (OffIslandPort σ)) unit t m,
        let r := c.step port unit t m
        (r.1, r.2.1.core, r.2.2) = AparaCore.step port unit t (c.core, m) := by
  have hrun (c : CachingCore) (h : c.Current) : (calls.foldl EngineCall.apply c).Current ∧
      (calls.foldl EngineCall.apply c).core = calls.foldl EngineCall.applyDecoding c.core := by
    induction calls generalizing c with
    | nil => exact ⟨h, rfl⟩
    | cons call calls ih =>
      obtain ⟨hcur, hcore⟩ := h.apply call
      rw [List.foldl_cons, List.foldl_cons, ← hcore]
      exact ih _ hcur
  obtain ⟨hcur, hcore⟩ := hrun { core := core } nofun
  exact ⟨hcore, hcur, fun pc => (hcur.bundleAt pc).1,
    fun port unit t m => (hcur.step port unit t m).2⟩

end SparcV8.Apara
