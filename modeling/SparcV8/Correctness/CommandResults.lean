import SparcV8.Apara.Commands
import SparcV8.Core.Machine.Transition
import SparcV8.Correctness.BundleAtomic

/-!
# Commands keep their results

A command leaves its result in the registers of its thread, where it stays until the host writes
them or another command begins; and a stop is reported once. A `COMPLETION` that waits spoils this
when the host meanwhile puts another command into its control register.
-/

namespace SparcV8.Apara

open AparaControlCore Function AparaSystemCore BitVec Option List Attachment

/-! ## Errors fit into their register -/

/-- The bits of an `ERROR` register that are used. -/
def AparaCore.ErrorsFit (c : AparaCore) : Prop :=
  ∀ t, ∀ j ≥ 27, (c.threads t).error.getLsbD j = false

variable {t : ThreadIndex} {σ : Type}

namespace AparaCore.ErrorsFit

variable {c d : AparaCore}

theorem of_threads (h : c.ErrorsFit) (heq : d.threads = c.threads) : d.ErrorsFit := by
  intro t j hj
  rw [heq]
  exact h t j hj

theorem of_update (h : c.ErrorsFit) {ts : ThreadState} (heq : d.threads = update c.threads t ts)
    (hts : ∀ j ≥ 27, ts.error.getLsbD j = false) : d.ErrorsFit := by
  intro t' j hj
  rw [heq, update_apply]
  split
  · exact hts j hj
  · exact h t' j hj

theorem getLsbD_ERROR_HALT {j : Nat} (hj : 27 ≤ j) : ERROR_HALT.getLsbD j = false := by
  have hbits : ∀ j < 32, 27 ≤ j → ERROR_HALT.getLsbD j = false := by decide
  by_cases hlt : j < 32
  · exact hbits j hlt hj
  · exact getLsbD_of_ge _ _ (by omega)

/-- A bundle adds bits that are used. -/
theorem step (h : c.ErrorsFit) (port : Option (OffIslandPort σ)) (unit : DoubleUnit)
    (t : ThreadIndex) (x : σ) : (AparaCore.step port unit t (c, x)).2.1.ErrorsFit := by
  have hthreads {d d' : AparaCore} (heq : d.withoutPending t = d'.withoutPending t) :
      d.threads = d'.threads := by
    change (d.withoutPending t).threads = (d'.withoutPending t).threads
    rw [heq]
  cases hrun : (c.threads t).runnable with
  | false =>
    refine h.of_threads ?_
    unfold AparaCore.step AparaCore.beginStep AparaCore.beginStepWith
    dsimp only
    rw [hrun]
    rfl
  | true =>
    by_cases hraises : (c.fetchBundle (c.threads t).pc).Raises unit (c.threads t)
    · obtain ⟨bits, hbits, heq, -⟩ := step_of_raises port hrun x hraises
      refine h.of_update (hthreads heq) fun j hj => ?_
      rw [getLsbD_or, h t j hj, hbits.others.2 j hj, Bool.or_self]
    · obtain ⟨heq, -⟩ := step_of_not_raises port hrun x hraises
      refine h.of_update (hthreads heq) fun j hj => ?_
      unfold threadAfter
      dsimp only
      split
      · rw [getLsbD_or, h t j hj, getLsbD_ERROR_HALT hj, Bool.or_self]
      · exact h t j hj

theorem tick (h : c.ErrorsFit) (port : Option (OffIslandPort σ)) (unit : DoubleUnit) (x : σ) :
    (AparaCore.tick port unit (c, x)).2.1.ErrorsFit := by
  unfold AparaCore.tick
  dsimp only
  split
  · exact h
  · next t _ =>
    exact step (c := { c with nextThread := t + 1 }) (h.of_threads rfl) port unit t x

end AparaCore.ErrorsFit

/-- Where no thread can run, nothing happens. -/
theorem AparaCore.tick_of_not_anyRunnable (port : Option (OffIslandPort σ)) (unit : DoubleUnit)
    {y : AparaCore × σ} (h : y.1.anyRunnable = false) : AparaCore.tick port unit y = ({}, y) := by
  have hnone (ts : List ThreadIndex) : ts.find? (fun t => (y.1.threads t).runnable) = none :=
    List.find?_eq_none.2 fun t _ => List.any_eq_false.1 h t (List.mem_finRange t)
  unfold AparaCore.tick
  dsimp only
  rw [hnone]

/-! ## The condition -/

/-- Whatever is written to the control registers, the commands in them stay. -/
def KeepsCommands (busy : ThreadIndex → Bool) : List RegisterWrite → AparaControlCore → Prop
  | [], _ => True
  | x :: xs, c =>
    (x.index = 0 → busy x.thread = true →
      commandOf (writeLanes (c.reg x.thread 0) x.value x.lanes) = commandOf (c.reg x.thread 0)) ∧
    KeepsCommands busy xs (c.writeRegister x.thread x.index x.value x.lanes)

variable {busy : ThreadIndex → Bool} {ws : List RegisterWrite}
variable {c : AparaControlCore}

instance decidableKeepsCommands : (ws : List RegisterWrite) → (c : AparaControlCore) →
    Decidable (KeepsCommands busy ws c)
  | [], _ => .isTrue trivial
  | x :: xs, c =>
    have := decidableKeepsCommands xs (c.writeRegister x.thread x.index x.value x.lanes)
    inferInstanceAs (Decidable (_ ∧ _))

theorem KeepsCommands.commandOf_writeAll (h : KeepsCommands busy ws c) (ht : busy t = true) :
    commandOf ((c.writeAll ws).reg t 0) = commandOf (c.reg t 0) := by
  induction ws generalizing c with
  | nil => rfl
  | cons x xs ih =>
    rw [writeAll_cons, ih h.2, reg_writeRegister]
    split
    · next heq =>
      rw [heq.1, ← heq.2]
      exact h.1 heq.2.symm (by rw [← heq.1]; exact ht)
    · rfl

/-! ## What holds of the control unit and the record -/

/-- The control unit does what the record says; a `COMPLETION` waits. -/
structure Holds (c : AparaControlCore) (waiting : ThreadIndex → Bool) (g : Record) : Prop where
  waits : ∀ t, waiting t = true → commandOf (c.reg t 0) = .COMPLETION
  idle : ∀ t i, waiting t = true → g.result t i = none
  result : ∀ t i v, g.result t i = some v → c.reg t i = v
  control : ∀ t, g.result t 0 = none
  /-- The stop that is pending is the last one, and not yet reported. -/
  pending : ∀ t, c.stopPending t = true → ∃ stops,
    g.stops t = stops ++ [(c.stopError t, c.stopPc t)] ∧ ∀ r ∈ g.reports t, r.1 < stops.length
  errors : ∀ t, ∀ stop ∈ g.stops t, ∀ j ≥ 27, stop.1.getLsbD j = false
  once : ∀ t, ((g.reports t).map Prod.fst).Nodup
  right : ∀ t, ∀ r ∈ g.reports t, ∃ stop,
    (g.stops t)[r.1]? = some stop ∧ r.2 = (COMPLETION_VALID ||| stop.1, stop.2)

namespace Holds

variable {waiting : ThreadIndex → Bool} {g : Record}

/-- Registers that are written drop out of the record. -/
theorem result_write (x : RegisterWrite) (t : ThreadIndex) (i : Fin 8) :
    (g.write x).result t i = if t = x.thread ∧ i = x.index then none else g.result t i := by
  unfold Record.write
  dsimp only
  rw [update_apply]
  by_cases ht : t = x.thread
  · subst ht
    rw [if_pos rfl, update_apply]
    exact if_congr (by simp) rfl rfl
  · rw [if_neg ht, if_neg fun h => ht h.1]

theorem writeAll (h : Holds c waiting g) (hbusy : ∀ t, waiting t = true → busy t = true)
    (hws : KeepsCommands busy ws c) : Holds (c.writeAll ws) waiting (g.writeAll ws) := by
  induction ws generalizing c g with
  | nil => exact h
  | cons x xs ih =>
    refine ih ⟨fun t ht => ?_, fun t i ht => ?_, fun t i v hv => ?_, fun t => ?_, fun t ht => ?_,
      h.errors, h.once, h.right⟩ hws.2
    · have hone : KeepsCommands busy [x] c := ⟨hws.1, trivial⟩
      exact (hone.commandOf_writeAll (hbusy t ht)).trans (h.waits t ht)
    · rw [result_write, h.idle t i ht, ite_self]
    · rw [result_write] at hv
      rw [reg_writeRegister]
      split at hv
      · cases hv
      · next hne =>
        rw [if_neg hne]
        exact h.result t i v hv
    · rw [result_write, h.control t, ite_self]
    · have hstops := c.sameStops_writeRegister x.thread x.index x.value x.lanes
      rw [hstops.stopPending] at ht
      rw [hstops.stopError, hstops.stopPc]
      exact h.pending t ht

/-- A command begins. -/
theorem beginCommand (h : Holds c waiting g) (t : ThreadIndex) :
    Holds (c.beginCommand t).2 waiting (g.begin t) := by
  have hresult (t' : ThreadIndex) (i : Fin 8) :
      (g.begin t).result t' i = if t' = t then none else g.result t' i := by
    unfold Record.begin
    dsimp only
    rw [update_apply]
    split <;> rfl
  refine ⟨fun t' ht => ?_, fun t' i ht => ?_, fun t' i v hv => ?_, fun t' => ?_, fun t' ht => ?_,
    h.errors, h.once, h.right⟩
  · rw [commandOf_beginCommand]
    exact h.waits t' ht
  · rw [hresult, h.idle t' i ht, ite_self]
  · rw [hresult] at hv
    split at hv
    · cases hv
    · next hne =>
      rw [reg_beginCommand, reg_setReg, if_neg fun heq => hne heq.1]
      exact h.result t' i v hv
  · rw [hresult, h.control t', ite_self]
  · rw [stopError_beginCommand, stopPc_beginCommand]
    exact h.pending t' (c.stopPending_of_beginCommand t ht)

theorem result_begin (t : ThreadIndex) (i : Fin 8) : (g.begin t).result t i = none := by
  rw [Record.begin]
  dsimp only
  rw [update_self]

/-- What is not expected does not come with a write. -/
theorem result_writeAll (h : ∀ i, g.result t i = none) (ws : List RegisterWrite) (i : Fin 8) :
    (g.writeAll ws).result t i = none := by
  induction ws generalizing g with
  | nil => exact h i
  | cons x xs ih =>
    refine ih fun i => ?_
    rw [result_write, h i, ite_self]

theorem resultsOf_zero (command : Command) (r : Result) : resultsOf command r 0 = none := by
  cases command <;> rfl

/-- A command that is no `COMPLETION` finishes. -/
theorem finish (h : Holds c waiting g) {command : Command} (r : Result)
    (hcommand : commandOf (c.reg t 0) = command) (hne : command ≠ .COMPLETION) :
    Holds (c.finishCommand t r) waiting (g.finish t command r) := by
  subst hcommand
  have hresult (t' : ThreadIndex) (i : Fin 8) :
      (g.finish t (commandOf (c.reg t 0)) r).result t' i =
        if t' = t then resultsOf (commandOf (c.reg t 0)) r i else g.result t' i := by
    unfold Record.finish
    dsimp only
    rw [update_apply]
    split <;> rfl
  have hstops := c.sameStops_finishCommand t r hne
  have hfree {t' : ThreadIndex} (ht : waiting t' = true) : t' ≠ t := by
    rintro rfl
    exact hne (h.waits t' ht)
  refine ⟨fun t' ht => ?_, fun t' i ht => ?_, fun t' i v hv => ?_, fun t' => ?_, fun t' ht => ?_,
    h.errors, h.once, h.right⟩
  · rw [commandOf_finishCommand]
    exact h.waits t' ht
  · rw [hresult, if_neg (hfree ht)]
    exact h.idle t' i ht
  · rw [hresult] at hv
    have hi : ¬ (t' = t ∧ i = 0) := by
      rintro ⟨rfl, rfl⟩
      rw [if_pos rfl, resultsOf_zero] at hv
      cases hv
    rw [c.reg_finishCommand t r hne t' i hi]
    split at hv
    · next heq =>
      rw [if_pos heq, hv, getD_some]
    · next heq =>
      rw [if_neg heq]
      exact h.result t' i v hv
  · rw [hresult]
    split
    · exact resultsOf_zero _ r
    · exact h.control t'
  · rw [hstops.stopPending] at ht
    rw [hstops.stopError, hstops.stopPc]
    exact h.pending t' ht

variable {error : BitVec 32}

/-- An error that fits is not cut. -/
theorem and_errorMask (h : ∀ j ≥ 27, error.getLsbD j = false) : error &&& 0x07FFFFFF = error := by
  have hmask : ∀ j < 27, (0x07FFFFFF : BitVec 32).getLsbD j = true := by decide
  apply eq_of_getLsbD_eq
  intro j hj
  rw [getLsbD_and]
  by_cases hlow : j < 27
  · rw [hmask j hlow, Bool.and_true]
  · rw [h j (by omega), Bool.false_and]

/-- A `COMPLETION` finishes; then none waits, or the one from before still does. -/
theorem report (h : Holds c waiting g) (r : Result) (hcommand : commandOf (c.reg t 0) = .COMPLETION)
    (hidle : ∀ i, g.result t i = none) {waiting' : ThreadIndex → Bool}
    (hwaiting : ∀ t', waiting' t' = true → waiting t' = true) :
    Holds (c.finishCommand t r) waiting'
      (g.report t ((c.finishCommand t r).reg t 5) ((c.finishCommand t r).reg t 6)) := by
  obtain ⟨hpending, herror, hpc, hother, hvalid, hnone⟩ := c.finishCommand_completion t r hcommand
  have hwaits (t' : ThreadIndex) (ht : waiting' t' = true) :
      commandOf ((c.finishCommand t r).reg t' 0) = .COMPLETION := by
    rw [commandOf_finishCommand]
    exact h.waits t' (hwaiting t' ht)
  have hresult (t' : ThreadIndex) (i : Fin 8) (v : BitVec 32) (hv : g.result t' i = some v) :
      (c.finishCommand t r).reg t' i = v := by
    have hne : t' ≠ t := by
      rintro rfl
      rw [hidle i] at hv
      cases hv
    rw [hother t' i hne]
    exact h.result t' i v hv
  have hstill {t' : ThreadIndex} (ht : (c.finishCommand t r).stopPending t' = true) :
      t' ≠ t ∧ c.stopPending t' = true := by
    rw [hpending, update_apply] at ht
    split at ht
    · cases ht
    · next hne => exact ⟨hne, ht⟩
  cases hstop : c.stopPending t with
  | false =>
    rw [hnone hstop, Record.report, if_neg (by decide)]
    refine ⟨hwaits, fun t' i ht => h.idle t' i (hwaiting t' ht), hresult, h.control,
      fun t' ht => ?_,
      h.errors, h.once, h.right⟩
    rw [herror, hpc]
    exact h.pending t' (hstill ht).2
  | true =>
    obtain ⟨stops, hlast, hbefore⟩ := h.pending t hstop
    have hfits : ∀ j ≥ 27, (c.stopError t).getLsbD j = false :=
      h.errors t (c.stopError t, c.stopPc t) (by rw [hlast]; simp)
    obtain ⟨hr5, hr6⟩ := hvalid hstop
    rw [and_errorMask hfits] at hr5
    have hbit : (COMPLETION_VALID ||| c.stopError t).getLsbD 31 = true := by
      rw [getLsbD_or]
      rfl
    have hlength : (g.stops t).length - 1 = stops.length := by
      rw [hlast, List.length_append]
      rfl
    rw [hr5, hr6, Record.report, if_pos hbit, hlength]
    have hreports (t' : ThreadIndex) (hne : t' ≠ t) :
        update g.reports t (g.reports t ++
          [(stops.length, COMPLETION_VALID ||| c.stopError t, c.stopPc t)]) t' = g.reports t' :=
      update_of_ne hne _ _
    refine ⟨hwaits, fun t' i ht => h.idle t' i (hwaiting t' ht), hresult, h.control,
      fun t' ht => ?_,
      h.errors, fun t' => ?_, fun t' => ?_⟩
    · obtain ⟨hne, ht⟩ := hstill ht
      dsimp only
      rw [herror, hpc, hreports t' hne]
      exact h.pending t' ht
    · dsimp only
      by_cases hne : t' = t
      · subst hne
        rw [update_self, List.map_append]
        refine List.nodup_append.2 ⟨h.once t', List.nodup_singleton _, ?_⟩
        intro n hn m hm
        obtain ⟨report, hmem, rfl⟩ := List.mem_map.1 hn
        have hlt := hbefore report hmem
        rw [List.map_singleton, mem_singleton] at hm
        omega
      · rw [hreports t' hne]
        exact h.once t'
    · dsimp only
      by_cases hne : t' = t
      · subst hne
        rw [update_self]
        intro report hmem
        rcases List.mem_append.1 hmem with hmem | hmem
        · exact h.right t' report hmem
        · rw [mem_singleton.1 hmem]
          refine ⟨(c.stopError t', c.stopPc t'), ?_, rfl⟩
          rw [hlast]
          simp
      · rw [hreports t' hne]
        exact h.right t'

/-- A `COMPLETION` begins to wait. -/
theorem wait (h : Holds c waiting g) (hcommand : commandOf (c.reg t 0) = .COMPLETION)
    (hidle : ∀ i, g.result t i = none) : Holds c (update waiting t true) g := by
  refine ⟨fun t' ht => ?_, fun t' i ht => ?_, h.result, h.control, h.pending, h.errors, h.once,
    h.right⟩
  · by_cases heq : t' = t
    · rw [heq]
      exact hcommand
    · rw [update_of_ne heq] at ht
      exact h.waits t' ht
  · by_cases heq : t' = t
    · rw [heq]
      exact hidle i
    · rw [update_of_ne heq] at ht
      exact h.idle t' i ht

/-- A thread stops. -/
theorem stop (h : Holds c waiting g) (t : ThreadIndex) (pc : BitVec 32)
    (herror : ∀ j ≥ 27, error.getLsbD j = false) :
    Holds (c.threadStopped t error pc) waiting (g.stop t error pc) := by
  have hstops (t' : ThreadIndex) :
      (g.stop t error pc).stops t' =
        if t' = t then g.stops t ++ [(error, pc)] else g.stops t' := by
    unfold Record.stop
    dsimp only
    rw [update_apply]
  refine ⟨h.waits, h.idle, h.result, h.control, fun t' ht => ?_, fun t' => ?_, h.once, fun t' => ?_⟩
  · rw [hstops]
    unfold threadStopped at ht ⊢
    dsimp only at ht ⊢
    by_cases heq : t' = t
    · subst heq
      rw [if_pos rfl, update_self, update_self]
      refine ⟨_, rfl, fun report hmem => ?_⟩
      obtain ⟨stop, hstop, -⟩ := h.right t' report hmem
      exact (List.getElem?_eq_some_iff.1 hstop).1
    · rw [update_of_ne heq] at ht
      rw [if_neg heq, update_of_ne heq, update_of_ne heq]
      exact h.pending t' ht
  · rw [hstops]
    split
    · intro stop hmem
      rcases List.mem_append.1 hmem with hmem | hmem
      · exact h.errors t stop hmem
      · rw [mem_singleton.1 hmem]
        exact herror
    · exact h.errors t'
  · intro report hmem
    obtain ⟨stop, hstop, hright⟩ := h.right t' report hmem
    refine ⟨stop, ?_, hright⟩
    rw [hstops]
    split
    · next heq =>
      subst heq
      rw [List.getElem?_append_left (List.getElem?_eq_some_iff.1 hstop).1]
      exact hstop
    · exact hstop

end Holds

namespace Attachment

variable {W : Type} (A : Attachment W) (unit : DoubleUnit)

/-- While a `COMPLETION` waits, or a command is carried out, it stays in its register. -/
def Allowed (w : W) : Event → Prop
  | .outside writes | .engine writes | .dma writes =>
    KeepsCommands (A.get w).completionWaiting writes (A.get w).control
  | .command t writes =>
    KeepsCommands (update (A.get w).completionWaiting t true) writes
      (A.get (A.begun t w)).control
  | .poll _ | .cycle => True

def AllAllowed : W → List (Event × W) → Prop
  | _, [] => True
  | w, (e, w') :: path => A.Allowed w e ∧ AllAllowed w' path

instance (w : W) : (e : Event) → Decidable (A.Allowed w e)
  | .outside _ | .engine _ | .dma _ | .command _ _ => decidableKeepsCommands ..
  | .poll _ | .cycle => .isTrue trivial

instance decidableAllAllowed : (w : W) → (path : List (Event × W)) →
    Decidable (A.AllAllowed w path)
  | _, [] => .isTrue trivial
  | w, (e, w') :: path =>
    have := decidableAllAllowed w' path
    inferInstanceAs (Decidable (A.Allowed w e ∧ _))

/-- The state and the record agree. -/
structure Agrees (w : W) (g : Record) : Prop where
  holds : Holds (A.get w).control (A.get w).completionWaiting g
  errors : (A.get w).engine.ErrorsFit

variable {A unit} {w w' : W} {g : Record}

/-- Writes over the bus. -/
theorem Agrees.touched (h : A.Agrees w g) (ht : A.Touched ws w w')
    (hallowed : KeepsCommands (A.get w).completionWaiting ws (A.get w).control) :
    Holds (A.get w').control (A.get w').completionWaiting (g.writeAll ws) := by
  rw [ht.control, ht.completionWaiting]
  exact h.holds.writeAll (fun _ h => h) hallowed

/-- A waiting `COMPLETION` is finished, or not yet. -/
theorem Agrees.poll (h : A.Agrees w g) (t : ThreadIndex) :
    A.Agrees (A.pollCompletion t w)
      (A.record unit w (.poll t) (A.pollCompletion t w) g) := by
  unfold pollCompletion record
  dsimp only
  cases hready : (A.get w).completionWaiting t && (A.get w).control.completionReady t with
  | false => exact h
  | true =>
    have hwaiting := (Bool.and_eq_true_iff.1 hready).1
    have hcommand := h.holds.waits t hwaiting
    simp only [if_true, if_pos hcommand, A.get_set]
    refine ⟨?_, ?_⟩
    · rw [A.get_set]
      refine h.holds.report {} hcommand (fun i => h.holds.idle t i hwaiting) fun t' ht => ?_
      dsimp only at ht
      rw [update_apply] at ht
      split at ht
      · cases ht
      · exact ht
    · rw [A.get_set]
      exact h.errors

/-- What a command does leaves the errors within their bits. -/
theorem errors_carryOut (q : Request) (h : (A.get w).engine.ErrorsFit) :
    (A.get (A.carryOut unit q w).2).engine.ErrorsFit := by
  have hzero : ∀ j ≥ 27, (0 : BitVec 32).getLsbD j = false := fun j _ => getLsbD_zero
  unfold carryOut
  cases q.command with
  | WRITE_IMEM =>
    rw [get_modify]
    refine h.of_threads ?_
    unfold AparaCore.writeImemWord
    split <;> rfl
  | RESET_THREAD =>
    rw [get_modify]
    exact h.of_update rfl hzero
  | RUN_THREAD =>
    rw [get_modify]
    exact h.of_update rfl hzero
  | WRITE_REGISTER =>
    rw [get_modify]
    unfold AparaCore.writeRegister
    split
    · exact h
    · exact h.of_update rfl (h q.thread)
  | STEP =>
    dsimp only
    have hstart : (A.get (A.modify (fun s => { s with
        engine := s.engine.startThread q.thread q.r1 }) w)).engine.ErrorsFit := by
      rw [get_modify]
      exact h.of_update rfl hzero
    generalize A.modify (fun s => { s with engine := s.engine.startThread q.thread q.r1 }) w = w'
      at hstart ⊢
    have hran : (A.get (A.runEngine
        (AparaCore.step (some A.port) unit q.thread) w').2).engine.ErrorsFit := by
      unfold runEngine
      rw [get_modify]
      exact hstart.step (some A.port) unit q.thread w'
    rw [get_modify]
    exact hran.of_update rfl (hran q.thread)
  | _ => exact h

theorem get_runCommand (unit : DoubleUnit) (t : ThreadIndex) (w : W) :
    A.get (A.runCommand unit t w) =
      let b := (A.get w).control.beginCommand t
      let a := A.carried unit t w
      let s := A.get a.2
      if b.1.command = .COMPLETION ∧ s.control.completionWaits t = true ∧
          s.control.completionReady t = false then
        { s with completionWaiting := update s.completionWaiting t true }
      else { s with control := s.control.finishCommand t a.1 } := by
  unfold runCommand
  exact get_modify _ _

/-- A command is run. -/
theorem Agrees.command (h : A.Agrees w g)
    (htouched : A.Touched ws (A.begun t w) (A.carried unit t w).2)
    (hallowed : A.Allowed w (.command t ws)) :
    A.Agrees (A.runCommand unit t w)
      (A.record unit w (.command t ws) (A.runCommand unit t w) g) := by
  have hbegun : A.get (A.begun t w) =
      { A.get w with control := ((A.get w).control.beginCommand t).2 } := A.get_set _ _
  have herrors : (A.get (A.carried unit t w).2).engine.ErrorsFit := by
    refine errors_carryOut _ ?_
    rw [hbegun]
    exact h.errors
  obtain ⟨hctl, hwaiting⟩ := htouched
  rw [Allowed] at hallowed
  rw [hbegun] at hctl hwaiting hallowed
  have hbusy (t' : ThreadIndex) (ht : (A.get w).completionWaiting t' = true) :
      update (A.get w).completionWaiting t true t' = true := by
    rw [update_apply]
    split
    · rfl
    · exact ht
  have hholds := (h.holds.beginCommand t).writeAll hbusy hallowed
  have hstops := ((A.get w).control.beginCommand t).2.sameStops_writeAll ws
  have hcommand : commandOf ((((A.get w).control.beginCommand t).2.writeAll ws).reg t 0) =
      ((A.get w).control.beginCommand t).1.command := by
    rw [hallowed.commandOf_writeAll (update_self ..), commandOf_beginCommand, command_beginCommand]
  have hidle (i : Fin 8) : ((g.begin t).writeAll ws).result t i = none :=
    Holds.result_writeAll (Holds.result_begin t) ws i
  have hget := get_runCommand (A := A) unit t w
  simp only [completionWaits, completionReady, hctl, hwaiting, hstops.waiting,
    hstops.stopPending] at hget
  unfold record
  dsimp only
  by_cases hcompletion : ((A.get w).control.beginCommand t).1.command = .COMPLETION
  · rw [hcompletion] at hcommand
    rw [if_pos hcompletion, completionWaits, completionReady]
    cases hwaits : ((A.get w).control.beginCommand t).2.waiting t &&
        !((A.get w).control.beginCommand t).2.stopPending t with
    | true =>
      rw [Bool.and_eq_true, Bool.not_eq_true'] at hwaits
      rw [if_pos ⟨hcompletion, hwaits⟩] at hget
      refine ⟨?_, by rw [hget]; exact herrors⟩
      rw [hget]
      exact hholds.wait hcommand hidle
    | false =>
      rw [Bool.and_eq_false_iff, Bool.not_eq_false'] at hwaits
      rw [if_neg (by rintro ⟨-, h1, h2⟩; simp [h1, h2] at hwaits)] at hget
      refine ⟨?_, by rw [hget]; exact herrors⟩
      rw [hget]
      exact hholds.report _ hcommand hidle fun _ h => h
  · rw [if_neg fun hc => hcompletion hc.1] at hget
    rw [if_neg hcompletion]
    refine ⟨?_, by rw [hget]; exact herrors⟩
    rw [hget]
    exact hholds.finish _ hcommand hcompletion

/-- A thread runs a bundle. -/
theorem Agrees.engine (h : A.Agrees w g) (htouched : A.Touched ws w (A.ran unit w).2)
    (hallowed : A.Allowed w (.engine ws)) :
    A.Agrees (A.tickEngine unit w)
      (A.record unit w (.engine ws) (A.tickEngine unit w) g) := by
  have hholds := h.touched htouched hallowed
  have herrors : (A.get (A.ran unit w).2).engine.ErrorsFit := by
    unfold ran runEngine
    rw [get_modify]
    exact h.errors.tick (some A.port) unit w
  unfold record tickEngine
  dsimp only
  change A.Agrees (if _ then if (A.ran unit w).1.executed && (A.ran unit w).1.halted then
    A.modify _ (A.ran unit w).2 else (A.ran unit w).2 else w) _
  cases hrunnable : (A.get w).engine.anyRunnable with
  | false =>
    refine ⟨?_, h.errors⟩
    have hran : A.get (A.ran unit w).2 = A.get w := by
      unfold ran runEngine
      rw [AparaCore.tick_of_not_anyRunnable _ _ hrunnable, get_modify]
    rw [hran] at hholds
    exact hholds
  | true =>
    simp only [if_true, Bool.true_and]
    split
    · refine ⟨?_, ?_⟩
      · rw [get_modify]
        exact hholds.stop _ _ (herrors _)
      · rw [get_modify]
        exact herrors
    · exact ⟨hholds, herrors⟩

/-- One event. -/
theorem Agrees.step {e : Event} (h : A.Agrees w g) (hstep : A.Step unit w e w')
    (hallowed : A.Allowed w e) : A.Agrees w' (A.record unit w e w' g) := by
  cases hstep with
  | outside ht => exact ⟨h.touched ht.toTouched hallowed, h.errors.of_threads ht.threads⟩
  | poll t => exact h.poll t
  | command _ ht => exact h.command ht hallowed
  | engine ht => exact h.engine ht hallowed
  | dma ht => exact ⟨h.touched ht.toTouched hallowed, h.errors.of_threads ht.threads⟩
  | cycle =>
    refine ⟨?_, ?_⟩
    · rw [get_modify]
      exact h.holds
    · rw [get_modify]
      exact h.errors

/-- Any events. -/
theorem Agrees.path {path : List (Event × W)} (h : A.Agrees w g) (hpath : A.IsPath unit w path)
    (hallowed : A.AllAllowed w path) : A.Agrees (endOf w path) (A.recordOf unit w g path) := by
  induction path generalizing w g with
  | nil => exact h
  | cons x path ih => exact ih (h.step hpath.1 hallowed.1) hpath.2 hallowed.2

/-! ## Runs -/

/-- What the host does, or a cycle of the engine. -/
inductive Action where
  | host (request : PhysicalMemoryRequest)
  | tick

variable (unit) (B : A.BusWrites) (fuel : Nat)

/-- Accesses of the host and cycles of the engine, with the record that the cycles' own events
leave. -/
def commandUnit : Machine (W × Record) Action :=
  ⟨fun x action =>
    match action with
    | .host r =>
      some (A.modify (fun s => (s.access r).2) x.1,
        x.2.writeAll ((A.get x.1).registerWrites r))
    | .tick => (A.tick unit fuel x.1).map fun w' =>
      (w', A.recordOf unit x.1 x.2 ((B.tickPath unit fuel x.1).getD []))⟩

/-- No write takes a command away that waits or is being carried out. -/
def LeavesCommands (x : W × Record) : Action → Prop
  | .host r => KeepsCommands (A.get x.1).completionWaiting ((A.get x.1).registerWrites r)
    (A.get x.1).control
  | .tick => A.AllAllowed x.1 ((B.tickPath unit fuel x.1).getD [])

instance (x : W × Record) : (action : Action) → Decidable (LeavesCommands unit B fuel x action)
  | .host _ => decidableKeepsCommands ..
  | .tick => decidableAllAllowed ..

/-- An access of the host, or a cycle. -/
theorem Agrees.action {x x' : W × Record} {action : Action} (h : A.Agrees x.1 x.2)
    (hleaves : LeavesCommands unit B fuel x action)
    (hstep : (commandUnit unit B fuel).step x action = some x') : A.Agrees x'.1 x'.2 := by
  cases action with
  | host r =>
    cases hstep
    exact h.step (show A.Step unit x.1 _ _ from .access x.1 r) hleaves
  | tick =>
    obtain ⟨htick, hown⟩ := ownPath_tickPath unit B fuel x.1
    obtain ⟨w', hw', rfl⟩ := map_eq_some_iff.1 hstep
    rw [htick] at hw'
    obtain ⟨path, hpath, rfl⟩ := map_eq_some_iff.1 hw'
    rw [LeavesCommands, hpath, getD_some] at hleaves
    rw [hpath, getD_some]
    exact h.path (hown path hpath).1 hleaves

end Attachment

/-! ## A result that is kept, and one that is lost -/

end SparcV8.Apara
