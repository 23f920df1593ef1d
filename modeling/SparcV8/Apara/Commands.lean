import SparcV8.Apara.Windows

/-!
# The commands of the host, and what becomes of their results

A cycle of the engine and what happens between cycles, as events at the control unit, each with the
register writes that come with it. A record beside them says which results the registers have to
hold, which stops there have been, and which have been reported.
-/

namespace SparcV8.Apara

open Function AparaCore Option SystemAddressMap

/-- A write to a register of the control unit. -/
structure RegisterWrite where
  thread : ThreadIndex
  index : Fin 8
  value : BitVec 32
  lanes : BitVec 8

namespace AparaControlCore

/-! ## Registers and flags -/

section Registers

variable (c : AparaControlCore) (t t' : ThreadIndex) (i i' : Fin 8) (v : BitVec 32)
  (lanes : BitVec 8)

theorem reg_setReg : (c.setReg t i v).reg t' i' = if t' = t ∧ i' = i then v else c.reg t' i' := by
  simp only [setReg, update_apply]
  by_cases ht : t' = t
  · subst ht
    by_cases hi : i' = i <;> simp [hi]
  · simp [ht]

theorem reg_writeRegister : (c.writeRegister t i v lanes).reg t' i' =
    if t' = t ∧ i' = i then writeLanes (c.reg t i) v lanes else c.reg t' i' := by
  rw [← reg_setReg]
  unfold writeRegister
  split <;> rfl

variable (r0 : BitVec 32)

/-- The flags are no part of the command. -/
theorem commandOf_setFlag {flag : Nat} (h : flag < 8) (value : Bool) :
    commandOf (setFlag r0 flag value) = commandOf r0 := by
  unfold commandOf setFlag
  congr 1
  apply BitVec.eq_of_getLsbD_eq
  intro j hj
  have hne : (1#32 <<< flag).getLsbD (8 + j) = false := by
    rw [BitVec.getLsbD_shiftLeft, BitVec.getLsbD_one]
    simp
    omega
  cases value with
  | true => simp [BitVec.extractLsb, hne, hj]
  | false =>
    simp [BitVec.extractLsb, hne, hj]
    omega

/-- The control register of a command that has begun. -/
def startedFlags (r0 : BitVec 32) : BitVec 32 :=
  setFlag (setFlag r0 FLAG_START false) FLAG_STARTED true

theorem commandOf_startedFlags : commandOf (startedFlags r0) = commandOf r0 := by
  rw [startedFlags, commandOf_setFlag _ (by decide), commandOf_setFlag _ (by decide)]

/-- Writes to registers, one after the other. -/
def writeAll (writes : List RegisterWrite) : AparaControlCore :=
  writes.foldl (fun c x => c.writeRegister x.thread x.index x.value x.lanes) c

theorem writeAll_cons (x : RegisterWrite) (xs : List RegisterWrite) :
    c.writeAll (x :: xs) = (c.writeRegister x.thread x.index x.value x.lanes).writeAll xs := rfl

theorem writeAll_append (xs ys : List RegisterWrite) :
    c.writeAll (xs ++ ys) = (c.writeAll xs).writeAll ys := List.foldl_append

/-- What only the control unit itself changes. -/
structure SameStops (c d : AparaControlCore) : Prop where
  stopPending : d.stopPending = c.stopPending
  stopError : d.stopError = c.stopError
  stopPc : d.stopPc = c.stopPc
  waiting : d.waiting = c.waiting

theorem sameStops_writeRegister : SameStops c (c.writeRegister t i v lanes) := by
  unfold writeRegister
  split <;> exact ⟨rfl, rfl, rfl, rfl⟩

theorem sameStops_writeAll (xs : List RegisterWrite) : SameStops c (c.writeAll xs) := by
  induction xs generalizing c with
  | nil => exact ⟨rfl, rfl, rfl, rfl⟩
  | cons x xs ih =>
    have h := c.sameStops_writeRegister x.thread x.index x.value x.lanes
    have h' := ih (c.writeRegister x.thread x.index x.value x.lanes)
    exact ⟨h'.stopPending.trans h.stopPending, h'.stopError.trans h.stopError,
      h'.stopPc.trans h.stopPc, h'.waiting.trans h.waiting⟩

end Registers

/-! ## Beginning and finishing -/

/-- The registers that a command defines, with what they are to hold. -/
def resultsOf (command : Command) (r : Result) (i : Fin 8) : Option (BitVec 32) :=
  match command with
  | .READ_IMEM => if i = 4 then some r.imemWord else none
  | .READ_REGISTER =>
    if i = 6 then some (r.registerValue.extractLsb 63 32)
    else if i = 7 then some (r.registerValue.extractLsb 31 0) else none
  | .STEP => if i = 7 then some r.nextPc else none
  | .READ_RAS_STATE => if i = 6 then some r.rasDepth else if i = 7 then some r.rasTop else none
  | .READ_TIMER =>
    if i = 3 then some (r.cycles.extractLsb 63 32)
    else if i = 4 then some (r.cycles.extractLsb 31 0) else none
  | _ => none

section Commands

variable (c : AparaControlCore) (t : ThreadIndex)

theorem beginCommand_fst :
    (c.beginCommand t).1 = (c.setReg t 0 (startedFlags (c.reg t 0))).request t := by
  exact (apply_ite Prod.fst _ _ _).trans (ite_self _)

theorem reg_beginCommand :
    (c.beginCommand t).2.reg = (c.setReg t 0 (startedFlags (c.reg t 0))).reg := by
  exact (apply_ite (fun x : Request × AparaControlCore => x.2.reg) _ _ _).trans (ite_self _)

theorem stopError_beginCommand : (c.beginCommand t).2.stopError = c.stopError := by
  exact (apply_ite (fun x : Request × AparaControlCore => x.2.stopError) _ _ _).trans (ite_self _)

theorem stopPc_beginCommand : (c.beginCommand t).2.stopPc = c.stopPc := by
  exact (apply_ite (fun x : Request × AparaControlCore => x.2.stopPc) _ _ _).trans (ite_self _)

theorem stopPending_of_beginCommand {t' : ThreadIndex}
    (h : (c.beginCommand t).2.stopPending t' = true) : c.stopPending t' = true := by
  unfold beginCommand at h
  dsimp only at h
  split at h
  · dsimp only at h
    rw [update_apply] at h
    split at h
    · cases h
    · exact h
  · exact h

theorem command_beginCommand : (c.beginCommand t).1.command = commandOf (c.reg t 0) := by
  rw [beginCommand_fst]
  change commandOf ((c.setReg t 0 _).reg t 0) = _
  rw [reg_setReg, if_pos ⟨rfl, rfl⟩, commandOf_startedFlags]

theorem commandOf_beginCommand (t' : ThreadIndex) :
    commandOf ((c.beginCommand t).2.reg t' 0) = commandOf (c.reg t' 0) := by
  rw [reg_beginCommand, reg_setReg]
  split
  · next h => rw [h.1, commandOf_startedFlags]
  · rfl

variable (r : Result)

/-- A command other than `COMPLETION` writes its results. -/
theorem reg_finishCommand (h : commandOf (c.reg t 0) ≠ .COMPLETION) (t' : ThreadIndex) (i : Fin 8)
    (hi : ¬ (t' = t ∧ i = 0)) :
    (c.finishCommand t r).reg t' i =
      if t' = t then (resultsOf (commandOf (c.reg t 0)) r i).getD (c.reg t i) else c.reg t' i := by
  unfold finishCommand writeResults resultsOf
  rw [reg_setReg, if_neg hi]
  cases hcommand : commandOf (c.reg t 0) with
  | COMPLETION => exact absurd hcommand h
  | READ_IMEM | READ_REGISTER | STEP | READ_RAS_STATE | READ_TIMER =>
    simp only [reg_setReg]
    by_cases ht : t' = t
    · subst ht
      simp only [true_and, if_true]
      grind
    · simp [ht]
  | _ =>
    dsimp only
    split
    · next ht =>
      subst ht
      rfl
    · rfl

/-- The command stays in its control register. -/
theorem commandOf_finishCommand (t' : ThreadIndex) :
    commandOf ((c.finishCommand t r).reg t' 0) = commandOf (c.reg t' 0) := by
  have hset (d : AparaControlCore) {i : Fin 8} (hi : i ≠ 0) (v : BitVec 32) :
      (d.setReg t i v).reg t' 0 = d.reg t' 0 := by
    rw [reg_setReg, if_neg fun h => hi h.2.symm]
  have hreport : (c.reportStop t).reg t' 0 = c.reg t' 0 := by
    unfold reportStop
    split
    · exact (hset _ (by decide) _).trans (hset _ (by decide) _)
    · exact hset _ (by decide) _
  have hwrite : (c.writeResults t r).reg t' 0 = c.reg t' 0 := by
    unfold writeResults
    split
    case h_6 => exact hreport
    all_goals first
      | exact hset _ (by decide) _
      | exact (hset _ (by decide) _).trans (hset _ (by decide) _)
      | rfl
  unfold finishCommand
  rw [reg_setReg]
  split
  · next h =>
    rw [commandOf_setFlag _ (by decide), commandOf_setFlag _ (by decide), ← hwrite, h.1]
  · rw [hwrite]

/-- A `COMPLETION` reports a stop that is pending, and drops it. -/
theorem finishCommand_completion (h : commandOf (c.reg t 0) = .COMPLETION) :
    (c.finishCommand t r).stopPending = update c.stopPending t false ∧
      (c.finishCommand t r).stopError = c.stopError ∧ (c.finishCommand t r).stopPc = c.stopPc ∧
      (∀ t' i, t' ≠ t → (c.finishCommand t r).reg t' i = c.reg t' i) ∧
      (c.stopPending t = true → (c.finishCommand t r).reg t 5 =
          COMPLETION_VALID ||| (c.stopError t &&& 0x07FFFFFF) ∧
        (c.finishCommand t r).reg t 6 = c.stopPc t) ∧
      (c.stopPending t = false → (c.finishCommand t r).reg t 5 = 0) := by
  unfold finishCommand writeResults
  rw [h]
  unfold reportStop
  cases hpending : c.stopPending t with
  | true =>
    refine ⟨rfl, rfl, rfl, fun t' i ht => ?_, fun _ => ⟨?_, ?_⟩, fun hno => by cases hno⟩
    · simp [reg_setReg, ht]
    · simp [reg_setReg]
    · simp [reg_setReg]
  | false =>
    refine ⟨?_, rfl, rfl, fun t' i ht => ?_, (by intro hyes; cases hyes), fun _ => ?_⟩
    · change c.stopPending = update c.stopPending t false
      rw [← hpending, update_eq_self]
    · simp [reg_setReg, ht]
    · simp [reg_setReg]

/-- Any other leaves the stops alone. -/
theorem sameStops_finishCommand (h : commandOf (c.reg t 0) ≠ .COMPLETION) :
    SameStops c (c.finishCommand t r) := by
  unfold finishCommand writeResults
  cases hcommand : commandOf (c.reg t 0) with
  | COMPLETION => exact absurd hcommand h
  | _ => exact ⟨rfl, rfl, rfl, rfl⟩

end Commands

end AparaControlCore

/-! ## The record -/

open AparaControlCore

/-- What the host can expect of the control unit. -/
structure Record where
  /-- The result of the last command of a thread, while its registers have to hold it. -/
  result : ThreadIndex → Fin 8 → Option (BitVec 32) := fun _ _ => none
  /-- The stops of a thread by its own runs, with error and address. -/
  stops : ThreadIndex → List (BitVec 32 × BitVec 32) := fun _ => []
  /-- What was reported as valid: the last stop before it, and the two registers. -/
  reports : ThreadIndex → List (Nat × BitVec 32 × BitVec 32) := fun _ => []

namespace Record

variable (g : Record)

/-- The host writes a register. -/
def write (x : RegisterWrite) : Record :=
  { g with
    result := update g.result x.thread (update (g.result x.thread) x.index none) }

def writeAll (xs : List RegisterWrite) : Record := xs.foldl write g

/-- Another command begins. -/
def begin (t : ThreadIndex) : Record :=
  { g with result := update g.result t fun _ => none }

/-- A command that is no `COMPLETION` finishes. -/
def finish (t : ThreadIndex) (command : Command) (r : Result) : Record :=
  { g with result := update g.result t (resultsOf command r) }

def stop (t : ThreadIndex) (error pc : BitVec 32) : Record :=
  { g with stops := update g.stops t (g.stops t ++ [(error, pc)]) }

/-- A `COMPLETION` finishes, and its registers are these. -/
def report (t : ThreadIndex) (r5 r6 : BitVec 32) : Record :=
  if r5.getLsbD 31 then
    { g with
      reports := update g.reports t (g.reports t ++ [((g.stops t).length - 1, r5, r6)]) }
  else g

end Record

/-! ## Events -/

/-- What happens, with its writes to registers of the control unit. -/
inductive Event where
  /-- Something outside the engine. -/
  | outside (writes : List RegisterWrite)
  /-- It is seen whether the `COMPLETION` of a thread still waits. -/
  | poll (t : ThreadIndex)
  /-- The command of a thread is run. -/
  | command (t : ThreadIndex) (writes : List RegisterWrite)
  /-- A thread runs a bundle. -/
  | engine (writes : List RegisterWrite)
  /-- The DMA unit moves a piece. -/
  | dma (writes : List RegisterWrite)
  /-- The cycle ends. -/
  | cycle

/-- What the engine does itself. -/
def Event.own : Event → Bool
  | .outside _ => false
  | _ => true

namespace Attachment

variable {W : Type} (A : Attachment W) (unit : DoubleUnit)

/-- These writes are all that became of the control unit. -/
structure Touched (writes : List RegisterWrite) (w w' : W) : Prop where
  control : (A.get w').control = (A.get w).control.writeAll writes
  completionWaiting : (A.get w').completionWaiting = (A.get w).completionWaiting

/-- The same, and nothing became of the threads. -/
structure Reaches (writes : List RegisterWrite) (w w' : W) : Prop extends
    A.Touched writes w w' where
  threads : (A.get w').engine.threads = (A.get w).engine.threads

/-- The command of a thread has begun. -/
def begun (t : ThreadIndex) (w : W) : W :=
  A.set { A.get w with control := ((A.get w).control.beginCommand t).2 } w

/-- It has been carried out. -/
def carried (t : ThreadIndex) (w : W) : Result × W :=
  A.carryOut unit ((A.get w).control.beginCommand t).1 (A.begun t w)

/-- The engine has run a bundle, if a thread can. -/
def ran (w : W) : StepResult × W := A.runEngine (AparaCore.tick (some A.port) unit) w

/-- One event. -/
inductive Step : W → Event → W → Prop
  | outside {w w' : W} {writes : List RegisterWrite} (h : A.Reaches writes w w') :
      Step w (.outside writes) w'
  | poll (t : ThreadIndex) (w : W) : Step w (.poll t) (A.pollCompletion t w)
  | command {t : ThreadIndex} {w : W} {writes : List RegisterWrite}
      (hready : (A.get w).control.ready t = true)
      (h : A.Touched writes (A.begun t w) (A.carried unit t w).2) :
      Step w (.command t writes) (A.runCommand unit t w)
  | engine {w : W} {writes : List RegisterWrite} (h : A.Touched writes w (A.ran unit w).2) :
      Step w (.engine writes) (A.tickEngine unit w)
  | dma {w : W} {writes : List RegisterWrite} (h : A.Reaches writes w (A.movePiece w)) :
      Step w (.dma writes) (A.movePiece w)
  | cycle (w : W) : Step w .cycle (A.modify (fun s => { s with cycle := s.cycle + 1 }) w)

/-- The record after an event. -/
def record (w : W) (e : Event) (w' : W) (g : Record) : Record :=
  let s := A.get w
  let c' := (A.get w').control
  match e with
  | .outside writes | .dma writes => g.writeAll writes
  | .poll t =>
    if s.completionWaiting t && s.control.completionReady t then
      if commandOf (s.control.reg t 0) = .COMPLETION then g.report t (c'.reg t 5) (c'.reg t 6)
      else
        -- the command that is there now is taken for the one that waits
        g.finish t (commandOf (s.control.reg t 0)) (A.carryOut unit (s.control.request t) w).1
    else g
  | .command t writes =>
    let b := s.control.beginCommand t
    let g := (g.begin t).writeAll writes
    if b.1.command = .COMPLETION then
      if b.2.completionWaits t && !b.2.completionReady t then g
      else g.report t (c'.reg t 5) (c'.reg t 6)
    else g.finish t b.1.command (A.carried unit t w).1
  | .engine writes =>
    let g := g.writeAll writes
    let a := A.ran unit w
    if s.engine.anyRunnable && a.1.executed && a.1.halted then
      let ts := (A.get a.2).engine.threads a.1.thread
      g.stop a.1.thread ts.error ts.pc
    else g
  | .cycle => g

/-- Events one after the other, each with the state after it. -/
def IsPath : W → List (Event × W) → Prop
  | _, [] => True
  | w, (e, w') :: path => A.Step unit w e w' ∧ IsPath w' path

/-- Nothing outside the engine is among them. -/
def OwnPath (w : W) (path : List (Event × W)) : Prop :=
  A.IsPath unit w path ∧ ∀ x ∈ path, x.1.own = true

/-- The state at the end. -/
def endOf : W → List (Event × W) → W
  | w, [] => w
  | _, (_, w') :: path => endOf w' path

/-- The record at the end. -/
def recordOf : W → Record → List (Event × W) → Record
  | _, g, [] => g
  | w, g, (e, w') :: path => recordOf w' (A.record unit w e w' g) path

/-! ## The events of a cycle -/

/-- An access to the bus, if there is one. -/
def busAccess (r : PhysicalMemoryRequest) (w : W) : W :=
  match A.system with
  | none => w
  | some bus => (bus.access r w).2

/-- What an access to the bus writes to the control unit. -/
structure BusWrites where
  writes : PhysicalMemoryRequest → W → List RegisterWrite
  reaches : ∀ r w, A.Reaches (writes r w) w (A.busAccess r w)

end Attachment

/-- The access of a transaction that leaves the engine. -/
def DwordTransaction.request (x : DwordTransaction) : PhysicalMemoryRequest :=
  { accessType := if x.store then .WRITE else .READ, lock := false
    physicalAddress := x.address.setWidth 64, data := if x.store then busToDmem x.data else 0
    byteMask := busMaskToDmemLanes x.lanes }

namespace Attachment

variable {W : Type} {A : Attachment W}

namespace BusWrites

variable (B : A.BusWrites) (unit : DoubleUnit)

/-- The writes of the transactions of a step. -/
def ofTransactions (t : ThreadIndex) :
    Nat → List DwordTransaction → AparaCore × W → List RegisterWrite
  | _, [], _ => []
  | i, x :: xs, y =>
    (if x.offIsland then B.writes x.request y.2 else []) ++
      ofTransactions t (i + 1) xs (performTransaction (some A.port) t i x y)

/-- The writes of a bundle. -/
def ofStep (t : ThreadIndex) (y : AparaCore × W) : List RegisterWrite :=
  let a := y.1.beginStep unit t
  if !a.1.executed || a.1.exception then []
  else B.ofTransactions t 0 (a.2.pending t).transaction (a.2, y.2)

/-- The writes of the engine. -/
def ofEngine (y : AparaCore × W) : List RegisterWrite :=
  let order := (List.finRange 4).map fun i => y.1.nextThread + i
  match order.find? fun t => (y.1.threads t).runnable with
  | none => []
  | some t => B.ofStep unit t ({ y.1 with nextThread := t + 1 }, y.2)

/-- The writes of the DMA unit. -/
def ofPiece (w : W) : List RegisterWrite :=
  match (A.get w).dma.nextPiece with
  | none => []
  | some p =>
    let sysOffset := p.systemAddress.toNat % 8
    B.writes
      { accessType := if p.toDmem then .READ else .WRITE, lock := false
        physicalAddress := p.systemAddress &&& ~~~7
        data := if p.toDmem then 0 else busToDmem (scatterBytes
          ((A.get w).engine.dmemDword (p.dmemAddress.toNat / 8)) sysOffset
          (p.dmemAddress.toNat % 8) p.bytes)
        byteMask := pieceMask sysOffset p.bytes } w

/-- The writes of a command. -/
def ofCommand (q : Request) (w : W) : List RegisterWrite :=
  match q.command with
  | .STEP =>
    let w := A.modify (fun s => { s with engine := s.engine.startThread q.thread q.r1 }) w
    B.ofStep unit q.thread ((A.get w).engine, w)
  | _ => []

/-- The waiting commands are looked at. -/
def pollPath (A : Attachment W) : List ThreadIndex → W → List (Event × W)
  | [], _ => []
  | t :: ts, w => (.poll t, A.pollCompletion t w) :: pollPath A ts (A.pollCompletion t w)

/-- The commands that are ready are run. -/
def readyPath : Nat → W → Option (List (Event × W))
  | fuel, w =>
    match (A.get w).control.commandReady with
    | none => some []
    | some t =>
      match fuel with
      | 0 => none
      | fuel + 1 =>
        (readyPath fuel (A.runCommand unit t w)).map
          ((.command t (B.ofCommand unit ((A.get w).control.beginCommand t).1 (A.begun t w)),
            A.runCommand unit t w) :: ·)

/-- The events of a cycle. -/
def tickPath (fuel : Nat) (w : W) : Option (List (Event × W)) :=
  let polls := pollPath A (List.finRange 4) w
  (B.readyPath unit fuel (endOf w polls)).map fun commands =>
    let w := endOf (endOf w polls) commands
    let w' := A.tickEngine unit w
    polls ++ (commands ++ [(.engine (B.ofEngine unit ((A.get w).engine, w)), w'),
      (.dma (B.ofPiece w'), A.movePiece w'),
      (.cycle, A.modify (fun s => { s with cycle := s.cycle + 1 }) (A.movePiece w'))])

end BusWrites

variable {w w' : W}

theorem Touched.refl (w : W) : A.Touched [] w w := ⟨rfl, rfl⟩

variable {xs : List RegisterWrite}

theorem Touched.trans {ys : List RegisterWrite} {w'' : W} (h : A.Touched xs w w')
    (h' : A.Touched ys w' w'') : A.Touched (xs ++ ys) w w'' :=
  ⟨by rw [h'.control, h.control, writeAll_append],
    h'.completionWaiting.trans h.completionWaiting⟩

theorem Reaches.refl (w : W) : A.Reaches [] w w := ⟨.refl w, rfl⟩

theorem get_modify (f : AparaSystemCore → AparaSystemCore) (w : W) :
    A.get (A.modify f w) = f (A.get w) := A.get_set _ _

/-- What becomes of the other parts does not touch the control unit. -/
theorem Touched.modify (h : A.Touched xs w w') {f : AparaSystemCore → AparaSystemCore}
    (hf : ∀ s, (f s).control = s.control ∧ (f s).completionWaiting = s.completionWaiting) :
    A.Touched xs w (A.modify f w') :=
  ⟨by rw [get_modify, (hf _).1, h.control], by rw [get_modify, (hf _).2, h.completionWaiting]⟩

section Cycle

variable (unit : DoubleUnit) (B : A.BusWrites)

/-- A read of the bus. -/
theorem systemRead_snd (address : BitVec 64) (busMask : BitVec 8) (w : W) :
    (A.systemRead address busMask w).2 = A.busAccess
      { accessType := .READ, lock := false, physicalAddress := address, data := 0,
        byteMask := busMask } w := by
  unfold systemRead busAccess
  cases A.system <;> rfl

/-- The loads and stores of a bundle come to the engine over the bus only. -/
theorem reaches_performTransactions (t : ThreadIndex) (i : Nat) (xs : List DwordTransaction)
    (y : AparaCore × W) :
    A.Reaches (B.ofTransactions t i xs y) y.2
      (AparaCore.performTransactions (some A.port) t i xs y).2 := by
  induction xs generalizing i y with
  | nil => exact .refl _
  | cons x xs ih =>
    have hone : A.Reaches (if x.offIsland then B.writes x.request y.2 else []) y.2
        (performTransaction (some A.port) t i x y).2 := by
      unfold performTransaction DwordTransaction.request
      cases x.offIsland with
      | false => exact .refl _
      | true =>
        cases x.store with
        | true => exact B.reaches _ _
        | false =>
          change A.Reaches _ y.2 (A.systemRead _ _ y.2).2
          rw [systemRead_snd]
          exact B.reaches _ y.2
    have hrest := ih (i + 1) (performTransaction (some A.port) t i x y)
    exact ⟨hone.toTouched.trans hrest.toTouched, hrest.threads.trans hone.threads⟩

theorem reaches_step (t : ThreadIndex) (y : AparaCore × W) :
    A.Reaches (B.ofStep unit t y) y.2 (step (some A.port) unit t y).2.2 := by
  unfold step BusWrites.ofStep
  dsimp only
  split
  · exact .refl _
  · exact reaches_performTransactions B t 0 _ ((y.1.beginStep unit t).2, y.2)

theorem touched_ran (w : W) :
    A.Touched (B.ofEngine unit ((A.get w).engine, w)) w (A.ran unit w).2 := by
  have htick (y : AparaCore × W) :
      A.Reaches (B.ofEngine unit y) y.2 (AparaCore.tick (some A.port) unit y).2.2 := by
    unfold AparaCore.tick BusWrites.ofEngine
    dsimp only
    cases List.find? (fun t => (y.1.threads t).runnable) _ with
    | none => exact .refl _
    | some t => exact reaches_step unit B t ({ y.1 with nextThread := t + 1 }, y.2)
  dsimp only [ran, runEngine]
  exact (htick ((A.get w).engine, w)).toTouched.modify fun _ => ⟨rfl, rfl⟩

theorem reaches_movePiece (w : W) : A.Reaches (B.ofPiece w) w (A.movePiece w) := by
  have hset {w' : W} {ws : List RegisterWrite} (h : A.Reaches ws w w')
      {f : AparaSystemCore → AparaSystemCore}
      (hf : ∀ s, (f s).control = s.control ∧ (f s).completionWaiting = s.completionWaiting)
      (hthreads : ∀ s, (f s).engine.threads = s.engine.threads) : A.Reaches ws w (A.modify f w') :=
    ⟨h.toTouched.modify hf, by rw [get_modify, hthreads, h.threads]⟩
  unfold movePiece BusWrites.ofPiece
  cases (A.get w).dma.nextPiece with
  | none => exact .refl w
  | some p =>
    dsimp only
    refine hset ?_ (fun _ => ⟨rfl, rfl⟩) fun _ => rfl
    unfold move
    dsimp only
    cases p.toDmem with
    | false => exact B.reaches _ w
    | true =>
      simp only [if_true]
      refine hset ?_ (fun _ => ⟨rfl, rfl⟩) fun _ => rfl
      rw [systemRead_snd]
      exact B.reaches _ w

theorem touched_carryOut (q : Request) (w : W) :
    A.Touched (B.ofCommand unit q w) w (A.carryOut unit q w).2 := by
  unfold carryOut BusWrites.ofCommand
  cases q.command with
  | WRITE_IMEM | RESET_THREAD | RUN_THREAD | WRITE_REGISTER =>
    dsimp only
    exact (Touched.refl w).modify fun _ => ⟨rfl, rfl⟩
  | STEP =>
    have hstart : A.Touched [] w
        (A.modify (fun s => { s with engine := s.engine.startThread q.thread q.r1 }) w) :=
      (Touched.refl w).modify fun _ => ⟨rfl, rfl⟩
    dsimp only
    generalize A.modify (fun s => { s with engine := s.engine.startThread q.thread q.r1 }) w = w'
      at hstart ⊢
    have hstep := hstart.trans (reaches_step unit B q.thread ((A.get w').engine, w')).toTouched
    rw [List.nil_append] at hstep
    dsimp only [runEngine]
    refine .modify (.modify hstep ?_) ?_
    all_goals exact fun _ => ⟨rfl, rfl⟩
  | _ => exact .refl w

end Cycle

/-! ## Cycles are made of these events -/

section Paths

variable (unit : DoubleUnit)

theorem endOf_append (w : W) (p q : List (Event × W)) : endOf w (p ++ q) = endOf (endOf w p) q := by
  induction p generalizing w with
  | nil => rfl
  | cons x p ih => exact ih x.2

variable {unit} in
theorem OwnPath.append {p q : List (Event × W)} (hp : A.OwnPath unit w p)
    (hq : A.OwnPath unit (endOf w p) q) : A.OwnPath unit w (p ++ q) := by
  refine ⟨?_, fun x hx => (List.mem_append.1 hx).elim (hp.2 x) (hq.2 x)⟩
  obtain ⟨hp, -⟩ := hp
  obtain ⟨hq, -⟩ := hq
  induction p generalizing w with
  | nil => exact hq
  | cons x p ih => exact ⟨hp.1, ih hp.2 hq⟩

variable {unit} in
theorem OwnPath.cons {e : Event} {path : List (Event × W)} (h : A.Step unit w e w')
    (he : e.own = true) (hpath : A.OwnPath unit w' path) : A.OwnPath unit w ((e, w') :: path) :=
  ⟨⟨h, hpath.1⟩, List.forall_mem_cons.2 ⟨he, hpath.2⟩⟩

theorem OwnPath.nil (w : W) : A.OwnPath unit w [] := ⟨trivial, nofun⟩

theorem ownPath_pollPath (ts : List ThreadIndex) (w : W) :
    A.OwnPath unit w (BusWrites.pollPath A ts w) ∧
      endOf w (BusWrites.pollPath A ts w) = ts.foldl (fun w t => A.pollCompletion t w) w := by
  induction ts generalizing w with
  | nil => exact ⟨.nil unit w, rfl⟩
  | cons t ts ih => exact ⟨.cons (.poll t w) rfl (ih _).1, (ih _).2⟩

variable (B : A.BusWrites)

theorem ownPath_readyPath (fuel : Nat) (w : W) :
    A.runReady unit fuel w = (B.readyPath unit fuel w).map (endOf w) ∧
      ∀ path ∈ B.readyPath unit fuel w, A.OwnPath unit w path := by
  induction fuel generalizing w with
  | zero =>
    unfold runReady BusWrites.readyPath
    cases (A.get w).control.commandReady with
    | none => exact ⟨rfl, fun path h => some.inj h ▸ .nil unit w⟩
    | some t => exact ⟨rfl, nofun⟩
  | succ fuel ih =>
    unfold runReady BusWrites.readyPath
    cases ht : (A.get w).control.commandReady with
    | none => exact ⟨rfl, fun path h => some.inj h ▸ .nil unit w⟩
    | some t =>
      obtain ⟨hrun, hpath⟩ := ih (A.runCommand unit t w)
      refine ⟨?_, fun path h => ?_⟩
      · dsimp only
        rw [hrun, map_map]
        rfl
      · obtain ⟨rest, hrest, rfl⟩ := map_eq_some_iff.1 h
        exact .cons (.command (List.find?_some ht) (touched_carryOut unit B _ _)) rfl
          (hpath rest hrest)

/-- A cycle is made of its events. -/
theorem ownPath_tickPath (fuel : Nat) (w : W) :
    A.tick unit fuel w = (B.tickPath unit fuel w).map (endOf w) ∧
      ∀ path ∈ B.tickPath unit fuel w, A.OwnPath unit w path := by
  obtain ⟨hpolls, hend⟩ := ownPath_pollPath (A := A) unit (List.finRange 4) w
  obtain ⟨hrun, hcommands⟩ := ownPath_readyPath unit B fuel
    (endOf w (BusWrites.pollPath A (List.finRange 4) w))
  unfold tick runCommands BusWrites.tickPath
  rw [← hend, hrun, map_map, map_map]
  refine ⟨?_, fun path h => ?_⟩
  · congr 1
    funext commands
    simp only [Function.comp_apply, endOf_append]
    rfl
  · obtain ⟨commands, hready, rfl⟩ := map_eq_some_iff.1 h
    refine hpolls.append ((hcommands commands hready).append ?_)
    exact .cons (.engine (touched_ran unit B _)) rfl
      (.cons (.dma (reaches_movePiece B _)) rfl (.cons (.cycle _) rfl (.nil unit _)))

end Paths

end Attachment

/-! ## The host and the bus -/

namespace AparaSystemCore

/-- The write of one half of an access to the control unit, if it names a byte. -/
def halfWrite (offset data : BitVec 64) (mask : BitVec 8) (half : Nat) : List RegisterWrite :=
  let lanes := (mask >>> (4 * half)) &&& 0xF
  let offset := offset + BitVec.ofNat 64 (4 * half)
  if lanes = 0 then []
  else
    [{ thread := ⟨(offset.extractLsb 6 5).toNat, BitVec.isLt _⟩
       index := ⟨(offset.extractLsb 4 2).toNat, BitVec.isLt _⟩
       value := (data >>> (32 * half)).setWidth 32
       lanes := lanes }]

/-- The writes of an access to registers of the control unit. -/
def registerWrites (s : AparaSystemCore) (r : PhysicalMemoryRequest) : List RegisterWrite :=
  let a := r.physicalAddress &&& ~~~7
  if r.accessType == .READ || inWindow a s.dmemBase DMEM_BYTES ||
      !inWindow a s.ccuBase APARA_UNIT_BYTES then []
  else
    halfWrite (a - s.ccuBase) r.data r.byteMask 0 ++ halfWrite (a - s.ccuBase) r.data r.byteMask 1

variable (s : AparaSystemCore)

theorem accessHalf_read (ccu : Bool) (offset data : BitVec 64) (mask : BitVec 8) (half : Nat) :
    (s.accessHalf ccu true offset data mask half).2 = s := by
  unfold accessHalf accessRegister
  dsimp only
  split <;> rfl

/-- A write to the control unit. -/
theorem accessHalf_ccu (offset data : BitVec 64) (mask : BitVec 8) (half : Nat) :
    (s.accessHalf true false offset data mask half).2 =
      { s with control := s.control.writeAll (halfWrite offset data mask half) } := by
  unfold accessHalf accessRegister halfWrite
  dsimp only
  split <;> rfl

/-- A write to the DMA unit. -/
theorem accessHalf_dma (offset data : BitVec 64) (mask : BitVec 8) (half : Nat) :
    ∃ dma, (s.accessHalf false false offset data mask half).2 = { s with dma := dma } := by
  unfold accessHalf accessRegister
  dsimp only
  split
  · exact ⟨s.dma, rfl⟩
  · exact ⟨_, rfl⟩

theorem access_writes (r : PhysicalMemoryRequest) :
    (s.access r).2.control = s.control.writeAll (s.registerWrites r) ∧
      (s.access r).2.completionWaiting = s.completionWaiting ∧
      (s.access r).2.engine.threads = s.engine.threads := by
  unfold access registerWrites
  dsimp only
  cases hread : r.accessType == .READ with
  | true =>
    simp only [Bool.true_or, if_true]
    split
    · exact ⟨rfl, rfl, rfl⟩
    · split
      · exact ⟨rfl, rfl, rfl⟩
      · rw [accessHalf_read, accessHalf_read]
        exact ⟨rfl, rfl, rfl⟩
  | false =>
    cases hdmem : inWindow (r.physicalAddress &&& ~~~7) s.dmemBase DMEM_BYTES with
    | true => exact ⟨rfl, rfl, rfl⟩
    | false =>
      cases hccu : inWindow (r.physicalAddress &&& ~~~7) s.ccuBase APARA_UNIT_BYTES with
      | false =>
        simp only [Bool.not_false, Bool.true_and, Bool.false_and, Bool.or_true, if_true, if_off]
        split
        · exact ⟨rfl, rfl, rfl⟩
        · obtain ⟨d, hd⟩ := s.accessHalf_dma ((r.physicalAddress &&& ~~~7) - s.dmaBase) r.data
            r.byteMask 0
          obtain ⟨d', hd'⟩ := accessHalf_dma { s with dma := d }
            ((r.physicalAddress &&& ~~~7) - s.dmaBase) r.data r.byteMask 1
          rw [hd, hd']
          exact ⟨rfl, rfl, rfl⟩
      | true =>
        simp only [Bool.not_true, Bool.false_and, Bool.or_self, if_false, Bool.false_eq_true,
          if_true]
        rw [accessHalf_ccu, accessHalf_ccu, writeAll_append]
        exact ⟨rfl, rfl, rfl⟩

end AparaSystemCore

/-- The host accesses the engine. -/
theorem Attachment.Step.access {W : Type} {A : Attachment W} {unit : DoubleUnit} (w : W)
    (r : PhysicalMemoryRequest) :
    A.Step unit w (.outside ((A.get w).registerWrites r))
      (A.modify (fun s => (s.access r).2) w) := by
  obtain ⟨hctl, hwaiting, hthreads⟩ := (A.get w).access_writes r
  refine .outside ⟨⟨?_, ?_⟩, ?_⟩
  all_goals
    rw [Attachment.get_modify]
    assumption

/-- An engine among others and devices at one bus. -/
def EngineSystem.busWrites {δ : Type} (l : Layout) (devices : PhysicalMemory δ)
    (e : Nat) : (attachment l devices e).BusWrites where
  writes r x :=
    if aparaEngineAt l r.physicalAddress.toNat = some e ∧ x.attached e = true then
      (x.engines e).registerWrites r
    else []
  reaches r x := by
    have hget : (attachment l devices e).get ((attachment l devices e).busAccess r x) =
        ((access l devices r x).2).engines e := rfl
    obtain ⟨e', he', hattached, -, h⟩ | ⟨hnone, hengines, -⟩ := access_cases l devices r x
    · rw [h, engines_setEngine] at hget
      by_cases heq : e = e'
      · subst heq
        rw [if_pos rfl] at hget
        rw [if_pos ⟨he', hattached⟩]
        obtain ⟨hctl, hwaiting, hthreads⟩ := (x.engines e).access_writes r
        exact ⟨⟨by rw [hget]; exact hctl, by rw [hget]; exact hwaiting⟩,
          by rw [hget]; exact hthreads⟩
      · rw [if_neg heq] at hget
        rw [if_neg fun hc => heq (some.inj (hc.1.symm.trans he'))]
        exact ⟨⟨by rw [hget]; rfl, by rw [hget]; rfl⟩, by rw [hget]; rfl⟩
    · rw [hengines] at hget
      rw [if_neg fun hc => absurd hc.2 (by rw [hnone e hc.1]; decide)]
      exact ⟨⟨by rw [hget]; rfl, by rw [hget]; rfl⟩, by rw [hget]; rfl⟩

end SparcV8.Apara
