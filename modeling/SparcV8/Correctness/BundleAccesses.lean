import SparcV8.Correctness.BundleAtomic
import SparcV8.Correctness.DmemAgreement

/-!
# Bundles of engines in a system

An engine works on its own copy of its data memory until its bundle ends. What leaves it never comes
back to that memory, so the system after the bundle is the one after the accesses of its slots, one
after the other.
-/

namespace SparcV8.Apara

open AparaCore List Function

namespace AparaSystemCore

variable (dmem : Fin DMEM_DWORDS → BitVec 64) (s : AparaSystemCore)

def withDmem : AparaSystemCore := { s with engine := { s.engine with dmem := dmem } }

theorem accessHalf_withDmem (ccu read : Bool) (offset data : BitVec 64) (mask : BitVec 8)
    (half : Nat) :
    (s.withDmem dmem).accessHalf ccu read offset data mask half =
      ((s.accessHalf ccu read offset data mask half).1,
        (s.accessHalf ccu read offset data mask half).2.withDmem dmem) := by
  unfold accessHalf accessRegister
  dsimp only
  split
  · rfl
  · cases read <;> cases ccu <;> rfl

/-- Outside its window an access does not see the data memory. -/
theorem access_withDmem (r : PhysicalMemoryRequest)
    (h : inWindow (r.physicalAddress &&& ~~~7) s.dmemBase DMEM_BYTES = false) :
    (s.withDmem dmem).access r = ((s.access r).1, (s.access r).2.withDmem dmem) := by
  have hdmem : (s.withDmem dmem).dmemBase = s.dmemBase := rfl
  have hccu : (s.withDmem dmem).ccuBase = s.ccuBase := rfl
  have hdma : (s.withDmem dmem).dmaBase = s.dmaBase := rfl
  simp only [access, hdmem, hccu, hdma, h, if_off, accessHalf_withDmem]
  split <;> rfl

end AparaSystemCore

/-! ## Doublewords -/

section Slots

variable {σ : Type} (port : Option (OffIslandPort σ)) (c : AparaCore) (s : Nat) (w : SlotWork)

/-- The number of the slot goes with its doublewords. -/
theorem slotTransactions_slot :
    c.slotTransactions s w = (c.slotTransactions 0 w).map fun t => { t with slot := s } := by
  unfold slotTransactions
  split
  · rfl
  · rw [map_map]
    refine map_congr_left fun k _ => ?_
    rw [comp_apply]
    split <;> rfl

theorem transferAll_slot (ts : List DwordTransaction) (m : DataMemory σ) :
    transferAll port (ts.map fun t => { t with slot := s }) m =
      ((transferAll port ts m).1.map fun t => { t with slot := s }, (transferAll port ts m).2) := by
  induction ts generalizing m with
  | nil => rfl
  | cons t ts ih =>
    have hfirst : transfer port { t with slot := s } m =
        ({ (transfer port t m).1 with slot := s }, (transfer port t m).2) := by
      unfold transfer
      cases t.offIsland <;> cases t.store <;> cases port <;> rfl
    rw [map_cons, transferAll, hfirst, ih]
    rfl

/-- No access depends on that number. -/
theorem transferAll_slotTransactions (m : DataMemory σ) :
    loadWrites w (transferAll port (c.slotTransactions s w) m).1 =
        loadWrites w (transferAll port (c.slotTransactions 0 w) m).1 ∧
      (transferAll port (c.slotTransactions s w) m).2 =
        (transferAll port (c.slotTransactions 0 w) m).2 := by
  rw [slotTransactions_slot, transferAll_slot]
  refine ⟨?_, rfl⟩
  unfold loadWrites
  split
  · rfl
  · split
    · apply ext_getElem?
      intro k
      simp only [getElem?_mapIdx, getElem?_map, Option.map_map]
      rfl
    · rw [map_map]
      rfl

end Slots

namespace EngineSystem

variable {δ : Type} {l : SystemAddressMap.Layout} (devices : PhysicalMemory δ) {e : Nat}
variable (dmem dmem' : Fin DMEM_DWORDS → BitVec 64)

theorem assemble_assemble (y : EngineSystem δ) :
    assemble e (dmem, assemble e (dmem', y)) = assemble e (dmem, y) := by
  simp [assemble, setEngine, update_idem]

theorem assemble_self (x : EngineSystem δ) : assemble e ((x.engines e).engine.dmem, x) = x := by
  simp only [assemble, setEngine, update_eq_self]

/-- An access outside the window of an engine does not see its data memory. -/
theorem access_assemble (r : PhysicalMemoryRequest) (y : EngineSystem δ)
    (h : inWindow (r.physicalAddress &&& ~~~7) (y.engines e).dmemBase DMEM_BYTES = false) :
    access l devices r (assemble e (dmem, y)) =
      ((access l devices r y).1, assemble e (dmem, (access l devices r y).2)) := by
  have hattached : (assemble e (dmem, y)).attached = y.attached := rfl
  unfold access
  rw [hattached]
  split
  · rfl
  · rfl
  · cases (SystemAddressMap.aparaEngineAt l r.physicalAddress.toNat).filter y.attached with
    | none => rfl
    | some e' =>
      simp only [assemble, setEngine]
      by_cases heq : e' = e
      · subst heq
        have hown := (y.engines e').access_withDmem dmem r h
        unfold AparaSystemCore.withDmem at hown
        simp [hown, update_idem]
      · simp only [update_of_ne heq, update_of_ne (Ne.symm heq), update_comm heq]
  · rfl

variable {m : DataMemory (EngineSystem δ)} (hl : WindowsApart l) (hm : Placed l m.2)
  (he : m.2.attached e = true)
include hl hm he

theorem transfer_assemble {t : DwordTransaction}
    (hroute : t.offIsland = (m.2.engines e).engine.isOffIsland t.address) :
    let z := transfer (some (attachment l devices e).port) t m
    transfer (some (attachment l devices e).port) t (m.1, assemble e (dmem, m.2)) =
      (z.1, z.2.1, assemble e (dmem, z.2.2)) := by
  cases hoff : t.offIsland with
  | false =>
    unfold transfer
    rw [hoff]
    cases t.store <;> rfl
  | true =>
    -- the address is outside the window, whatever is asked there
    have hout (r : PhysicalMemoryRequest) (hr : r.physicalAddress = t.address.setWidth 64) :
        inWindow (r.physicalAddress &&& ~~~7) (m.2.engines e).dmemBase DMEM_BYTES = false := by
      have haddress : (t.address.setWidth 64).toNat = t.address.toNat :=
        BitVec.toNat_setWidth_of_le (by decide)
      have hbase := (hm e he).dmemBase_mod
      have hin := isOffIsland_iff hl hm he _ rfl t.address
      rw [← hroute, hoff] at hin
      rw [Bool.eq_false_iff, Ne, inWindow_iff r hbase, hr, haddress]
      have hsize : DMEM_BYTES = 8 * DMEM_DWORDS := rfl
      simp only [Bool.true_eq_false, false_iff, InOwnWindow] at hin
      omega
    unfold transfer
    rw [hoff]
    cases t.store
    all_goals
      simp only [Bool.not_true, if_off, if_true, attachment, Attachment.port, Attachment.readDword,
        Attachment.writeDword, Attachment.systemRead, Attachment.systemWrite]
      rw [access_assemble devices dmem _ _ (hout _ rfl)]

theorem transferAll_assemble {ts : List DwordTransaction} (hts : Routed m.2 e ts) :
    let z := transferAll (some (attachment l devices e).port) ts m
    transferAll (some (attachment l devices e).port) ts (m.1, assemble e (dmem, m.2)) =
      (z.1, z.2.1, assemble e (dmem, z.2.2)) := by
  induction ts generalizing m with
  | nil => rfl
  | cons t ts ih =>
    have hplaces := samePlaces_transfer (l := l) (e := e) (m := m) devices t
    have hrest := ih (hplaces.placed hm) (by rw [hplaces.attached, he])
      (Routed.samePlaces (fun t' ht' => hts t' (mem_cons_of_mem t ht')) hplaces)
    simp only [transferAll, transfer_assemble devices dmem hl hm he (hts t mem_cons_self), hrest]

omit hl hm he in
theorem slotTransactions_congr {c c' : AparaCore} (h : c'.config = c.config) (w : SlotWork) :
    c'.slotTransactions 0 w = c.slotTransactions 0 w := by
  simp only [slotTransactions, isOffIsland, h]

variable {c : AparaCore} (hc : (m.2.engines e).engine.config = c.config)
include hc

/-- A slot, on the engine's copy of its data memory and on the system. -/
theorem slotAccess_assemble (w : SlotWork) :
    let z := transferAll (some (attachment l devices e).port) (c.slotTransactions 0 w) m
    slotAccess l devices e w (assemble e m) = (z.1, assemble e z.2) := by
  have hconfig : ((assemble e m).engines e).engine.config = (m.2.engines e).engine.config :=
    (samePlaces_assemble.engine e).config
  have hdmem : ((assemble e m).engines e).engine.dmem = m.1 := by
    rw [dmem_assemble, if_pos rfl]
  have hsame := transferAll_assemble devices m.1 hl hm he (routed_slotTransactions (w := w))
  simp only [slotAccess, hdmem, slotTransactions_congr hconfig, ← slotTransactions_congr hc, hsame]
  exact congrArg (Prod.mk _) (assemble_assemble _ _ _)

/-! ## Bundles -/

variable (e) in
/-- The memory accesses of the slots of a bundle. -/
def slotAccesses (work : List SlotWork) : List Access :=
  (work.filter SlotWork.memory).map (.engine e)

variable (l e) in
/-- The registers that the slots write, with what each has loaded. -/
def slotWrites : List SlotWork → EngineSystem δ → List (List (RegIndex × BitVec 64))
  | [], _ => []
  | w :: work, x =>
    if !w.memory then w.write :: slotWrites work x
    else
      let a := slotAccess l devices e w x
      (w.write ++ loadWrites w a.1 ++ (if w.incrementBase then [(w.rs2, w.nextRs2)] else [])) ::
        slotWrites work a.2

/-- The slots of a bundle in turn, on the copy and on the system. -/
theorem slotEffects_eq (s : Nat) (work : List SlotWork) :
    let z := slotEffects (some (attachment l devices e).port) c s work m
    z.1 = slotWrites l devices e work (assemble e m) ∧
      assemble e z.2 = performAll l devices (slotAccesses e work) (assemble e m) := by
  induction work generalizing s m with
  | nil => exact ⟨rfl, rfl⟩
  | cons w work ih =>
    simp only [slotEffects, slotEffect, slotWrites, slotAccesses, filter_cons]
    cases hmemory : w.memory with
    | false =>
      obtain ⟨hwrites, hsystem⟩ := ih hm he hc (s + 1)
      exact ⟨congrArg _ hwrites, hsystem⟩
    | true =>
      have hplaces := samePlaces_transferAll (l := l) (e := e) (m := m) devices
        (c.slotTransactions 0 w)
      obtain ⟨hloads, hsame⟩ := transferAll_slotTransactions
        (some (attachment l devices e).port) c s w m
      have hslot := slotAccess_assemble devices hl hm he hc w
      obtain ⟨hwrites, hsystem⟩ := ih (hplaces.placed hm) (by rw [hplaces.attached, he])
        ((hplaces.engine e).config.trans hc) (s + 1)
      simp only [Bool.not_true, if_off, if_true, map_cons, performAll, perform, hloads, hsame,
        hslot, hwrites, hsystem]
      exact ⟨trivial, rfl⟩

omit hm he hc in
/-- A bundle that raises no exception: the system after it is the one after the accesses of its
slots, but for the engine, whose thread has the registers that the slots write. -/
theorem runEngine_step (unit : DoubleUnit) (t : ThreadIndex) {x : EngineSystem δ} (hx : Placed l x)
    (he : x.attached e = true) (hrun : ((x.engines e).engine.threads t).runnable = true)
    (hno : ¬ ((x.engines e).engine.fetchBundle ((x.engines e).engine.threads t).pc).Raises unit
      ((x.engines e).engine.threads t)) :
    let A := attachment l devices e
    let c := (x.engines e).engine
    let b := c.fetchBundle (c.threads t).pc
    let work := executeSlots unit (c.threads t) b
    let y := performAll l devices (slotAccesses e work) x
    ∃ c', (A.runEngine (step (some A.port) unit t) x).2 =
        A.modify (fun s => { s with engine := c' }) y ∧
      c'.withoutPending t = ({ c with dmem := (y.engines e).engine.dmem }.setThread t
        (threadAfter (c.threads t) b work (slotWrites l devices e work x))).withoutPending t := by
  intro A c b work y
  obtain ⟨hcore, hmemory⟩ := step_of_not_raises (some A.port) hrun x hno
  obtain ⟨hwrites, hsystem⟩ := slotEffects_eq devices (m := (c.dmem, x)) hl hx he rfl 0 work
  rw [assemble_self] at hwrites hsystem
  have hdmem := dmem_assemble (e := e)
    (m := (slotEffects (some A.port) c 0 work (c.dmem, x)).2) e
  rw [hsystem, if_pos rfl] at hdmem
  refine ⟨_, ?_, hcore.trans ?_⟩
  · simp only [Attachment.runEngine, y, ← hsystem]
    change A.modify _ (step (some A.port) unit t (c, x)).2.2 = _
    rw [hmemory]
    simp only [A, Attachment.modify, attachment, assemble, setEngine, update_self, update_idem]
    rfl
  · rw [hwrites, ← hdmem]

end EngineSystem

end SparcV8.Apara
