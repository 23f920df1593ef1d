import SparcV8.Core.Arbiter.RoundRobin
import SparcV8.Core.Machine.Progress
import SparcV8.Mmu.Physical

/-!
# The bridge of a multi-core system

`CoherentBridge` with the cores' ends of the bus, main memory and the devices, and the nets of
capacity one between them. In phase 0 of a cycle every module pulls what it waits for, in phase 1 it
pushes what it has to send, so that the order of the modules makes no difference. There are `n + 1`
cores. Tokens carry the core and the number of their request, which no module looks at. The counts
of transactions are left out.
-/

namespace SparcV8

open Function SystemAddressMap

/-- A token on a net, with the core and the number of its request. -/
structure Token (n : Nat) (α : Type) where
  core : Fin (n + 1)
  number : Nat
  value : α

/-- The tokens on the nets of requests. -/
abbrev RequestToken (n : Nat) := Token n PhysicalMemoryRequest

/-- The tokens on the nets of responses. -/
abbrev ResponseToken (n : Nat) := Token n PhysicalMemoryResponse

/-- The ports of the bridge on the target side. -/
inductive TargetPort where
  | memory | devices
  deriving DecidableEq

namespace CoherentBridge

/-- Where the bridge is in its behavior, with the tokens it holds there. -/
inductive Control (n : Nat) where
  | waiting
  /-- Until phase 1, before the invalidates are sent. -/
  | invalidating (port : TargetPort) (request : RequestToken n)
  | sendTargetRequest (port : TargetPort) (request : RequestToken n)
  | getTargetResponse (port : TargetPort) (request : RequestToken n)
  /-- The bridge's own delay, with the cycles that follow the next one. -/
  | delaying (cycles : Nat) (response : ResponseToken n)
  | sendCoreResponse (response : ResponseToken n)

/-- What a module on the target side is doing. -/
inductive TargetControl (n : Nat) where
  | getRequest
  | delaying (cycles : Nat) (response : ResponseToken n)
  | sendResponse (response : ResponseToken n)

/-- The delay before a response is sent, with this many cycles left. -/
def Control.countdown {n : Nat} (cycles : Nat) (response : ResponseToken n) : Control n :=
  match cycles with
  | 0 => .sendCoreResponse response
  | cycles + 1 => .delaying cycles response

def TargetControl.countdown {n : Nat} (cycles : Nat) (response : ResponseToken n) :
    TargetControl n :=
  match cycles with
  | 0 => .sendResponse response
  | cycles + 1 => .delaying cycles response

/-- The end of a core: between two requests, with the cycles since, or making one. -/
inductive CoreControl (n : Nat) where
  | idle (cycles : Nat)
  | sendRequest (request : RequestToken n)
  | getResponse

end CoherentBridge

open CoherentBridge

structure CoherentBridge (n : Nat) where
  control : Control n
  /-- The core whose request is being serviced, or was last. -/
  granted : Fin (n + 1)
  /-- From a locked request until the next request of the same core. -/
  busLocked : Bool
  /-- The port that `sendTargetRequest` and `getTargetResponse` point to. -/
  targetPort : Option TargetPort
  lastInvalidate : Fin (n + 1) → Option (BitVec 64)

/-- Main memory, or the devices, with the nets that lead there and back. -/
structure TargetModule (n : Nat) (τ : Type) where
  control : TargetControl n
  state : τ
  requestNet : Option (RequestToken n)
  responseNet : Option (ResponseToken n)

/-- The end of a core, with the nets that lead there and back. -/
structure CorePort (n : Nat) where
  control : CoreControl n
  requestNet : Option (RequestToken n)
  responseNet : Option (ResponseToken n)
  invalidateNet : Option (BitVec 64)
  /-- The number of requests that the core has made. -/
  made : Nat
  /-- The tags of the responses that the core has got. -/
  received : List (Fin (n + 1) × Nat)
  /-- The number of grants there had been when the core made its last request. -/
  arrived : Nat

structure BridgeSystem (n : Nat) (τ : Type) where
  bridge : CoherentBridge n
  targets : TargetPort → TargetModule n τ
  cores : Fin (n + 1) → CorePort n
  /-- The cores that have been granted, and whether the bus was locked. -/
  grants : List (Fin (n + 1) × Bool)
  /-- The requests in the order in which they have reached their targets. -/
  reached : List (RequestToken n)

namespace BridgeSystem

/-- What a system is built with. -/
structure Parameters (τ : Type) where
  /-- Cycles the bridge adds to every transaction. -/
  delay : Nat
  coherent : Bool
  snoopFilter : Bool
  layout : Layout
  target : TargetPort → PhysicalMemory τ
  /-- Cycles a target adds to every request. -/
  targetDelay : TargetPort → Nat
  /-- What a target does in every cycle by itself. -/
  tick : TargetPort → τ → τ

/-- The requests of the cores, and for each the cycles between the response before it and itself. A
core may stop making requests. -/
structure Workload (n : Nat) where
  request : Fin (n + 1) → Nat → PhysicalMemoryRequest
  gap : Fin (n + 1) → Nat → Option Nat

variable {n : Nat} {τ : Type} (P : Parameters τ) (w : Workload n)

/-! ## The bridge -/

variable (s : BridgeSystem n τ)

/-- While the bridge is locked, only the owner's port is looked at. -/
def pullNextRequest : Option (Fin (n + 1) × RequestToken n) :=
  if s.bridge.busLocked then
    (s.cores s.bridge.granted).requestNet.map fun request => (s.bridge.granted, request)
  else
    (RoundRobin.next (fun i => (s.cores i).requestNet.isSome) s.bridge.granted).bind fun i =>
      (s.cores i).requestNet.map fun request => (i, request)

/-- The port of a target; for none of the two the pointers stay as they are. -/
def portOf : Target → Option TargetPort
  | .MAIN_MEMORY => some .memory
  | .PERIPHERAL_DEVICES => some .devices
  | .APARA_ENGINE | .UNMAPPED => s.bridge.targetPort

/-- A request has been pulled from the port of a core. -/
def grant (core : Fin (n + 1)) (request : RequestToken n) (control : Control n) :
    BridgeSystem n τ :=
  let q := request.value
  { s with
    bridge :=
      { control := control
        granted := core
        busLocked := q.lock
        targetPort := s.portOf (decode P.layout q.physicalAddress)
        lastInvalidate :=
          if q.accessType = .READ then update s.bridge.lastInvalidate core none
          else s.bridge.lastInvalidate }
    cores := update s.cores core { s.cores core with requestNet := none }
    grants := s.grants ++ [(core, s.bridge.busLocked)] }

/-- `none`: the assertion that `sendTargetRequest` points to a port fails. -/
def accept (core : Fin (n + 1)) (request : RequestToken n) : Option (BridgeSystem n τ) :=
  let q := request.value
  let target := decode P.layout q.physicalAddress
  if target = .UNMAPPED then
    let noData := { request with value := { readData := 0, mae := false } }
    some { s.grant P core request (.countdown P.delay noData) with
      reached := s.reached ++ [request] }
  else
    (s.portOf target).map fun port =>
      if P.coherent && q.accessType == .WRITE && target == .MAIN_MEMORY then
        s.grant P core request (.invalidating port request)
      else s.grant P core request (.sendTargetRequest port request)

def bridgePhase0 : Option (BridgeSystem n τ) :=
  match s.bridge.control with
  | .waiting =>
    match s.pullNextRequest with
    | some (core, request) => s.accept P core request
    | none => some s
  | .getTargetResponse port _ =>
    match (s.targets port).responseNet with
    | some response =>
      some { s with
        bridge := { s.bridge with control := .countdown P.delay response }
        targets := update s.targets port { s.targets port with responseNet := none } }
    | none => some s
  | .delaying cycles response =>
    some { s with bridge := { s.bridge with control := .countdown cycles response } }
  | .invalidating _ _ | .sendTargetRequest _ _ | .sendCoreResponse _ => some s

/-- `none` is the exit of the simulator when a net is full. -/
def sendInvalidates (physicalAddress : BitVec 64) : Option (BridgeSystem n τ) :=
  let line := physicalAddress &&& ~~~63
  let sent (c : Fin (n + 1)) : Bool :=
    c != s.bridge.granted && !(P.snoopFilter && s.bridge.lastInvalidate c == some line)
  if ∃ c, sent c = true ∧ (s.cores c).invalidateNet.isSome = true then none
  else
    some { s with
      bridge :=
        { s.bridge with
          lastInvalidate := fun c => if sent c then some line else s.bridge.lastInvalidate c }
      cores := fun c =>
        if sent c then { s.cores c with invalidateNet := some line } else s.cores c }

def pushTargetRequest (port : TargetPort) (request : RequestToken n) : BridgeSystem n τ :=
  match (s.targets port).requestNet with
  | none =>
    { s with
      bridge := { s.bridge with control := .getTargetResponse port request }
      targets := update s.targets port { s.targets port with requestNet := some request } }
  | some _ => { s with bridge := { s.bridge with control := .sendTargetRequest port request } }

def bridgePhase1 : Option (BridgeSystem n τ) :=
  match s.bridge.control with
  | .invalidating port request =>
    (s.sendInvalidates P request.value.physicalAddress).map fun s =>
      s.pushTargetRequest port request
  | .sendTargetRequest port request => some (s.pushTargetRequest port request)
  | .sendCoreResponse response =>
    match (s.cores s.bridge.granted).responseNet with
    | none =>
      some { s with
        bridge := { s.bridge with control := .waiting }
        cores := update s.cores s.bridge.granted
          { s.cores s.bridge.granted with responseNet := some response } }
    | some _ => some s
  | .waiting | .getTargetResponse _ _ | .delaying _ _ => some s

/-! ## The targets and the cores -/

variable (m : TargetModule n τ)

/-- What a target pulls in phase 0. -/
def pulled : Option (RequestToken n) :=
  match m.control with
  | .getRequest => m.requestNet
  | .delaying _ _ | .sendResponse _ => none

def targetPhase0 (port : TargetPort) (m : TargetModule n τ) : TargetModule n τ :=
  let m := { m with state := P.tick port m.state }
  match m.control with
  | .getRequest =>
    match m.requestNet with
    | some request =>
      let a := (P.target port).access request.value m.state
      { m with
        control := .countdown (P.targetDelay port) { request with value := a.1 }
        state := a.2
        requestNet := none }
    | none => m
  | .delaying cycles response => { m with control := .countdown cycles response }
  | .sendResponse _ => m

def targetPhase1 : TargetModule n τ :=
  match m.control with
  | .sendResponse response =>
    match m.responseNet with
    | none => { m with control := .getRequest, responseNet := some response }
    | some _ => m
  | .getRequest | .delaying _ _ => m

/-- The response is pulled, and with it any invalidate. -/
def corePhase0 (c : CorePort n) : CorePort n :=
  let c := { c with invalidateNet := none }
  match c.control with
  | .getResponse =>
    match c.responseNet with
    | some response =>
      { c with
        control := .idle 0
        responseNet := none
        received := c.received ++ [(response.core, response.number)] }
    | none => c
  | .idle _ | .sendRequest _ => c

variable (grants : Nat)

def pushRequest (request : RequestToken n) (c : CorePort n) : CorePort n :=
  match c.requestNet with
  | none => { c with control := .getResponse, requestNet := some request, arrived := grants }
  | some _ => { c with control := .sendRequest request }

/-- The next request is made when its time has come. -/
def corePhase1 (i : Fin (n + 1)) (c : CorePort n) : CorePort n :=
  match c.control with
  | .idle cycles =>
    match w.gap i c.made with
    | some gap =>
      if gap ≤ cycles then
        pushRequest grants { core := i, number := c.made, value := w.request i c.made }
          { c with made := c.made + 1 }
      else { c with control := .idle (cycles + 1) }
    | none => { c with control := .idle (cycles + 1) }
  | .sendRequest request => pushRequest grants request c
  | .getResponse => c

/-! ## Cycles -/

/-- The targets and the cores in phase 0. -/
def othersPhase0 : BridgeSystem n τ :=
  { s with
    targets := fun port => targetPhase0 P port (s.targets port)
    cores := fun i => corePhase0 (s.cores i)
    reached := s.reached ++ (pulled (s.targets .memory)).toList ++
      (pulled (s.targets .devices)).toList }

/-- The targets and the cores in phase 1. -/
def othersPhase1 : BridgeSystem n τ :=
  { s with
    targets := fun port => targetPhase1 (s.targets port)
    cores := fun i => corePhase1 w s.grants.length i (s.cores i) }

def phase0 : Option (BridgeSystem n τ) :=
  (s.bridgePhase0 P).map (othersPhase0 P)

def phase1 : Option (BridgeSystem n τ) :=
  (s.bridgePhase1 P).map (othersPhase1 w)

def cycle : Option (BridgeSystem n τ) := (s.phase0 P).bind (phase1 P w)

/-- The system at the start. -/
def initial (x : TargetPort → τ) : BridgeSystem n τ :=
  { bridge :=
      { control := .waiting
        granted := Fin.last n
        busLocked := false
        targetPort := none
        lastInvalidate := fun _ => none }
    targets := fun port =>
      { control := .getRequest, state := x port, requestNet := none, responseNet := none }
    cores := fun _ =>
      { control := .idle 0
        requestNet := none
        responseNet := none
        invalidateNet := none
        made := 0
        received := []
        arrived := 0 }
    grants := []
    reached := [] }

/-- The system after some cycles. -/
def after (cycles : Nat) (s : BridgeSystem n τ) : Option (BridgeSystem n τ) :=
  Progress.iterate (cycle P w) cycles s

end BridgeSystem

end SparcV8
