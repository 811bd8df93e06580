import AdvancedInterrupts.Bench.World
import AdvancedInterrupts.Software.Machine

/-!
# Sessions

A session builds the platform of a scenario and performs its operations in
order. Handlers do what their scripts say, which may be any operation again.
-/
namespace AdvancedInterrupts.Bench

/-- The interface of the software on the bench. -/
abbrev benchSoftware : Interface := software ControllerId Nat worldAccess

structure Handles where
  aplics : List (Option Aplic)
  imsic : Option Imsic

namespace Handles

variable (handles : Handles)

def aplic? (index : Nat) : Option Aplic := handles.aplics[index]?.join

/-- A step of the driver of a domain, as an access to the world. -/
def ofWindow (op : WindowAccess) : Program worldAccess op.Answer :=
  .ask (WorldAccess.window op) .done

/-- A step of the driver of the interrupt files, as an access to the world. -/
def ofFiles (op : FileAccess) : Program worldAccess op.Answer :=
  .ask (WorldAccess.files op) .done

/-- A controller, if it was built. -/
def controller? : ControllerId → Option (Controller worldAccess)
  | .aplic index => (handles.aplic? index).map fun a => a.controller.expand ofWindow
  | .imsic => handles.imsic.map fun m => m.controller.expand ofFiles

/-- A controller without sources. -/
def idle : Controller worldAccess where
  setUp := pure ()
  setUpHart _ := pure ()
  configure _ _ := pure ()
  claim _ := pure .spurious
  causeRegister := .scause

/-- A controller. One that was not built has no interrupts. -/
def controller (id : ControllerId) : Controller worldAccess :=
  (handles.controller? id).getD idle

end Handles

namespace Reply

def ofIdc : (op : IdcOperation) → Option op.Answer → Reply
  | _, none => .nothing
  | .reset, some _ | .setDelivery _, some _ | .setForce _, some _ | .setThreshold _, some _ =>
    .accepted
  | .delivery, some on | .force, some on => .flag on
  | .threshold, some value => .number value
  | .top, some c | .claim, some c => .claim c

def ofAplic : (op : AplicOperation) → op.Answer → Reply
  | .domainConfig, word | .sourceConfig _, word | .target _, word => .number word.toNat
  | .isForwarding, on | .isEnabled _, on | .isPending _, on | .inputLevel _, on => .flag on
  | .mode _, found => (found.map Reply.mode).getD .nothing
  | .priority _, value | .hart _, value => .number value
  | .probe, found => .implemented found.length (Run.ofEntries 1 (found.map fun source => (source, 1)))
  | .claim _, c => .claim c
  | .idcIndex _, index => (index.map Reply.number).getD .nothing
  | .idc _ op, answer => ofIdc op answer
  | .reset, _ | .setUpHart _, _ | .setDomainConfig _, _ | .setSourceConfig _ _, _
  | .setMode _ _, _ | .enable _, _ | .disable _, _ | .setPending _, _ | .clearPending _, _
  | .setTarget _ _ _, _ | .setPriority _ _, _ | .setHart _ _, _ | .setMsiTarget _ _ _ _, _
  | .configure _ _, _ => .nothing

def ofMessage : MessageOutcome → Reply
  | .sent | .dropped => .nothing
  | .unaddressable => .fault "attempt to multiply with overflow"

def ofImsic : (op : ImsicOperation) → op.Answer → Reply
  | .isEnabled _, on => .flag on
  | .threshold, value => .number value
  | .claimLocal, c => .claim c
  | .sendMessage _ _, outcome | .sendIpi _, outcome => ofMessage outcome
  | .setUp, _ | .setUpHart _, _ | .setUpLocal, _ | .enable _, _ | .disable _, _
  | .setThreshold _, _ | .configure _ _, _ => .nothing

end Reply

namespace Operation

/-- Performs an access to the world. -/
def world (op : WorldAccess) : Program benchSoftware op.Answer :=
  .ask (Request.device op) .done

/-- Runs a routine of a controller, if the controller was built. -/
def onController (handles : Handles) (id : ControllerId)
    (p : Controller worldAccess → Program benchSoftware Reply) : Program benchSoftware Reply :=
  match handles.controller? id with
  | some c => p c
  | none => pure .absent

/-- What an operation makes the software of the platform do. -/
def program (handles : Handles) : Operation → Program benchSoftware Reply
  | aplic index op =>
    match handles.aplic? index with
    | some a => do
      let answer ← Request.onDevices ((op.program a).expand Handles.ofWindow)
      pure (.ofAplic op answer)
    | none => pure .absent
  | aplicConfig index =>
    match handles.aplic? index with
    | some a => pure (.config a.sources a.idcs a.delivery ((List.range 4).map a.idcOfHart))
    | none => pure .absent
  | imsic op =>
    match handles.imsic with
    | some m => do
      let answer ← Request.onDevices ((op.program m).expand Handles.ofFiles)
      pure (.ofImsic op answer)
    | none => pure .absent
  | setMode index source code =>
    match handles.aplic? index, SourceMode.ofCode? code with
    | some a, some mode => do
      Request.onDevices ((a.setMode source mode).expand Handles.ofWindow)
      pure .nothing
    | some _, none => pure (.invalidMode code)
    | none, _ => pure .absent
  | configure id source code hart priority =>
    onController handles id fun c =>
      match SourceMode.ofCode? code with
      | some mode => do
        Request.onDevices (c.configure source ⟨mode, hart, priority⟩)
        pure .nothing
      | none => pure (.invalidMode code)
  | causeRegister id => onController handles id fun c => pure (.causeRegister c.causeRegister)
  | drain id hart => onController handles id fun _ => do
    Request.run (.drain id hart)
    pure .nothing
  | trap id hart => onController handles id fun _ => do
    Request.run (.trap id hart)
    pure .nothing
  | trapState id hart => onController handles id fun _ =>
    .ask (Request.trapState id hart) fun state => pure (.trapState state)
  | device op => world (.device op)
  | file op => world (.file op)
  | setScause value => do
    world (.setScause value)
    pure .nothing
  | setStopi value => do
    world (.setStopi value)
    pure .nothing
  | setHandler identity handler => do
    Software.setHandler identity handler
    pure .nothing
  | clearHandler identity => do
    Software.clearHandler identity
    pure .nothing
  | hasHandler identity => do
    let found ← Software.hasHandler identity
    pure (.flag found)
  | dispatch identity => do
    Request.run (.dispatch identity)
    pure .nothing
  | script handler operations => do
    world (.addScript handler operations)
    pure .nothing

end Operation

/-- What a handler does: the operations of its next script. -/
def handlerProgram (handles : Handles) (handler : Nat) : Program benchSoftware Unit :=
  .ask (Request.device (.takeScript handler)) fun operations =>
    operations.forM fun op => do
      let reply ← op.program handles
      Operation.world (.recordReply reply)

/-- The platform of a session. -/
def platform (handles : Handles) : Platform ControllerId Nat worldAccess World where
  controller := handles.controller
  behaviour handler _ := handlerProgram handles handler
  device := World.service
  csr := World.csrService
  report notice w := w.note notice
  started handler identity w := w.record (.handlerStart handler identity)

/-- The state of a session between two operations. -/
abbrev BenchMachine : Type := Machine ControllerId Nat worldAccess World

namespace Session

/-- More steps than an operation takes, unless it runs forever. -/
def stepLimit : Nat := 10000000

/-- Performs an operation to its end. -/
def perform (handles : Handles) (m : BenchMachine) (op : Operation) :
    StepReport Reply × BenchMachine :=
  let program : Program benchSoftware Unit := do
    let reply ← op.program handles
    Operation.world (.giveReply reply)
  let m := (m.load program).run (platform handles) stepLimit
  match m with
  | ⟨world, handlers, inTrap, stack⟩ =>
    let reply := if stack.isEmpty then world.reply else .unfinished
    let (events, world) := world.takeEvents
    (⟨reply, events⟩, ⟨world, handlers, inTrap, []⟩)

def performAll (handles : Handles) : BenchMachine → List Operation → List (StepReport Reply)
  | _, [] => []
  | m, op :: rest =>
    let (report, m) := perform handles m op
    report :: performAll handles m rest

/-- Whether something was built, recording why not. -/
def built {α : Type} (w : World) : Except Notice α → Option α × World
  | .ok a => (some a, w)
  | .error notice => (none, w.note notice)

def buildDevice (w : World) : Option DeviceConfig → Option Bool × World
  | none => (none, w)
  | some (.emulated address sourceCount idcCount) =>
    let (device, w) := built w (EmulatedDomain.create address sourceCount idcCount)
    (some device.isSome, { w with device := device.map .emulated })
  | some .memory => (some true, w.setDevice (.memory .empty))
  | some .mapped => (some true, w.setDevice (.mapped .empty))

/-- Builds the handles on the domain; without a device there are none. -/
def buildAplics (w : World) : List AplicConfig → List (Option Bool × Option Aplic) × World
  | [] => ([], w)
  | config :: rest =>
    if w.device.isSome then
      let (handle, w) := built w (Aplic.create config)
      let (others, w) := buildAplics w rest
      ((some handle.isSome, handle) :: others, w)
    else
      let (others, w) := buildAplics w rest
      ((none, none) :: others, w)

def buildImsic (w : World) : Option ImsicConfig → Option Bool × Option Imsic × World
  | none => (none, none, w)
  | some config =>
    let (handle, w) := built w (Imsic.create config)
    (some handle.isSome, handle, w)

def initialWorld (s : Scenario) : World where
  trace := s.trace
  logging := s.logging
  device := none
  file := .reset s.hart
  scause := 0
  stopi := 0
  scripts := []
  events := []
  reply := .nothing

/-- Builds the platform of a scenario and performs its operations. -/
def report (s : Scenario) : Report :=
  let (device, w) := buildDevice (initialWorld s) s.device
  let (aplics, w) := buildAplics w s.aplics
  let (imsicBuilt, imsic, w) := buildImsic w s.imsic
  let (events, w) := w.takeEvents
  let handles : Handles := ⟨aplics.map Prod.snd, imsic⟩
  let m : BenchMachine := ⟨w, .fill _ none, [], []⟩
  ⟨⟨⟨device, aplics.map Prod.fst, imsicBuilt⟩, events⟩, performAll handles m s.operations⟩

end Session

end AdvancedInterrupts.Bench
