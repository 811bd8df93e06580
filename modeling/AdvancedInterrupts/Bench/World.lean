import AdvancedInterrupts.Bench.FileModel
import AdvancedInterrupts.Bench.Scenario
import AdvancedInterrupts.Emulated.Access
import AdvancedInterrupts.Software.Request

/-!
# The simulated world

Everything outside the drivers: the device behind the window, the interrupt
file, the control registers of the trap entry, the scripts of the handlers, and
the record of events. The recorded order is the order in which things happen: a
write is recorded before it takes effect and a read after it was answered.
-/
namespace AdvancedInterrupts.Bench

/-- The device behind the register window. -/
inductive Device where
  | emulated (domain : EmulatedDomain)
  | memory (memory : Memory)
  | mapped (memory : Memory)

/-- The state of the platform outside the drivers. -/
structure World where
  trace : Bool
  logging : Bool
  device : Option Device
  file : FileModel
  scause : BitVec 64
  stopi : BitVec 64
  /-- What handlers have yet to do, oldest first. -/
  scripts : List (Nat × List Operation)
  /-- What happened since the record was last taken, newest first. -/
  events : List Event
  /-- The reply of the operation under way. -/
  reply : Reply

/-- An access of the bench's software to the world. -/
inductive WorldAccess where
  | window (op : WindowAccess)
  | files (op : FileAccess)
  | device (op : DeviceOperation)
  | file (op : FileOperation)
  | setScause (value : BitVec 64)
  | setStopi (value : BitVec 64)
  | addScript (handler : Nat) (operations : List Operation)
  /-- Takes the next script of a handler. -/
  | takeScript (handler : Nat)
  /-- Records the reply of an operation of a script. -/
  | recordReply (reply : Reply)
  /-- Gives the reply of the operation under way. -/
  | giveReply (reply : Reply)

abbrev WorldAccess.Answer : WorldAccess → Type
  | window op => op.Answer
  | files op => op.Answer
  | device _ | file _ => Reply
  | takeScript _ => List Operation
  | setScause _ | setStopi _ | addScript _ _ | recordReply _ | giveReply _ => Unit

/-- The interface of the bench's software to the world. -/
abbrev worldAccess : Interface := ⟨WorldAccess, WorldAccess.Answer⟩

/-- The registers of an emulated domain, read through its window. Claiming is left out, since it
would change the domain. -/
def dumpDomain (d : EmulatedDomain) : Reply :=
  let value (r : Register) : Nat := (d.windowRead r.offset).1.toNat
  let runs (numbers : List Nat) (r : Nat → Register) : List Run :=
    Run.ofEntries 1 (numbers.map fun number => (number, value (r number)))
  let sources := List.range' 1 (d.sourceCount - 1)
  let words := List.range bitWords
  .domain (value .domainConfig) (runs sources .sourceConfig) (runs sources .target)
    (runs words .setPending) (runs words .setEnable)
    ((List.range d.idcCount).map fun index =>
      [IdcRegister.delivery, .force, .threshold, .top].map fun r => value (.idc index r))

namespace World

variable (w : World)

def record (e : Event) : World := { w with events := e :: w.events }

def recordAccess (e : Event) : World := if w.trace then w.record e else w

def note (notice : Notice) : World := if w.logging then w.record (.notice notice) else w

def setDevice (device : Device) : World := { w with device := some device }

/-- The world without its device, so that the device can be changed in place. -/
def takeDevice : World := { w with device := none }

def readWindow (offset : Nat) : Word × World :=
  match w.device with
  | none => (0, w)
  | some (.emulated d) =>
    let w := w.takeDevice
    let address := d.addressOf offset
    if d.accepts address .dword then
      let answered := d.windowRead offset
      (answered.1, w.setDevice (.emulated answered.2))
    else (0, (w.setDevice (.emulated d)).note (.badRead address .dword))
  | some (.memory m) =>
    let answered := m.read offset
    (answered.1, w.takeDevice.setDevice (.memory answered.2))
  | some (.mapped m) => ((m.read offset).1, w)

def writeWindow (offset : Nat) (value : Word) : World :=
  match w.device with
  | none => w
  | some (.emulated d) =>
    let w := w.takeDevice
    let address := d.addressOf offset
    if d.accepts address .dword then w.setDevice (.emulated (d.windowWrite offset value))
    else (w.setDevice (.emulated d)).note (.badWrite address .dword)
  | some (.memory m) => w.takeDevice.setDevice (.memory (m.write offset value))
  | some (.mapped m) => w.takeDevice.setDevice (.mapped (m.write offset value))

def tracedRead (offset : Nat) : Word × World :=
  let answered := w.readWindow offset
  (answered.1, answered.2.recordAccess (.windowRead offset answered.1))

def tracedWrite (offset : Nat) (value : Word) : World :=
  (w.recordAccess (.windowWrite offset value)).writeWindow offset value

/-- One step of the driver of a domain. -/
def windowService : Service window World
  | .read offset, w => w.tracedRead offset
  | .write offset value, w => ((), w.tracedWrite offset value)
  | .report notice, w => ((), w.note notice)

@[simp] theorem device_note (notice : Notice) : (w.note notice).device = w.device := by
  unfold note record
  split <;> rfl

@[simp] theorem device_recordAccess (e : Event) : (w.recordAccess e).device = w.device := by
  unfold recordAccess record
  split <;> rfl

/-- A driver of an emulated domain reads and writes it as its service says. -/
theorem windowService_emulated {w : World} {d : EmulatedDomain}
    (h : w.device = some (.emulated d)) (op : WindowAccess) :
    (windowService op w).1 = (EmulatedDomain.service op d).1 ∧
      (windowService op w).2.device = some (.emulated (EmulatedDomain.service op d).2) := by
  cases op with
  | read offset =>
    simp only [windowService, tracedRead, readWindow, h, EmulatedDomain.service,
      device_recordAccess]
    by_cases ha : d.accepts (d.addressOf offset) .dword = true
    · simp [ha, setDevice]
    · simp [ha, setDevice, EmulatedDomain.windowRead]
  | write offset value =>
    simp only [windowService, tracedWrite, writeWindow, device_recordAccess, h,
      EmulatedDomain.service]
    by_cases ha : d.accepts (d.addressOf offset) .dword = true
    · simp [ha, setDevice]
    · simp [ha, setDevice, EmulatedDomain.windowWrite]
  | report notice => exact ⟨rfl, (w.device_note notice).trans h⟩

/-- One step of the driver of the interrupt files. -/
def fileService : Service interruptFiles World
  | .readIndirect register, w =>
    let value := w.file.register register
    (value, w.recordAccess (.indirectRead register value))
  | .writeIndirect register value, w =>
    let w := w.recordAccess (.indirectWrite register value)
    ((), { w with file := w.file.writeRegister register value })
  | .swapTop written, w =>
    let swapped := w.file.swapTop
    (swapped.1, { w with file := swapped.2 }.recordAccess (.topSwap written swapped.1))
  | .writeMessage offset value, w => ((), w.record (.messageWrite offset value))
  | .currentHart, w => (w.file.hart, w)
  | .report notice, w => ((), w.note notice)

/-- The control registers of the trap entry. -/
def csrService : Service trapCsrs World
  | .scause, w => (w.scause, w.record (.scauseRead w.scause))
  | .stopi, w => (w.stopi, w.record (.stopiRead w.stopi))
  | .clearSoftPending, w => ((), w.record .softPendingClear)
  | .setExternalEnabled on, w => ((), w.record (.externalEnable on))

/-- An operation on an emulated domain, apart from reads and writes of its window. -/
def operateEmulated (d : EmulatedDomain) : DeviceOperation → Reply × World
  | .inject source => (.nothing, w.setDevice (.emulated (d.inject source)))
  | .guestRead address width =>
    match d.guestRead address width with
    | .ok answered => (.number answered.1.toNat, w.setDevice (.emulated answered.2))
    | .error notice => (.invalidInput, (w.setDevice (.emulated d)).note notice)
  | .guestWrite address width value =>
    match d.guestWrite address width value with
    | .ok after => (.accepted, w.setDevice (.emulated after))
    | .error notice => (.invalidInput, (w.setDevice (.emulated d)).note notice)
  | .describe =>
    (.emulatedDevice d.address d.size d.sourceCount d.idcCount, w.setDevice (.emulated d))
  | .addressRange =>
    (match d.addressRange with
      | .ok range => .addressRange range
      | .error overflow => .fault overflow.message,
      w.setDevice (.emulated d))
  | .dump => (dumpDomain d, w.setDevice (.emulated d))
  | _ => (.absent, w.setDevice (.emulated d))

/-- An operation on the device. A device that does not have it replies as if it were absent. -/
def operateDevice (op : DeviceOperation) : Reply × World :=
  match w.device, op with
  | none, _ => (.absent, w)
  | some _, .read offset =>
    let answered := w.tracedRead offset
    (.number answered.1.toNat, answered.2)
  | some _, .write offset value => (.nothing, w.tracedWrite offset value)
  | some (.emulated d), op => w.takeDevice.operateEmulated d op
  | some (.memory m), .queue offset values =>
    (.nothing, w.setDevice (.memory (m.queue offset values)))
  | some (.memory m), .dump => (.memory (Run.ofEntries 4 m.contents), w)
  | some (.mapped m), .dump => (.memory (Run.ofEntries 4 m.contents), w)
  | some (.mapped _), .describe => (.mappedDevice, w)
  | some _, _ => (.absent, w)

def setFile (file : FileModel) : World := { w with file }

/-- An operation on the model of the interrupt file. -/
def operateFile (op : FileOperation) : Reply × World :=
  let f := w.file
  match op with
  | .set register value => (.nothing, w.setFile (f.setRegister register value))
  | .get register => (.address (f.register register).toNat, w)
  | .protect register => (.nothing, w.setFile { f with readOnly := register :: f.readOnly })
  | .raise identity => (.nothing, w.setFile (f.raise identity))
  | .queueTops values =>
    (.nothing, w.setFile { f with queuedTops := f.queuedTops ++ values })
  | .moveTo hart => (.nothing, w.setFile { f with hart })
  | .dump => (.file f.contents f.pending, w)

/-- Takes the oldest script of a handler from a list of scripts. -/
def takeOldest (handler : Nat) :
    List (Nat × List Operation) → List Operation × List (Nat × List Operation)
  | [] => ([], [])
  | script :: rest =>
    if script.1 = handler then (script.2, rest)
    else
      let taken := takeOldest handler rest
      (taken.1, script :: taken.2)

/-- What every access of the bench's software answers. -/
def service : Service worldAccess World
  | .window op, w => windowService op w
  | .files op, w => fileService op w
  | .device op, w => w.operateDevice op
  | .file op, w => w.operateFile op
  | .setScause value, w => ((), { w with scause := value })
  | .setStopi value, w => ((), { w with stopi := value })
  | .addScript handler operations, w =>
    ((), { w with scripts := w.scripts ++ [(handler, operations)] })
  | .takeScript handler, w =>
    let taken := takeOldest handler w.scripts
    (taken.1, { w with scripts := taken.2 })
  | .recordReply reply, w => ((), w.record (.replied reply))
  | .giveReply reply, w => ((), { w with reply })

/-- The events recorded so far, oldest first, and the world with an empty record. -/
def takeEvents : List Event × World := (w.events.reverse, { w with events := [] })

end World

end AdvancedInterrupts.Bench
