import AdvancedInterrupts.AddressRange
import AdvancedInterrupts.Aplic.Operation
import AdvancedInterrupts.Bench.Memory
import AdvancedInterrupts.Imsic.Operation
import AdvancedInterrupts.Software.Request

/-!
# Scenarios

A scenario describes a simulated platform and what is done on it, one operation
after the other. Every operation has a reply, and is accompanied by the events
that it caused.
-/
namespace AdvancedInterrupts.Bench

/-- A controller of the platform: one of the handles on the domain, or the interrupt files. -/
inductive ControllerId where
  | aplic (index : Nat)
  | imsic
deriving DecidableEq, Repr

/-- The device behind the register window. -/
inductive DeviceConfig where
  | emulated (address sourceCount idcCount : Nat)
  /-- Word memory in which reads can be queued. -/
  | memory
  /-- Word memory behind a memory-mapped window. -/
  | mapped
deriving DecidableEq, Repr

/-- Something done to the device itself. -/
inductive DeviceOperation where
  | read (offset : Nat)
  | write (offset : Nat) (value : Word)
  | inject (source : Nat)
  | guestRead (address : Nat) (width : AccessWidth)
  | guestWrite (address : Nat) (width : AccessWidth) (value : BitVec 64)
  | describe
  | addressRange
  | queue (offset : Nat) (values : List Word)
  | dump
deriving DecidableEq, Repr

/-- Something done to the model of the interrupt file. -/
inductive FileOperation where
  | set (register : Nat) (value : BitVec 64)
  | get (register : Nat)
  | protect (register : Nat)
  | raise (identity : Nat)
  | queueTops (values : List (BitVec 64))
  | moveTo (hart : Nat)
  | dump
deriving DecidableEq, Repr

/-- One thing done on the platform. -/
inductive Operation where
  | aplic (handle : Nat) (op : AplicOperation)
  | aplicConfig (handle : Nat)
  | imsic (op : ImsicOperation)
  /-- Sets a source mode by its code. -/
  | setMode (handle source mode : Nat)
  /-- Configures a source with a mode given by its code. -/
  | configure (controller : ControllerId) (source mode hart priority : Nat)
  | causeRegister (controller : ControllerId)
  | drain (controller : ControllerId) (hart : Nat)
  | trap (controller : ControllerId) (hart : Nat)
  | trapState (controller : ControllerId) (hart : Nat)
  | device (op : DeviceOperation)
  | file (op : FileOperation)
  | setScause (value : BitVec 64)
  | setStopi (value : BitVec 64)
  | setHandler (identity handler : Nat)
  | clearHandler (identity : Nat)
  | hasHandler (identity : Nat)
  | dispatch (identity : Nat)
  /-- Gives a handler operations to do the next time it runs. -/
  | script (handler : Nat) (operations : List Operation)

inductive Reply where
  | nothing
  | accepted
  | number (value : Nat)
  | address (value : Nat)
  | flag (value : Bool)
  | claim (value : Claim)
  | mode (value : SourceMode)
  | causeRegister (value : CauseRegister)
  | trapState (value : TrapState)
  | implemented (count : Nat) (sources : List Run)
  | config (sources idcs : Nat) (delivery : DeliveryMode) (idcOfHart : List (Option Nat))
  | addressRange (range : AddressRange)
  | emulatedDevice (address size sourceCount idcCount : Nat)
  | mappedDevice
  | memory (words : List Run)
  | domain (config : Nat) (sourceConfigs targets pending enabled : List Run)
      (idcs : List (List Nat))
  | file (registers : List (Nat × Nat)) (pending : List Nat)
  /-- What the operation is about was never built. -/
  | absent
  /-- The device or a constructor refused its arguments. -/
  | invalidInput
  /-- A source mode code that stands for no mode. -/
  | invalidMode (code : Nat)
  /-- The operation broke off. -/
  | fault (message : String)
  /-- The operation did not come to an end. -/
  | unfinished
deriving Repr

/-- Something that happened during an operation. -/
inductive Event where
  | windowRead (offset : Nat) (value : Word)
  | windowWrite (offset : Nat) (value : Word)
  | indirectRead (register : Nat) (value : BitVec 64)
  | indirectWrite (register : Nat) (value : BitVec 64)
  | topSwap (written read : BitVec 64)
  | messageWrite (offset : Nat) (value : Word)
  | scauseRead (value : BitVec 64)
  | stopiRead (value : BitVec 64)
  | softPendingClear
  | externalEnable (on : Bool)
  | handlerStart (handler identity : Nat)
  /-- An operation of a script replied. -/
  | replied (reply : Reply)
  | notice (notice : Notice)
deriving Repr

/-- A platform and what is done on it. -/
structure Scenario where
  /-- Whether accesses to registers are recorded as events. -/
  trace : Bool
  /-- Whether notices are recorded as events. -/
  logging : Bool
  device : Option DeviceConfig
  aplics : List AplicConfig
  imsic : Option ImsicConfig
  /-- The hart that runs at the start. -/
  hart : Nat
  operations : List Operation

/-- What an operation, or the construction of the platform, gave. -/
structure StepReport (α : Type) where
  result : α
  events : List Event

/-- What became of each part when the platform was built: nothing when it was not asked for, and
otherwise whether its description was accepted. -/
structure Construction where
  device : Option Bool
  aplics : List (Option Bool)
  imsic : Option Bool
deriving DecidableEq, Repr

structure Report where
  construction : StepReport Construction
  steps : List (StepReport Reply)

end AdvancedInterrupts.Bench
