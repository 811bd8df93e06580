import AdvancedInterrupts.Notice
import AdvancedInterrupts.Program

/-!
# What interrupt software asks for

The trap entry, the drain loop and the handlers are programs over one
interface: operations on devices, the control registers of the trap entry, the
handler table, and calls of further routines. The controllers are told apart by
an index type `ι` and the handlers by a type `κ`; `E` is the interface to the
devices.
-/
namespace AdvancedInterrupts

/-- An access to the control registers of the trap entry. -/
inductive TrapCsr where
  /-- Reads the trap cause. -/
  | scause
  /-- Reads the top interrupt. -/
  | stopi
  /-- Clears the pending bit of the software interrupt, which no controller clears. -/
  | clearSoftPending
  /-- Sets or clears the enable bit of external interrupts. -/
  | setExternalEnabled (on : Bool)
deriving DecidableEq, Repr

abbrev TrapCsr.Answer : TrapCsr → Type
  | scause | stopi => BitVec 64
  | clearSoftPending | setExternalEnabled _ => Unit

/-- The interface to the control registers of the trap entry. -/
abbrev trapCsrs : Interface := ⟨TrapCsr, TrapCsr.Answer⟩

/-- A piece of software that others can call. -/
inductive Routine (ι κ : Type) where
  /-- The trap entry of a controller, on a hart. -/
  | trap (controller : ι) (hart : Nat)
  /-- Takes the interrupts of a hart from a controller until there are none. -/
  | drain (controller : ι) (hart : Nat)
  /-- Runs the handler that is registered for an identity. -/
  | dispatch (identity : Nat)
  /-- A handler, with the identity it runs for. -/
  | handler (handler : κ) (identity : Nat)
deriving DecidableEq, Repr

/-- Whether a hart is inside a trap entry. -/
inductive TrapState where
  | normal
  | inTrap
deriving DecidableEq, Repr

/-- One step of interrupt software. -/
inductive Request (ι κ : Type) (E : Interface) where
  | device (op : E.Op)
  | csr (op : TrapCsr)
  | report (notice : Notice)
  /-- The handler registered for an identity. -/
  | lookup (identity : Nat)
  | install (identity : Nat) (handler : κ)
  | remove (identity : Nat)
  | trapState (controller : ι) (hart : Nat)
  /-- Runs a routine to its end. -/
  | call (routine : Routine ι κ)

abbrev Request.Answer {ι κ : Type} {E : Interface} : Request ι κ E → Type
  | device op => E.Answer op
  | csr op => op.Answer
  | lookup _ => Option κ
  | trapState _ _ => TrapState
  | report _ | install _ _ | remove _ | call _ => Unit

/-- The interface of interrupt software. -/
abbrev software (ι κ : Type) (E : Interface) : Interface := ⟨Request ι κ E, Request.Answer⟩

namespace Request

variable {ι κ α : Type} {E : Interface}

/-- Performs an operation of a device. -/
def onDevice (op : E.Op) : Program (software ι κ E) (E.Answer op) :=
  .ask (Request.device op) .done

/-- A program that uses devices only. -/
def onDevices (p : Program E α) : Program (software ι κ E) α := p.expand onDevice

def onCsr (op : TrapCsr) : Program (software ι κ E) op.Answer := .ask (Request.csr op) .done

def note (notice : Notice) : Program (software ι κ E) Unit := .ask (Request.report notice) .done

def run (routine : Routine ι κ) : Program (software ι κ E) Unit :=
  .ask (Request.call routine) .done

end Request

end AdvancedInterrupts
