/-!
# Trap causes

Why a hart entered its trap vector. The trap cause register has a flag for
interrupts in its top bit and a code below it; the top interrupt register of
the hart has the code in bits 27:16. External interrupts belong to the
controller. Every other interrupt is local to the hart and is dispatched under
an identity above those of the controllers.
-/
namespace AdvancedInterrupts

/-- Why a trap was taken. -/
inductive TrapCause where
  /-- An interrupt that the controller owns. -/
  | external
  /-- Any other interrupt, by its code. -/
  | localInterrupt (code : Nat)
  /-- A synchronous exception, by its code. -/
  | exception (code : Nat)
deriving DecidableEq, Repr

namespace TrapCause

/-- The code of the interrupt that another hart or this one raised by software. -/
def softwareCode : Nat := 1

def timerCode : Nat := 5

/-- The code of the external interrupt of user mode. -/
def userExternalCode : Nat := 8

/-- The code of the external interrupt of supervisor mode. -/
def supervisorExternalCode : Nat := 9

/-- Whether an interrupt code belongs to the controller. -/
def isExternal (code : Nat) : Bool :=
  code == supervisorExternalCode || code == userExternalCode

/-- The cause in the trap cause register. -/
def ofScause (scause : BitVec 64) : TrapCause :=
  let code := (scause.setWidth 63).toNat
  if scause.msb then if isExternal code then external else localInterrupt code
  else exception code

/-- The interrupt code in the top interrupt register. -/
def stopiCode (stopi : BitVec 64) : Nat := (stopi.extractLsb' 16 12).toNat

end TrapCause

/-- The first identity for local interrupts. -/
def localBase : Nat := 1024

/-- The identity of the interrupts that harts send to each other. -/
def ipiDispatchIdentity : Nat := localBase + TrapCause.softwareCode

def timerDispatchIdentity : Nat := localBase + TrapCause.timerCode

/-- The identity of a local interrupt, if it is a number of 32 bits. -/
def localIdentity? (code : Nat) : Option Nat :=
  if code + localBase < 0x100000000 then some (code + localBase) else none

end AdvancedInterrupts
