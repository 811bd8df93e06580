import AdvancedInterrupts.Software.Handlers
import AdvancedInterrupts.Software.TrapCause

/-!
# The trap entry

A trap entry keeps one flag for each hart, and nobody else has access to it. The
trap of a hart sets the flag, and is dropped if it was set already. Otherwise it
reads the cause from the register that its controller names, drains the
controller or dispatches the local interrupt, and clears the flag at its end. A
cause in the top interrupt register is handled with external interrupts off.
-/
namespace AdvancedInterrupts

/-- Harts that a trap entry keeps state for. -/
def trapHarts : Nat := 64

/-- An access to the flag of a hart. -/
inductive TrapFlag (ι : Type) where
  /-- Sets the flag, and answers what it was. -/
  | swap (controller : ι) (hart : Nat)
  | clear (controller : ι) (hart : Nat)
deriving DecidableEq, Repr

abbrev TrapFlag.Answer {ι : Type} : TrapFlag ι → Type
  | swap _ _ => TrapState
  | clear _ _ => Unit

abbrev trapFlags (ι : Type) : Interface := ⟨TrapFlag ι, TrapFlag.Answer⟩

namespace TrapEntry

variable {ι κ : Type} {E : Interface}

/-- Sets the flag of a hart, or tells why the trap is dropped. -/
def enter (controller : ι) (hart : Nat) : Program (trapFlags ι) (Option Notice) :=
  if trapHarts ≤ hart then pure (some (.trapHartOutOfRange hart))
  else
    .ask (TrapFlag.swap controller hart) fun
      | .inTrap => pure (some (.trapNested hart))
      | .normal => pure none

/-- Clears the flag of a hart. -/
def leave (controller : ι) (hart : Nat) : Program (trapFlags ι) Unit :=
  .ask (TrapFlag.clear controller hart) .done

/-- Dispatches a local interrupt. The software interrupt is no longer pending afterwards, since no
controller withdraws it. -/
def dispatchLocal (code : Nat) : Program (software ι κ E) Unit :=
  match localIdentity? code with
  | none => pure ()
  | some identity => do
    Request.run (.dispatch identity)
    if identity = ipiDispatchIdentity then Request.onCsr .clearSoftPending else pure ()

/-- Handles the cause in the trap cause register. -/
def handleScause (controller : ι) (hart : Nat) : Program (software ι κ E) Unit :=
  .ask (Request.csr .scause) fun scause =>
    match TrapCause.ofScause scause with
    | .external => Request.run (.drain controller hart)
    | .localInterrupt code => dispatchLocal code
    | .exception code => Request.note (.trapException hart code)

/-- Handles an interrupt by its code. -/
def handleCode (controller : ι) (hart code : Nat) : Program (software ι κ E) Unit :=
  if TrapCause.isExternal code then Request.run (.drain controller hart) else dispatchLocal code

/-- Handles the cause in the top interrupt register; there is none when it is zero. -/
def handleStopi (controller : ι) (hart : Nat) : Program (software ι κ E) Unit :=
  .ask (Request.csr .stopi) fun stopi =>
    if stopi = 0 then pure ()
    else do
      Request.onCsr (.setExternalEnabled false)
      handleCode controller hart (TrapCause.stopiCode stopi)
      Request.onCsr (.setExternalEnabled true)

/-- Handles the cause of a trap. -/
def handleCause (source : CauseRegister) (controller : ι) (hart : Nat) :
    Program (software ι κ E) Unit :=
  match source with
  | .scause => handleScause controller hart
  | .stopi => handleStopi controller hart

/-- What the trap of a hart does after it has set its flag: it handles its cause, and then gives the
flag up. -/
def handle (source : CauseRegister) (controller : ι) (hart : Nat) :
    Program (software ι κ E) Outcome := do
  handleCause source controller hart
  pure .released

end TrapEntry

end AdvancedInterrupts
