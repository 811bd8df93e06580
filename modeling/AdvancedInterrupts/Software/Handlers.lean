import AdvancedInterrupts.Controller
import AdvancedInterrupts.Software.Request
import AdvancedInterrupts.Table

/-!
# Handlers and dispatch

The handler table has one slot per identity, for the sources of the controllers
and for the local interrupts behind them. A drain takes one interrupt after the
other from a controller and dispatches it, until a claim is spurious.
-/
namespace AdvancedInterrupts

/-- The slots of the handler table. -/
def handlerSlots : Nat := 1030

/-- The handler registered for each identity, if any. -/
abbrev HandlerTable (κ : Type) : Type := Table handlerSlots (Option κ)

/-- What becomes of a routine whose program is done. -/
inductive Outcome where
  /-- It returns to its caller. -/
  | finished
  /-- It starts once more. -/
  | again
  /-- It returns to its caller, and gives up the flag that it has set as a trap. -/
  | released
deriving DecidableEq, Repr

namespace Software

variable {ι κ : Type} {E : Interface}

/-- Registers a handler in place of any previous one. -/
def setHandler (identity : Nat) (handler : κ) : Program (software ι κ E) Unit :=
  if identity < handlerSlots then .ask (Request.install identity handler) .done
  else Request.note (.noHandlerSlot identity)

def clearHandler (identity : Nat) : Program (software ι κ E) Unit :=
  .ask (Request.remove identity) .done

def handler? (identity : Nat) : Program (software ι κ E) (Option κ) :=
  .ask (Request.lookup identity) .done

def hasHandler (identity : Nat) : Program (software ι κ E) Bool := do
  let handler ← handler? identity
  pure handler.isSome

/-- Runs the handler registered for an identity; without one the interrupt is dropped. -/
def dispatch (identity : Nat) : Program (software ι κ E) Unit := do
  match ← handler? identity with
  | some handler => Request.run (.handler handler identity)
  | none => Request.note (.unhandled identity)

/-- One round of a drain: claims an interrupt and dispatches it, unless there was none. -/
def drainRound (controller : Controller E) (hart : Nat) :
    Program (software ι κ E) Outcome := do
  let claim ← Request.onDevices (controller.claim hart)
  if claim.isSpurious then pure .finished
  else do
    Request.run (.dispatch claim.identity)
    pure .again

end Software

end AdvancedInterrupts
