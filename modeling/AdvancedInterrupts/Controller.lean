import AdvancedInterrupts.Claim
import AdvancedInterrupts.Program
import AdvancedInterrupts.SourceMode

/-!
# Interrupt controllers

What the rest of the software knows of a controller: how it is brought up, how
a source is wired to a hart, and how a hart takes its next interrupt.
-/
namespace AdvancedInterrupts

/-- How a source is wired up. The priority is the identity of the message when the controller
delivers messages. -/
structure Wiring where
  mode : SourceMode
  hart : Nat
  priority : Nat
deriving DecidableEq, Repr

/-- The control register that tells a hart why it was interrupted. -/
inductive CauseRegister where
  /-- The trap cause register, for a controller of the whole platform. -/
  | scause
  /-- The top interrupt register, for a controller inside the hart. -/
  | stopi
deriving DecidableEq, Repr

/-- The capabilities of a controller, as programs over the interface `I`. -/
structure Controller (I : Interface) where
  /-- Global set-up, once, on the boot hart. -/
  setUp : Program I Unit
  /-- Set-up of one hart. -/
  setUpHart (hart : Nat) : Program I Unit
  /-- Wires a source to a hart and lets it through. -/
  configure (source : Nat) (wiring : Wiring) : Program I Unit
  /-- Takes the next interrupt of a hart; the claim is spurious when there is none. -/
  claim (hart : Nat) : Program I Claim
  /-- Where the trap entry reads the cause of an interrupt. -/
  causeRegister : CauseRegister

namespace Controller

variable {I J : Interface}

/-- The same controller, reached through another interface. -/
def expand (f : (op : I.Op) → Program J (I.Answer op)) (c : Controller I) : Controller J where
  setUp := c.setUp.expand f
  setUpHart hart := (c.setUpHart hart).expand f
  configure source wiring := (c.configure source wiring).expand f
  claim hart := (c.claim hart).expand f
  causeRegister := c.causeRegister

end Controller

end AdvancedInterrupts
