import AdvancedInterrupts.Aplic.BringUp
import AdvancedInterrupts.Aplic.Delivery
import AdvancedInterrupts.Controller

/-!
# A domain as an interrupt controller

What the rest of the software needs of a domain: the set-up of the domain and
of each hart, the wiring of a source, and the next interrupt of a hart.
-/
namespace AdvancedInterrupts.Aplic

variable (a : Aplic)

/-- Sets up the delivery structure of a hart. -/
def setUpHart (hart : Nat) : Program window Unit := do
  match ← a.idc hart with
  | some i => do
    i.reset
    (Notice.idcInitialized hart i.index).report
  | none => (Notice.hartWithoutIdc hart).report

/-- Gives a source the target of its wiring. -/
def route (source : Nat) (wiring : Wiring) : Program window Unit :=
  match a.delivery with
  | .direct => a.setTarget source wiring.hart wiring.priority
  | .msi => a.setMsiTarget source wiring.hart 0 wiring.priority

/-- Gives a source its mode and its target, and enables it. The three steps are taken whether or
not the one before took effect. -/
def configure (source : Nat) (wiring : Wiring) : Program window Unit := do
  a.setMode source wiring.mode
  a.route source wiring
  a.enable source

/-- Claims the next interrupt of a hart; there is none for a hart without delivery structure. -/
def claim (hart : Nat) : Program window Claim := do
  match ← a.idc hart with
  | some i => i.claim
  | none => pure Claim.spurious

/-- A claim is the read of one register. -/
theorem claim_eq {a : Aplic} {hart i : Nat} (hmap : a.idcOfHart hart = some i) (hi : i < a.idcs) :
    a.claim hart = .ask (WindowAccess.read (Register.idc i .claim).offset) fun word =>
      .done (Claim.ofWord word) := by
  simp only [claim, idc, idcIndex, hmap, if_pos hi]
  rfl

/-- The domain as an interrupt controller. -/
def controller : Controller window where
  setUp := a.reset
  setUpHart := a.setUpHart
  configure := a.configure
  claim := a.claim
  causeRegister := .scause

end AdvancedInterrupts.Aplic
