import AdvancedInterrupts.Aplic.Handle
import AdvancedInterrupts.Claim

/-!
# Interrupt delivery control

The delivery structure through which one hart takes the interrupts that a
domain delivers directly. Only the hart that owns it uses it.
-/
namespace AdvancedInterrupts

/-- The delivery structure with a given index. -/
structure Idc where
  index : Nat
deriving DecidableEq, Repr

namespace Idc

variable (i : Idc)

def register (r : IdcRegister) : Register := .idc i.index r

/-- Accepts every priority, with no forced interrupt and delivery on. -/
def reset : Program window Unit := do
  (i.register .threshold).write 0
  (i.register .force).write 0
  (i.register .delivery).write 1

def setDelivery (on : Bool) : Program window Unit := (i.register .delivery).write (Word.ofFlag on)

def delivery : Program window Bool := do
  let value ← (i.register .delivery).read
  pure (value.getLsbD 0)

def setForce (on : Bool) : Program window Unit := (i.register .force).write (Word.ofFlag on)

def force : Program window Bool := do
  let value ← (i.register .force).read
  pure (value.getLsbD 0)

/-- Masks the priorities from the threshold on; zero masks none. -/
def setThreshold (threshold : Nat) : Program window Unit :=
  if threshold ≤ maxPriority then (i.register .threshold).write (BitVec.ofNat 32 threshold)
  else (Notice.idcThresholdDropped i.index threshold).report

def threshold : Program window Nat := do
  let value ← (i.register .threshold).read
  pure value.toNat

/-- The interrupt that would be claimed next. -/
def top : Program window Claim := do
  let value ← (i.register .top).read
  pure (Claim.ofWord value)

/-- Claims the next interrupt. The read itself takes it, so the answer counts once. -/
def claim : Program window Claim := do
  let value ← (i.register .claim).read
  pure (Claim.ofWord value)

end Idc

/-- An operation on a delivery structure. -/
inductive IdcOperation where
  | reset
  | setDelivery (on : Bool)
  | delivery
  | setForce (on : Bool)
  | force
  | setThreshold (threshold : Nat)
  | threshold
  | top
  | claim
deriving DecidableEq, Repr

namespace IdcOperation

abbrev Answer : IdcOperation → Type
  | reset | setDelivery _ | setForce _ | setThreshold _ => Unit
  | delivery | force => Bool
  | threshold => Nat
  | top | claim => Claim

/-- The accesses of an operation. -/
def program (i : Idc) : (op : IdcOperation) → Program window op.Answer
  | reset => i.reset
  | setDelivery on => i.setDelivery on
  | delivery => i.delivery
  | setForce on => i.setForce on
  | force => i.force
  | setThreshold value => i.setThreshold value
  | threshold => i.threshold
  | top => i.top
  | claim => i.claim

end IdcOperation

/-- The delivery structure of a hart. -/
def Aplic.idc (a : Aplic) (hart : Nat) : Program window (Option Idc) := do
  let index ← a.idcIndex hart
  pure (index.map Idc.mk)

end AdvancedInterrupts
