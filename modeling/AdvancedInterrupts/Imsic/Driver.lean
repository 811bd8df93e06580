import AdvancedInterrupts.Controller
import AdvancedInterrupts.Imsic.Handle

/-!
# The driver of interrupt files

The receiver of message-signalled interrupts. All operations act on the file of
the running hart, apart from sending a message to the file of another one.
-/
namespace AdvancedInterrupts

/-- The identity that stands for an interrupt from another hart. -/
def ipiIdentity : Nat := 1

/-- What became of a message. -/
inductive MessageOutcome where
  | sent
  /-- There is no file for that hart. -/
  | dropped
  /-- The file of the hart would be outside the address space. -/
  | unaddressable
deriving DecidableEq, Repr

namespace Imsic

def readIndirect (register : Nat) : Program interruptFiles (BitVec 64) :=
  .ask (FileAccess.readIndirect register) .done

def writeIndirect (register : Nat) (value : BitVec 64) : Program interruptFiles Unit :=
  .ask (FileAccess.writeIndirect register value) .done

def report (notice : Notice) : Program interruptFiles Unit :=
  .ask (FileAccess.report notice) .done

variable (m : Imsic)

/-- Reports a delivery register that did not keep its value. -/
def checkDelivery (value : BitVec 64) : Program interruptFiles Unit :=
  if value.getLsbD 0 then pure () else report .fileDeliveryRefused

/-- Turns delivery from the local file on, with no threshold and every identity enabled. -/
def setUpLocal : Program interruptFiles Unit := do
  writeIndirect FileRegister.delivery 1
  let delivery ← readIndirect FileRegister.delivery
  checkDelivery delivery
  writeIndirect FileRegister.threshold 0
  (List.range (max m.enableWords 1)).forM fun word =>
    writeIndirect (FileRegister.enableWord word) (BitVec.allOnes 64)

/-- Changes the enable bit of an identity. -/
def setEnabled (on : Bool) (identity : Nat) : Program interruptFiles Unit :=
  if m.hasIdentity identity then do
    let (register, bit) := FileRegister.enablePosition identity
    let value ← readIndirect register
    let mask := BitVec.twoPow 64 bit
    writeIndirect register (if on then value ||| mask else value &&& ~~~mask)
  else pure ()

def enable (identity : Nat) : Program interruptFiles Unit := m.setEnabled true identity

def disable (identity : Nat) : Program interruptFiles Unit := m.setEnabled false identity

def isEnabled (identity : Nat) : Program interruptFiles Bool :=
  if m.hasIdentity identity then do
    let (register, bit) := FileRegister.enablePosition identity
    let value ← readIndirect register
    pure (value.getLsbD bit)
  else pure false

/-- Masks the identities from the threshold on; zero masks none. -/
def setThreshold (threshold : Nat) : Program interruptFiles Unit :=
  if threshold ≤ m.identities then
    writeIndirect FileRegister.threshold (BitVec.ofNat 64 threshold)
  else report (.fileThresholdDropped threshold)

def threshold : Program interruptFiles Nat := do
  let value ← readIndirect FileRegister.threshold
  pure (value.setWidth 32).toNat

/-- Claims the top interrupt of the local file. -/
def claimLocal : Program interruptFiles Claim :=
  .ask (FileAccess.swapTop 0) fun value => .done (Claim.ofFileWord (value.setWidth 32))

/-- Raises an identity in the file of a hart, in a build that checks for overflow. Without the check
nothing is `unaddressable`: the message is written wherever the wrapped product leads to, and this
may be the file of another hart. -/
def sendMessage (hart data : Nat) : Program interruptFiles MessageOutcome :=
  if hart < m.harts then
    match m.fileOffset? hart with
    | some offset =>
      .ask (FileAccess.writeMessage offset (BitVec.ofNat 32 data)) fun _ => .done .sent
    | none => pure .unaddressable
  else do
    report (.messageDropped hart)
    pure .dropped

def sendIpi (hart : Nat) : Program interruptFiles MessageOutcome :=
  m.sendMessage hart ipiIdentity

/-- Announces the files; their set-up is up to each hart. -/
def setUp : Program interruptFiles Unit := report (.filesInitialized m.harts m.identities)

/-- Sets up the file of the running hart. -/
def setUpHart (hart : Nat) : Program interruptFiles Unit := do
  m.setUpLocal
  report (.fileInitialized hart)

/-- Enables an identity, where the mode of its source has no meaning. It acts on the running
hart only. -/
def configure (identity : Nat) (wiring : Wiring) : Program interruptFiles Unit :=
  if m.knowsHart then
    .ask FileAccess.currentHart fun running =>
      if running = wiring.hart then enableLocal
      else report (.identityOnOtherHart identity wiring.hart running)
  else enableLocal
where
  /-- Enables the identity on the running hart. -/
  enableLocal : Program interruptFiles Unit := do
    report (.identityConfigured identity wiring.hart wiring.mode)
    m.enable identity

/-- The files as an interrupt controller. -/
def controller : Controller interruptFiles where
  setUp := m.setUp
  setUpHart := m.setUpHart
  configure := m.configure
  claim _ := claimLocal
  causeRegister := .stopi

end Imsic

end AdvancedInterrupts
