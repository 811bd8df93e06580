import AdvancedInterrupts.Aplic.Handle

/-!
# Sources of a domain

Mode, enable bit, pending bit and target of a single source. A request that
cannot take effect is ignored, as the registers themselves would ignore it, and
a source that the domain does not have reads as zero.
-/
namespace AdvancedInterrupts.Aplic

variable (a : Aplic)

/-- Writes the configuration of a source, unless the word delegates the source or asks for a
reserved mode. -/
def setSourceConfig (source : Nat) (config : Word) : Program window Unit :=
  if a.hasSource source then
    match SourceMode.ofWord config with
    | .error .delegated => (Notice.sourceConfigDelegated source config).report
    | .error .reservedMode => (Notice.sourceConfigReserved source config).report
    | .ok mode => (Register.sourceConfig source).write mode.toWord
  else (Notice.sourceConfigInvalid source).report

def sourceConfig (source : Nat) : Program window Word :=
  if a.hasSource source then (Register.sourceConfig source).read else pure 0

def setMode (source : Nat) (mode : SourceMode) : Program window Unit :=
  a.setSourceConfig source mode.toWord

/-- The mode of a source, unless its register holds a reserved one. -/
def mode (source : Nat) : Program window (Option SourceMode) :=
  if a.hasSource source then do
    let config ← a.sourceConfig source
    pure (SourceMode.ofCode? (config.field SourceMode.field))
  else pure none

/-- Writes the number of a source to a register that acts on the named source only. -/
def writeNumber (register : Register) (source : Nat) : Program window Unit :=
  if a.hasSource source then register.write (BitVec.ofNat 32 source) else pure ()

/-- The bit of a source in an array with one bit per source. -/
def readBit (array : Nat → Register) (source : Nat) : Program window Bool :=
  if a.hasSource source then do
    let (word, bit) := bitPosition source
    let value ← (array word).read
    pure (value.getLsbD bit)
  else pure false

def enable (source : Nat) : Program window Unit := a.writeNumber .setEnableNumber source

def disable (source : Nat) : Program window Unit := a.writeNumber .clearEnableNumber source

def isEnabled (source : Nat) : Program window Bool := a.readBit .setEnable source

def setPending (source : Nat) : Program window Unit := a.writeNumber .setPendingNumber source

/-- Withdraws the pending interrupt of a source. -/
def clearPending (source : Nat) : Program window Unit := a.writeNumber .clearPendingNumber source

def isPending (source : Nat) : Program window Bool := a.readBit .setPending source

/-- The rectified level of the wire of a source. -/
def inputLevel (source : Nat) : Program window Bool := a.readBit .clearPending source

def target (source : Nat) : Program window Word :=
  if a.hasSource source then (Register.target source).read else pure 0

/-- Routes a source to a hart with a priority, where zero stands for the most urgent one. -/
def setTarget (source hart priority : Nat) : Program window Unit :=
  match a.delivery with
  | .msi => Notice.priorityTargetUnderMsi.report
  | .direct => do
    match ← a.hartField hart with
    | some field =>
      if a.hasSource source ∧ priority ≤ maxPriority then
        (Register.target source).write (Target.word field (max priority 1))
      else (Notice.targetDropped source hart priority).report
    | none => (Notice.targetDropped source hart priority).report

/-- Changes the priority of a source and keeps the rest of its target. -/
def setPriority (source priority : Nat) : Program window Unit :=
  if a.hasSource source ∧ 1 ≤ priority ∧ priority ≤ maxPriority then
    match a.delivery with
    | .direct => do
      let word ← (Register.target source).read
      (Register.target source).write (Target.withPriority word priority)
    | .msi => pure ()
  else (Notice.priorityDropped source priority).report

/-- The priority of a source. -/
def priority (source : Nat) : Program window Nat := do
  let word ← a.target source
  pure (Target.priority word)

/-- Routes a source to a hart and keeps the rest of its target. -/
def setHart (source hart : Nat) : Program window Unit := do
  match ← a.hartField hart with
  | some field =>
    if a.hasSource source then do
      let word ← (Register.target source).read
      (Register.target source).write (Target.withHart word field)
    else (Notice.hartDropped source hart).report
  | none => (Notice.hartDropped source hart).report

/-- The hart field of a source: a delivery structure or a hart, as the domain delivers. -/
def hart (source : Nat) : Program window Nat := do
  let word ← a.target source
  pure (Target.hart word)

/-- Routes a source to a hart as a message that carries an identity. Only the file of the
supervisor can be addressed, which is guest file 0. -/
def setMsiTarget (source hart guest identity : Nat) : Program window Unit :=
  if a.hasSource source ∧ hart < a.idcs ∧ identity ≤ Target.identityField.max then
    if guest = 0 then
      match a.delivery with
      | .msi => (Register.target source).write (Target.word hart identity)
      | .direct => Notice.msiTargetUnderDirect.report
    else (Notice.guestTargetDropped source guest).report
  else (Notice.msiTargetDropped source hart identity).report

end AdvancedInterrupts.Aplic
