import AdvancedInterrupts.Aplic.Source

/-!
# Bringing a domain up

The reset of a domain, its configuration register, and the search for the
sources that it implements. Reset and search use the domain as a whole, so they
belong before any hart takes interrupts.
-/
namespace AdvancedInterrupts.Aplic

variable (a : Aplic)

/-- The configuration that a handle gives its domain. -/
def domainSetting (enabled : Bool) : Word :=
  DomainConfig.toWord ⟨false, a.delivery, enabled⟩

/-- Withdraws and disables all sources of every bit array. -/
def clearArrays : Program window Unit :=
  (List.range bitWords).forM fun word => do
    (Register.clearPending word).write (BitVec.allOnes 32)
    (Register.clearEnable word).write (BitVec.allOnes 32)

/-- Makes a source inactive. Under direct delivery it goes to the first delivery structure with the
most urgent priority. -/
def clearSource (source : Nat) : Program window Unit := do
  (Register.sourceConfig source).write SourceMode.inactive.toWord
  match a.delivery with
  | .direct => (Register.target source).write (BitVec.ofNat 32 defaultPriority)
  | .msi => pure ()

/-- Resets the domain. It forwards nothing until every source is inactive and nothing is pending
or enabled. -/
def reset : Program window Unit := do
  Register.domainConfig.write (a.domainSetting false)
  clearArrays
  a.sourceNumbers.forM a.clearSource
  Register.domainConfig.write (a.domainSetting true)
  (Notice.domainInitialized (a.sources - 1) a.delivery).report

/-- Writes the domain configuration register. -/
def setDomainConfig (config : Word) : Program window Unit := Register.domainConfig.write config

/-- The domain configuration register. -/
def domainConfig : Program window Word := Register.domainConfig.read

/-- Whether the domain forwards interrupts. -/
def isForwarding : Program window Bool := do
  let config ← domainConfig
  pure (DomainConfig.ofWord config).enabled

/-- Takes an enable bit back that was set for a moment. -/
def restoreEnable (source : Nat) (wasEnabled : Bool) : Program window Unit :=
  if wasEnabled then pure () else Register.clearEnableNumber.write (BitVec.ofNat 32 source)

/-- Whether the domain implements a source. An inactive source is made detached and enabled, and
is implemented if that sticks; both are undone. An active source is implemented and left alone, so
a live source is never enabled for a moment. -/
def probeSource (source : Nat) : Program window Bool := do
  let saved ← (Register.sourceConfig source).read
  if saved = SourceMode.inactive.toWord then do
    let wasEnabled ← a.isEnabled source
    (Register.sourceConfig source).write SourceMode.detached.toWord
    Register.setEnableNumber.write (BitVec.ofNat 32 source)
    let implemented ← a.isEnabled source
    restoreEnable source wasEnabled
    (Register.sourceConfig source).write saved
    pure implemented
  else pure true

/-- The sources found so far, in reverse, with those sources of a list that the domain
implements, in order. -/
def probeSources (found : List Nat) : List Nat → Program window (List Nat)
  | [] => pure found.reverse
  | source :: rest => do
    let implemented ← a.probeSource source
    probeSources (if implemented then source :: found else found) rest

/-- The numbers of the sources that the domain implements, ascending. -/
def probe : Program window (List Nat) := do
  let found ← a.probeSources [] a.sourceNumbers
  (Notice.sourcesImplemented found.length).report
  pure found

end AdvancedInterrupts.Aplic
