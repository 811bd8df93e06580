import AdvancedInterrupts.DomainConfig
import AdvancedInterrupts.Hexadecimal
import AdvancedInterrupts.SourceMode

/-!
# Notices

Everything that the drivers and the emulated device report about themselves,
one constructor per event. A notice carries the numbers it is about; its level
and its text follow from it.
-/
namespace AdvancedInterrupts

/-- How wide a single access to a device is. -/
inductive AccessWidth where
  | byte
  | word
  | dword
  | qword
deriving DecidableEq, Repr

namespace AccessWidth

def name : AccessWidth → String
  | byte => "Byte"
  | word => "Word"
  | dword => "Dword"
  | qword => "Qword"

end AccessWidth

/-- How much attention a notice asks for. -/
inductive NoticeLevel where
  | error
  | warn
  | info
  | debug
deriving DecidableEq, Repr

/-- An event that is reported in the log. -/
inductive Notice where
  /-- A domain was described with a source count outside its limits. -/
  | domainSourceCount (count : Nat)
  /-- A domain was described with a number of delivery structures outside its limits. -/
  | domainIdcCount (count : Nat)
  /-- The domain was reset and forwards interrupts. -/
  | domainInitialized (sources : Nat) (delivery : DeliveryMode)
  /-- The platform maps the hart to a delivery structure that the domain does not have. -/
  | idcOutOfRange (hart index : Nat)
  /-- The delivery structure of the hart was set up. -/
  | idcInitialized (hart index : Nat)
  /-- The platform gives the hart no delivery structure. -/
  | hartWithoutIdc (hart : Nat)
  /-- A priority threshold above the largest priority was ignored. -/
  | idcThresholdDropped (index threshold : Nat)
  /-- A source configuration was written for a source that does not exist. -/
  | sourceConfigInvalid (source : Nat)
  /-- A source configuration that hands the source to a child domain was ignored. -/
  | sourceConfigDelegated (source : Nat) (config : Word)
  /-- A source configuration with a reserved mode was ignored. -/
  | sourceConfigReserved (source : Nat) (config : Word)
  /-- A priority target was ignored because the domain sends messages. -/
  | priorityTargetUnderMsi
  /-- A target with a priority was ignored. -/
  | targetDropped (source hart priority : Nat)
  /-- A new priority was ignored. -/
  | priorityDropped (source priority : Nat)
  /-- A new hart was ignored. -/
  | hartDropped (source hart : Nat)
  /-- A target with a message identity was ignored. -/
  | msiTargetDropped (source hart identity : Nat)
  /-- A target in a guest file was ignored. -/
  | guestTargetDropped (source guest : Nat)
  /-- A target with a message identity was ignored because the domain delivers directly. -/
  | msiTargetUnderDirect
  /-- The search for implemented sources found this many. -/
  | sourcesImplemented (count : Nat)
  /-- A handler was registered for an identity that the table has no slot for. -/
  | noHandlerSlot (identity : Nat)
  /-- An interrupt arrived for which no handler is registered. -/
  | unhandled (identity : Nat)
  /-- A trap was taken on a hart that the trap entry keeps no state for. -/
  | trapHartOutOfRange (hart : Nat)
  /-- A trap was taken on a hart that is still handling one. -/
  | trapNested (hart : Nat)
  /-- A trap was an exception. -/
  | trapException (hart code : Nat)
  /-- Interrupt files were described with an identity count outside its limits. -/
  | fileIdentityCount (count : Nat)
  /-- Interrupt files were described without harts or too close together. -/
  | fileLayout (harts stride identities : Nat) (knowsHart : Bool)
  /-- The delivery register of the interrupt file did not keep its value. -/
  | fileDeliveryRefused
  /-- A file threshold above the largest identity was ignored. -/
  | fileThresholdDropped (threshold : Nat)
  /-- A message to a hart that has no file was ignored. -/
  | messageDropped (hart : Nat)
  /-- The interrupt files are in use. -/
  | filesInitialized (harts identities : Nat)
  /-- The interrupt file of the hart was set up. -/
  | fileInitialized (hart : Nat)
  /-- An identity meant for one hart was configured on another one. -/
  | identityOnOtherHart (identity hart running : Nat)
  /-- An identity was configured, for which a source mode has no meaning. -/
  | identityConfigured (identity hart : Nat) (mode : SourceMode)
  /-- An emulated domain was described with a source count outside its limits. -/
  | emulatedSourceCount (count : Nat)
  /-- An emulated domain was described with a number of delivery structures outside its limits. -/
  | emulatedIdcCount (count : Nat)
  /-- A guest read did not fit the window of the emulated domain. -/
  | badRead (address : Nat) (width : AccessWidth)
  /-- A guest write did not fit the window of the emulated domain. -/
  | badWrite (address : Nat) (width : AccessWidth)
deriving DecidableEq, Repr

namespace Notice

def level : Notice → NoticeLevel
  | domainSourceCount _ | domainIdcCount _ | hartWithoutIdc _ | guestTargetDropped _ _
  | noHandlerSlot _ | trapHartOutOfRange _ | trapNested _ | trapException _ _
  | fileIdentityCount _ | fileLayout _ _ _ _ | fileDeliveryRefused | identityOnOtherHart _ _ _
  | emulatedSourceCount _ | emulatedIdcCount _ | badRead _ _ | badWrite _ _ => .warn
  | domainInitialized _ _ | filesInitialized _ _ => .info
  | _ => .debug

def text : Notice → String
  | domainSourceCount count => s!"APLIC: invalid number of sources {count}"
  | domainIdcCount count => s!"APLIC: invalid number of IDCs {count}"
  | domainInitialized sources delivery =>
    s!"APLIC: domain initialized, {sources} sources, {delivery.name} delivery"
  | idcOutOfRange hart index => s!"APLIC: hart {hart} maps to IDC {index}, out of range"
  | idcInitialized hart index => s!"APLIC: hart {hart} IDC {index} initialized"
  | hartWithoutIdc hart => s!"APLIC: hart {hart} has no IDC"
  | idcThresholdDropped index threshold => s!"APLIC: IDC {index} threshold {threshold} dropped"
  | sourceConfigInvalid source => s!"APLIC: sourcecfg write to invalid source {source}"
  | sourceConfigDelegated source config =>
    s!"APLIC: source {source} delegation not supported, sourcecfg {hexadecimal config.toNat} dropped"
  | sourceConfigReserved source config =>
    s!"APLIC: reserved source mode in sourcecfg {hexadecimal config.toNat} for source {source}"
  | priorityTargetUnderMsi => "APLIC: priority target write in MSI mode dropped"
  | targetDropped source hart priority =>
    s!"APLIC: target ({hart}, {priority}) for source {source} dropped"
  | priorityDropped source priority => s!"APLIC: priority {priority} for source {source} dropped"
  | hartDropped source hart => s!"APLIC: hart {hart} for source {source} dropped"
  | msiTargetDropped source hart identity =>
    s!"APLIC: MSI target ({hart}, {identity}) for source {source} dropped"
  | guestTargetDropped source guest =>
    s!"APLIC: guest index {guest} for source {source} not supported"
  | msiTargetUnderDirect => "APLIC: MSI target write in direct mode dropped"
  | sourcesImplemented count => s!"APLIC: {count} implemented sources"
  | noHandlerSlot identity => s!"irq: no handler slot for identity {identity}"
  | unhandled identity => s!"irq: unhandled identity {identity}"
  | trapHartOutOfRange hart => s!"trap: hart {hart} out of range"
  | trapNested hart => s!"trap: nested trap on hart {hart} dropped"
  | trapException hart code => s!"trap: unexpected exception {code} on hart {hart}"
  | fileIdentityCount count => s!"IMSIC: invalid number of identities {count}"
  | fileLayout harts stride identities knowsHart =>
    "IMSIC: invalid file layout ImsicConfig \x7b num_harts: " ++ toString harts ++
      ", hart_stride: " ++ toString stride ++ ", num_ids: " ++ toString identities ++
      ", current_hart: " ++ (if knowsHart then "Some(_)" else "None") ++ " \x7d"
  | fileDeliveryRefused => "IMSIC: interrupt delivery did not stick"
  | fileThresholdDropped threshold => s!"IMSIC: threshold {threshold} dropped"
  | messageDropped hart => s!"IMSIC: MSI to hart {hart} dropped"
  | filesInitialized harts identities =>
    s!"IMSIC: {harts} harts, {identities} identities per file"
  | fileInitialized hart => s!"IMSIC: hart {hart} interrupt file initialized"
  | identityOnOtherHart identity hart running =>
    s!"IMSIC: identity {identity} for hart {hart} configured on hart {running}, dropped"
  | identityConfigured identity hart mode =>
    s!"IMSIC: identity {identity} for hart {hart} ({mode.name} ignored)"
  | emulatedSourceCount count => s!"VAplic: invalid number of sources {count}"
  | emulatedIdcCount count => s!"VAplic: invalid number of IDCs {count}"
  | badRead address width =>
    s!"VAplic: bad read at GPA:{hexadecimal address} width {width.name}"
  | badWrite address width =>
    s!"VAplic: bad write at GPA:{hexadecimal address} width {width.name}"

end Notice

end AdvancedInterrupts
