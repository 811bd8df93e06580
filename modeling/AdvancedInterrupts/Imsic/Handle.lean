import AdvancedInterrupts.AddressRange
import AdvancedInterrupts.Imsic.File

/-!
# Handles on the interrupt files

A handle holds what the driver was told about the interrupt files of a platform:
how many harts have one, how far apart they are in memory, and how many
identities each has. The numbers are checked once, when the handle is created.
-/
namespace AdvancedInterrupts

/-- The largest identity that a file can have. -/
def maxFileIdentity : Nat := 2047

/-- The distance between two files that keeps them apart. -/
def minFileStride : Nat := 0x1000

/-- The description of the interrupt files of a platform. When the platform can tell which hart
is running, a set-up that is meant for another hart is refused. -/
structure ImsicConfig where
  harts : Nat
  stride : Nat
  identities : Nat
  knowsHart : Bool
deriving DecidableEq, Repr

namespace ImsicConfig

/-- One file with 255 identities. -/
def standard : ImsicConfig := ⟨1, minFileStride, 255, false⟩

end ImsicConfig

/-- A handle on the interrupt files: a description with full words of identities and with files
that are kept apart. -/
structure Imsic extends ImsicConfig where
  identities_range : 63 ≤ identities ∧ identities ≤ maxFileIdentity ∧ (identities + 1) % 64 = 0
  layout_range : harts ≠ 0 ∧ minFileStride ≤ stride

namespace Imsic

/-- The handle for a description, or the first thing that is wrong with it. -/
def create (config : ImsicConfig) : Except Notice Imsic :=
  if hi : 63 ≤ config.identities ∧ config.identities ≤ maxFileIdentity ∧
      (config.identities + 1) % 64 = 0 then
    if hl : config.harts ≠ 0 ∧ minFileStride ≤ config.stride then .ok ⟨config, hi, hl⟩
    else .error
      (.fileLayout config.harts config.stride config.identities config.knowsHart)
  else .error (.fileIdentityCount config.identities)

variable (m : Imsic)

/-- Whether the files have an identity. -/
def hasIdentity (identity : Nat) : Bool := decide (identity ≠ 0 ∧ identity ≤ m.identities)

@[simp] theorem hasIdentity_iff (identity : Nat) :
    m.hasIdentity identity = true ↔ 1 ≤ identity ∧ identity ≤ m.identities := by
  simp only [hasIdentity, decide_eq_true_eq]
  omega

/-- The words that hold the enable bits of all identities. -/
def enableWords : Nat := (m.identities + 1) / FileRegister.enableBits

/-- Where the file of a hart is in the message window, if that is an address at all. Otherwise
computing it overflows: a build that checks for overflow stops, and one that does not goes on with
what is left of the product. Here it is checked. -/
def fileOffset? (hart : Nat) : Option Nat :=
  if hart * m.stride < addressSpace then some (hart * m.stride + FileRegister.setPendingOffset)
  else none

end Imsic

end AdvancedInterrupts
