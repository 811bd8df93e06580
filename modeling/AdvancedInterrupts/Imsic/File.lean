import AdvancedInterrupts.Notice
import AdvancedInterrupts.Program

/-!
# Interrupt files

The interface of a driver to the interrupt files of the harts. The file of the
running hart is reached through indirect control registers, and its top
interrupt through a register that is read and written in one step. The other
files are reached only by messages, which are writes to a window in memory.
-/
namespace AdvancedInterrupts

/-- One step of a driver of interrupt files. -/
inductive FileAccess where
  | readIndirect (register : Nat)
  | writeIndirect (register : Nat) (value : BitVec 64)
  /-- Reads the top interrupt; the write that goes with it claims what was read. -/
  | swapTop (value : BitVec 64)
  | writeMessage (offset : Nat) (value : Word)
  /-- The hart that the driver runs on. -/
  | currentHart
  | report (notice : Notice)
deriving DecidableEq, Repr

abbrev FileAccess.Answer : FileAccess → Type
  | readIndirect _ | swapTop _ => BitVec 64
  | currentHart => Nat
  | writeIndirect _ _ | writeMessage _ _ | report _ => Unit

/-- The interface of a driver to the interrupt files. -/
abbrev interruptFiles : Interface := ⟨FileAccess, FileAccess.Answer⟩

namespace FileRegister

/-- Turns delivery from the file on and off. -/
def delivery : Nat := 0x70

/-- The threshold of the file. -/
def threshold : Nat := 0x72

/-- The first word of the enable bits. -/
def enableBase : Nat := 0xC0

/-- The offset of the register that sets an identity pending, in the memory window of a file. -/
def setPendingOffset : Nat := 0x000

/-- The enable bits in one register. Registers are numbered as if they held half as many, so only
every other one exists. -/
def enableBits : Nat := 64

/-- The register with a word of the enable bits. -/
def enableWord (word : Nat) : Nat := enableBase + word * 2

/-- The register with the enable bit of an identity, and the bit inside it. -/
def enablePosition (identity : Nat) : Nat × Nat :=
  (enableWord (identity / enableBits), identity % enableBits)

end FileRegister

end AdvancedInterrupts
