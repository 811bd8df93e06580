import AdvancedInterrupts.Word

/-!
# Source modes

How a domain treats the wire of an interrupt source. The mode is the low field
of the source configuration register, in which two codes are reserved; another
bit of that register hands the source to a child domain.
-/
namespace AdvancedInterrupts

/-- The source mode field of a source configuration register. -/
inductive SourceMode where
  /-- Not active in this domain. -/
  | inactive
  /-- Active, but detached from the wire. -/
  | detached
  /-- Raised by a rising edge. -/
  | edgeRise
  /-- Raised by a falling edge. -/
  | edgeFall
  /-- Raised while the wire is high. -/
  | levelHigh
  /-- Raised while the wire is low. -/
  | levelLow
deriving DecidableEq, Repr, Inhabited

namespace SourceMode

/-- The code of the mode in the register. -/
def code : SourceMode → Nat
  | inactive => 0
  | detached => 1
  | edgeRise => 4
  | edgeFall => 5
  | levelHigh => 6
  | levelLow => 7

/-- The mode with a given code; 2, 3 and everything above 7 have none. -/
def ofCode? : Nat → Option SourceMode
  | 0 => some inactive
  | 1 => some detached
  | 4 => some edgeRise
  | 5 => some edgeFall
  | 6 => some levelHigh
  | 7 => some levelLow
  | _ => none

@[simp] theorem ofCode?_code (mode : SourceMode) : ofCode? mode.code = some mode := by
  cases mode <;> rfl

/-- The field of the source configuration register that holds the code. -/
def field : BitField := ⟨0, 3⟩

/-- The register word of a source in this mode. -/
def toWord (mode : SourceMode) : Word := BitVec.ofNat 32 mode.code

/-- Whether the domain handles the source at all. -/
def isActive (mode : SourceMode) : Bool := mode != inactive

def name : SourceMode → String
  | inactive => "Inactive"
  | detached => "Detached"
  | edgeRise => "EdgeRise"
  | edgeFall => "EdgeFall"
  | levelHigh => "LevelHigh"
  | levelLow => "LevelLow"

end SourceMode

/-- Why a source configuration word cannot take effect. -/
inductive SourceConfigError where
  /-- The word hands the source to a child domain. -/
  | delegated
  /-- The source mode code is reserved. -/
  | reservedMode
deriving DecidableEq, Repr

/-- The position of the delegation bit in a source configuration word. -/
def delegationBit : Nat := 10

/-- The mode that a source configuration word asks for. -/
def SourceMode.ofWord (w : Word) : Except SourceConfigError SourceMode :=
  if w.getLsbD delegationBit then .error .delegated
  else match ofCode? (w.field field) with
    | some mode => .ok mode
    | none => .error .reservedMode

@[simp] theorem SourceMode.ofWord_toWord (mode : SourceMode) : ofWord mode.toWord = .ok mode := by
  cases mode <;> rfl

end AdvancedInterrupts
