import AdvancedInterrupts.Word

/-!
# Claims

The identity and the priority of an interrupt, as a hart reads them from its
delivery control structure or from its interrupt file. Identity 0 says that
nothing was eligible.
-/
namespace AdvancedInterrupts

/-- An interrupt that was reported to a hart. -/
structure Claim where
  identity : Nat
  priority : Nat
deriving DecidableEq, Repr, Inhabited

namespace Claim

/-- The report that nothing is eligible. -/
def spurious : Claim := ⟨0, 0⟩

/-- Whether the report names no interrupt. -/
def isSpurious (c : Claim) : Bool := c.identity == 0

/-- The identity in a report of a delivery control structure. -/
def identityField : BitField := ⟨16, 10⟩

/-- The priority in a report of a delivery control structure. -/
def priorityField : BitField := ⟨0, 8⟩

/-- Reads a report of a delivery control structure. -/
def ofWord (w : Word) : Claim := ⟨w.field identityField, w.field priorityField⟩

/-- The word that reports an interrupt to a delivery control structure. -/
def toWord (c : Claim) : Word := BitVec.ofNat 32 (c.identity * 0x10000 + c.priority)

theorem toNat_toWord {c : Claim} (hi : c.identity ≤ identityField.max)
    (hp : c.priority ≤ priorityField.max) :
    c.toWord.toNat = c.identity * 0x10000 + c.priority := by
  have hi' : c.identity ≤ 1023 := hi
  have hp' : c.priority ≤ 255 := hp
  rw [toWord, BitVec.toNat_ofNat, Nat.mod_eq_of_lt (by omega)]

theorem ofWord_toWord {c : Claim} (hi : c.identity ≤ identityField.max)
    (hp : c.priority ≤ priorityField.max) : ofWord c.toWord = c := by
  have hi' : c.identity ≤ 1023 := hi
  have hp' : c.priority ≤ 255 := hp
  have h1 : c.toWord.field identityField = c.identity := by
    rw [Word.field_eq, toNat_toWord hi hp, Nat.shiftRight_eq_div_pow]
    show (c.identity * 0x10000 + c.priority) / 0x10000 % 1024 = c.identity
    omega
  have h2 : c.toWord.field priorityField = c.priority := by
    rw [Word.field_eq, toNat_toWord hi hp]
    show (c.identity * 0x10000 + c.priority) % 256 = c.priority
    omega
  rw [ofWord, h1, h2]

/-- The identity in a report of an interrupt file. -/
def fileIdentityField : BitField := ⟨16, 11⟩

/-- The priority in a report of an interrupt file. -/
def filePriorityField : BitField := ⟨0, 11⟩

/-- Reads a report of an interrupt file. -/
def ofFileWord (w : Word) : Claim := ⟨w.field fileIdentityField, w.field filePriorityField⟩

end Claim

end AdvancedInterrupts
