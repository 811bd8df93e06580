import AdvancedInterrupts.Imsic.File
import Std.Data.TreeMap.Basic

/-!
# A model of one interrupt file

The file of the running hart: plain indirect registers, some of which may refuse
writes, and a set of pending identities. The top interrupt is the lowest pending
identity that is enabled and below the threshold, whether or not delivery is on.
Answers for the top interrupt can also be queued.
-/
namespace AdvancedInterrupts.Bench

/-- The state of the file, and the hart that is running. -/
structure FileModel where
  registers : Std.TreeMap Nat (BitVec 64)
  /-- Registers that ignore what the driver writes. -/
  readOnly : List Nat
  /-- The pending identities, ascending. -/
  pending : List Nat
  queuedTops : List (BitVec 64)
  hart : Nat

namespace FileModel

/-- A file in which nothing is enabled or pending. -/
def reset (hart : Nat) : FileModel := ⟨∅, [], [], [], hart⟩

variable (f : FileModel)

def register (number : Nat) : BitVec 64 := f.registers.getD number 0

/-- Stores a register, also one that refuses the driver's writes. -/
def setRegister (number : Nat) (value : BitVec 64) : FileModel :=
  { f with registers := f.registers.insert number value }

/-- A write by the driver. -/
def writeRegister (number : Nat) (value : BitVec 64) : FileModel :=
  if number ∈ f.readOnly then f else f.setRegister number value

def raise (identity : Nat) : FileModel := { f with pending := insertAscending f.pending }
where
  /-- Puts the identity in its place, unless it is there already. -/
  insertAscending : List Nat → List Nat
    | [] => [identity]
    | other :: rest =>
      if identity < other then identity :: other :: rest
      else if identity = other then other :: rest
      else other :: insertAscending rest

/-- Whether the file lets an identity through. -/
def admits (identity : Nat) : Bool :=
  let (number, bit) := FileRegister.enablePosition identity
  let threshold := f.register FileRegister.threshold
  (f.register number).getLsbD bit && (threshold == 0 || decide (identity < threshold.toNat))

/-- The lowest pending identity that is let through. -/
def top? : Option Nat := f.pending.find? f.admits

/-- Reads the top interrupt and claims it. -/
def swapTop : BitVec 64 × FileModel :=
  match f.queuedTops with
  | value :: rest => (value, { f with queuedTops := rest })
  | [] =>
    match f.top? with
    | some identity =>
      (BitVec.ofNat 64 identity <<< 16 ||| BitVec.ofNat 64 identity,
        { f with pending := f.pending.erase identity })
    | none => (0, f)

/-- The registers that are not zero, ascending. -/
def contents : List (Nat × Nat) :=
  (f.registers.toList.map fun entry => (entry.1, entry.2.toNat)).filter fun entry => entry.2 ≠ 0

end FileModel

end AdvancedInterrupts.Bench
