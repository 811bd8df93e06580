import AdvancedInterrupts.Word
import Std.Data.TreeMap.Basic

/-!
# Word memory

Memory that stands in for a register window. A word that was never written is
zero, and accesses have no side effects. Values can be queued for an offset, in
which case the next reads of it give those values instead of the stored word.
-/
namespace AdvancedInterrupts.Bench

/-- Words by byte offset, and the values queued for reads. -/
structure Memory where
  words : Std.TreeMap Nat Word
  queued : Std.TreeMap Nat (List Word)

namespace Memory

def empty : Memory := ⟨∅, ∅⟩

variable (m : Memory)

/-- The word at an offset, and the memory after the read. -/
def read (offset : Nat) : Word × Memory :=
  match m.queued.getD offset [] with
  | value :: rest => (value, { m with queued := m.queued.insert offset rest })
  | [] => (m.words.getD offset 0, m)

def write (offset : Nat) (value : Word) : Memory :=
  { m with words := m.words.insert offset value }

/-- Queues values for reads of an offset, behind those already queued. -/
def queue (offset : Nat) (values : List Word) : Memory :=
  { m with queued := m.queued.insert offset (m.queued.getD offset [] ++ values) }

/-- The stored words by ascending offset. -/
def contents : List (Nat × Nat) := m.words.toList.map fun entry => (entry.1, entry.2.toNat)

end Memory

/-- Consecutive keys that hold the same value. -/
structure Run where
  first : Nat
  last : Nat
  value : Nat
deriving DecidableEq, Repr

namespace Run

/-- The maximal runs of equal values other than zero among entries with ascending keys, where
consecutive keys are `stride` apart. -/
def ofEntries (stride : Nat) : List (Nat × Nat) → List Run
  | [] => []
  | (key, value) :: rest =>
    let runs := ofEntries stride rest
    if value = 0 then runs
    else
      match runs with
      | run :: others =>
        if run.first = key + stride ∧ run.value = value then { run with first := key } :: others
        else ⟨key, key, value⟩ :: runs
      | [] => [⟨key, key, value⟩]

end Run

end AdvancedInterrupts.Bench
