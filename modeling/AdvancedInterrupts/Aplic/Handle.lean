import AdvancedInterrupts.Aplic.Window
import AdvancedInterrupts.Target

/-!
# Handles on an interrupt domain

A handle holds what a driver was told about the domain behind its window: how
many sources and delivery structures there are, how interrupts are delivered,
and which delivery structure belongs to which hart. These numbers are checked
once, when the handle is created.
-/
namespace AdvancedInterrupts

/-- The description of a domain. The count of sources includes the reserved source 0. -/
structure AplicConfig where
  sources : Nat
  idcs : Nat
  delivery : DeliveryMode
  idcOfHart : Nat → Option Nat

namespace AplicConfig

/-- Every source slot, eight delivery structures, and structure `h` for hart `h`. -/
def standard : AplicConfig := ⟨sourceSlots, 8, .direct, some⟩

end AplicConfig

/-- A handle on a domain: a description whose numbers fit the register map. -/
structure Aplic extends AplicConfig where
  sources_range : 2 ≤ sources ∧ sources ≤ sourceSlots
  idcs_range : 1 ≤ idcs ∧ idcs ≤ Target.hartField.max + 1

namespace Aplic

/-- The handle for a description, or the first thing that is wrong with it. -/
def create (config : AplicConfig) : Except Notice Aplic :=
  if hs : 2 ≤ config.sources ∧ config.sources ≤ sourceSlots then
    if hi : 1 ≤ config.idcs ∧ config.idcs ≤ Target.hartField.max + 1 then .ok ⟨config, hs, hi⟩
    else .error (.domainIdcCount config.idcs)
  else .error (.domainSourceCount config.sources)

variable (a : Aplic)

/-- Whether the domain has a source with this number. -/
def hasSource (source : Nat) : Bool := decide (source ≠ 0 ∧ source < a.sources)

@[simp] theorem hasSource_iff (source : Nat) :
    a.hasSource source = true ↔ 1 ≤ source ∧ source < a.sources := by
  simp only [hasSource, decide_eq_true_eq]
  omega

theorem lt_sourceSlots_of_hasSource {source : Nat} (h : a.hasSource source = true) :
    source < sourceSlots := by
  have := a.sources_range
  rw [hasSource_iff] at h
  omega

/-- The map has the registers of every source of the domain. -/
theorem published_of_hasSource {source : Nat} (h : a.hasSource source = true) :
    (Register.sourceConfig source).Published ∧ (Register.target source).Published := by
  have hslots := a.lt_sourceSlots_of_hasSource h
  rw [hasSource_iff] at h
  exact ⟨⟨h.1, hslots⟩, ⟨h.1, hslots⟩⟩

/-- The numbers of the sources of the domain, ascending. -/
def sourceNumbers : List Nat := List.range' 1 (a.sources - 1)

theorem mem_sourceNumbers (source : Nat) :
    source ∈ a.sourceNumbers ↔ a.hasSource source = true := by
  have := a.sources_range
  simp only [sourceNumbers, List.mem_range'_1, hasSource_iff]
  omega

/-- The delivery structure of a hart, if the platform gives it one that exists. -/
def idcIndex (hart : Nat) : Program window (Option Nat) :=
  match a.idcOfHart hart with
  | none => pure none
  | some index =>
    if index < a.idcs then pure (some index)
    else do
      (Notice.idcOutOfRange hart index).report
      pure none

/-- The value of the hart field of a target word that routes to a hart: its delivery structure
under direct delivery, and the hart itself when the domain sends messages. -/
def hartField (hart : Nat) : Program window (Option Nat) :=
  match a.delivery with
  | .direct => a.idcIndex hart
  | .msi => pure (if hart < a.idcs then some hart else none)

end Aplic

end AdvancedInterrupts
