import AdvancedInterrupts.Claim
import AdvancedInterrupts.Emulated.Domain

/-!
# The top interrupt of a delivery structure

A source is eligible at a delivery structure when it is pending, enabled,
routed there and let through by the threshold. The most urgent eligible source
has the lowest priority number, and among equals the lowest source number. The
device finds it by one ascending scan that replaces the best source so far only
by a strictly more urgent one.
-/
namespace AdvancedInterrupts

namespace Claim

/-- The order of urgency: by priority, then by identity. -/
def Precedes (a b : Claim) : Prop :=
  a.priority < b.priority ∨ a.priority = b.priority ∧ a.identity < b.identity

instance (a b : Claim) : Decidable (a.Precedes b) :=
  inferInstanceAs (Decidable (_ ∨ _))

/-- The best claim so far after another one was seen. -/
def moreUrgent (best : Option Claim) (c : Claim) : Option Claim :=
  match best with
  | none => some c
  | some b => if b.priority ≤ c.priority then some b else some c

end Claim

/-- Whether a threshold lets a priority through; zero lets every one through. -/
def IdcState.admits (i : IdcState) (priority : Nat) : Bool :=
  i.threshold == 0 || decide (priority < i.threshold.toNat)

namespace EmulatedDomain

variable (d : EmulatedDomain)

/-- Whether a source waits at a delivery structure, whatever the delivery mode. -/
def waitsAt (index source : Nat) : Bool :=
  let s := d.source source
  d.hasSource source && s.pending && s.enabled && Target.hart s.target == index &&
    (d.idc index).admits (Target.priority s.target)

/-- Whether a source can be claimed at a delivery structure. -/
def eligible (index source : Nat) : Bool :=
  d.config.delivery == .direct && d.waitsAt index source

/-- The claim that a source would be reported as. -/
def claimOf (source : Nat) : Claim := ⟨source, Target.priority (d.source source).target⟩

/-- What waits at a delivery structure, by ascending source number. -/
def waiting (index : Nat) : List Claim :=
  ((List.range d.sourceCount).filter (d.waitsAt index)).map d.claimOf

/-- The interrupt that a delivery structure reports, if any. A domain that sends messages reports
none. -/
def top (index : Nat) : Option Claim :=
  match d.config.delivery with
  | .direct => (d.waiting index).foldl Claim.moreUrgent none
  | .msi => none

/-- The word that reports the top interrupt, which is zero when there is none. -/
def topWord (index : Nat) : Word :=
  match d.top index with
  | some c => c.toWord
  | none => 0

/-- The domain after its top interrupt was claimed: the source is no longer pending, or, when
there was none, no interrupt is forced any more. -/
def afterClaim (index : Nat) : EmulatedDomain :=
  match d.top index with
  | some c => d.modifySource c.identity fun s => s.withFlag .pending false
  | none => d.modifyIdc index fun i => { i with force := false }

end EmulatedDomain

end AdvancedInterrupts
