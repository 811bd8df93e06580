import AdvancedInterrupts.Aplic.Controller

/-!
# The operations of a handle

Everything that can be asked of a handle on a domain, as data. The program of an
operation says which accesses it makes, so a statement about every operation is
a statement about every value of this type.
-/
namespace AdvancedInterrupts

/-- An operation of a handle. -/
inductive AplicOperation where
  | reset
  | setUpHart (hart : Nat)
  | setDomainConfig (config : Word)
  | domainConfig
  | isForwarding
  | setSourceConfig (source : Nat) (config : Word)
  | sourceConfig (source : Nat)
  | setMode (source : Nat) (mode : SourceMode)
  | mode (source : Nat)
  | enable (source : Nat)
  | disable (source : Nat)
  | isEnabled (source : Nat)
  | setPending (source : Nat)
  | clearPending (source : Nat)
  | isPending (source : Nat)
  | inputLevel (source : Nat)
  | target (source : Nat)
  | setTarget (source hart priority : Nat)
  | setPriority (source priority : Nat)
  | priority (source : Nat)
  | setHart (source hart : Nat)
  | hart (source : Nat)
  | setMsiTarget (source hart guest identity : Nat)
  | probe
  | configure (source : Nat) (wiring : Wiring)
  | claim (hart : Nat)
  | idcIndex (hart : Nat)
  | idc (hart : Nat) (op : IdcOperation)
deriving DecidableEq, Repr

namespace AplicOperation

/-- What an operation answers. An operation on a delivery structure has no answer for a hart that
has none. -/
abbrev Answer : AplicOperation → Type
  | domainConfig | sourceConfig _ | target _ => Word
  | isForwarding | isEnabled _ | isPending _ | inputLevel _ => Bool
  | mode _ => Option SourceMode
  | priority _ | hart _ => Nat
  | probe => List Nat
  | claim _ => Claim
  | idcIndex _ => Option Nat
  | idc _ op => Option op.Answer
  | reset | setUpHart _ | setDomainConfig _ | setSourceConfig _ _ | setMode _ _ | enable _
  | disable _ | setPending _ | clearPending _ | setTarget _ _ _ | setPriority _ _ | setHart _ _
  | setMsiTarget _ _ _ _ | configure _ _ => Unit

def program (a : Aplic) : (op : AplicOperation) → Program window op.Answer
  | reset => a.reset
  | setUpHart h => a.setUpHart h
  | setDomainConfig word => Aplic.setDomainConfig word
  | domainConfig => Aplic.domainConfig
  | isForwarding => Aplic.isForwarding
  | setSourceConfig source word => a.setSourceConfig source word
  | sourceConfig source => a.sourceConfig source
  | setMode source m => a.setMode source m
  | mode source => a.mode source
  | enable source => a.enable source
  | disable source => a.disable source
  | isEnabled source => a.isEnabled source
  | setPending source => a.setPending source
  | clearPending source => a.clearPending source
  | isPending source => a.isPending source
  | inputLevel source => a.inputLevel source
  | target source => a.target source
  | setTarget source h p => a.setTarget source h p
  | setPriority source p => a.setPriority source p
  | priority source => a.priority source
  | setHart source h => a.setHart source h
  | hart source => a.hart source
  | setMsiTarget source h guest identity => a.setMsiTarget source h guest identity
  | probe => a.probe
  | configure source wiring => a.configure source wiring
  | claim h => a.claim h
  | idcIndex h => a.idcIndex h
  | idc h op => do
    match ← a.idc h with
    | some i => do
      let answer ← op.program i
      pure (some answer)
    | none => pure none

end AplicOperation

end AdvancedInterrupts
