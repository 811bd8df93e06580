import AdvancedInterrupts.Imsic.Driver

/-!
# The operations of a handle on the interrupt files

Everything that can be asked of a handle on the interrupt files, as data.
-/
namespace AdvancedInterrupts

/-- An operation of a handle on the interrupt files. -/
inductive ImsicOperation where
  | setUp
  | setUpHart (hart : Nat)
  | setUpLocal
  | enable (identity : Nat)
  | disable (identity : Nat)
  | isEnabled (identity : Nat)
  | setThreshold (value : Nat)
  | threshold
  | claimLocal
  | sendMessage (hart data : Nat)
  | sendIpi (hart : Nat)
  | configure (identity : Nat) (wiring : Wiring)
deriving DecidableEq, Repr

namespace ImsicOperation

abbrev Answer : ImsicOperation → Type
  | isEnabled _ => Bool
  | threshold => Nat
  | claimLocal => Claim
  | sendMessage _ _ | sendIpi _ => MessageOutcome
  | setUp | setUpHart _ | setUpLocal | enable _ | disable _ | setThreshold _ | configure _ _ =>
    Unit

def program (m : Imsic) : (op : ImsicOperation) → Program interruptFiles op.Answer
  | setUp => m.setUp
  | setUpHart hart => m.setUpHart hart
  | setUpLocal => m.setUpLocal
  | enable identity => m.enable identity
  | disable identity => m.disable identity
  | isEnabled identity => m.isEnabled identity
  | setThreshold value => m.setThreshold value
  | threshold => Imsic.threshold
  | claimLocal => Imsic.claimLocal
  | sendMessage hart data => m.sendMessage hart data
  | sendIpi hart => m.sendIpi hart
  | configure identity wiring => m.configure identity wiring

end ImsicOperation

end AdvancedInterrupts
