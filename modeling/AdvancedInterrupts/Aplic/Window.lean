import AdvancedInterrupts.Notice
import AdvancedInterrupts.Program
import AdvancedInterrupts.Register.Map

/-!
# The register window of a domain

A driver reaches an interrupt domain through single 32-bit reads and writes at
byte offsets of its window, and reports what it does. It keeps no copy of any
register, so all drivers of a window see the same state.
-/
namespace AdvancedInterrupts

/-- One step of a driver: an access to its window, or a notice. -/
inductive WindowAccess where
  | read (offset : Nat)
  | write (offset : Nat) (value : Word)
  | report (notice : Notice)
deriving DecidableEq, Repr

abbrev WindowAccess.Answer : WindowAccess → Type
  | read _ => Word
  | write _ _ => Unit
  | report _ => Unit

/-- The interface of a driver to the window of a domain. -/
abbrev window : Interface := ⟨WindowAccess, WindowAccess.Answer⟩

namespace Register

def read (r : Register) : Program window Word :=
  .ask (WindowAccess.read r.offset) .done

def write (r : Register) (value : Word) : Program window Unit :=
  .ask (WindowAccess.write r.offset value) .done

end Register

def Notice.report (notice : Notice) : Program window Unit :=
  .ask (WindowAccess.report notice) .done

end AdvancedInterrupts
