import AdvancedInterrupts.DomainConfig

/-!
# Target words

The target register of a source says where its interrupt goes. Bits 31:18 are
the hart index in both delivery modes. With direct delivery bits 7:0 are the
priority, which is never zero; with message delivery bits 17:12 are the guest
file and bits 10:0 the identity that the message carries. The remaining bits
read as zero.
-/
namespace AdvancedInterrupts

namespace Target

/-- The hart index, in both delivery modes. -/
def hartField : BitField := ⟨18, 14⟩

/-- The guest file, under message delivery. -/
def guestField : BitField := ⟨12, 6⟩

/-- The identity of the message, under message delivery. -/
def identityField : BitField := ⟨0, 11⟩

/-- The priority, under direct delivery. -/
def priorityField : BitField := ⟨0, 8⟩

def hart (w : Word) : Nat := w.field hartField

def guest (w : Word) : Nat := w.field guestField

def priority (w : Word) : Nat := w.field priorityField

/-- The target word for a hart and a priority or message identity. -/
def word (hart value : Nat) : Word := hartField.place hart ||| BitVec.ofNat 32 value

/-- The word with its priority replaced. -/
def withPriority (w : Word) (priority : Nat) : Word :=
  w &&& ~~~priorityField.mask ||| priorityField.place priority

/-- The word with its hart index replaced. -/
def withHart (w : Word) (hart : Nat) : Word :=
  w &&& ~~~hartField.mask ||| hartField.place hart

/-- What a domain keeps of a word written to a target register: the fields of its delivery mode,
with priority zero kept as one. -/
def stored (delivery : DeliveryMode) (w : Word) : Word :=
  match delivery with
  | .direct =>
    let priority := w &&& priorityField.mask
    w &&& hartField.mask ||| if priority = 0 then 1 else priority
  | .msi => w &&& (hartField.mask ||| guestField.mask ||| identityField.mask)

end Target

end AdvancedInterrupts
