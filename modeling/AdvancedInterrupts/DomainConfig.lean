import AdvancedInterrupts.Word

/-!
# Domain configuration

The writable flags of the domain configuration register: whether interrupts
are forwarded at all, whether they are delivered directly or as messages, and
the byte order of structures in memory. The top byte of the register always
reads as 0x80 and every other bit as zero.
-/
namespace AdvancedInterrupts

/-- How a domain forwards interrupts to harts. -/
inductive DeliveryMode where
  /-- Through the delivery control structures of the harts. -/
  | direct
  /-- As messages to the interrupt files of the harts. -/
  | msi
deriving DecidableEq, Repr, Inhabited

namespace DeliveryMode

def name : DeliveryMode → String
  | direct => "Direct"
  | msi => "Msi"

end DeliveryMode

/-- The writable flags of the domain configuration register. -/
structure DomainConfig where
  bigEndian : Bool
  delivery : DeliveryMode
  enabled : Bool
deriving DecidableEq, Repr

namespace DomainConfig

/-- The configuration of a domain out of reset. -/
def reset : DomainConfig := ⟨false, .direct, false⟩

instance : Inhabited DomainConfig := ⟨reset⟩

/-- The positions of the flags, each with its name in the register description. -/
def flags : List (Nat × String) := [(0, "BE"), (2, "DM"), (8, "IE")]

/-- The configuration in a word, whatever its other bits are. -/
def ofWord (w : Word) : DomainConfig where
  bigEndian := w.getLsbD 0
  delivery := if w.getLsbD 2 then .msi else .direct
  enabled := w.getLsbD 8

/-- The flags of the configuration as they are written to the register. -/
def toWord (c : DomainConfig) : Word :=
  .ofBits fun i => (i == 0 && c.bigEndian) || (i == 2 && c.delivery == .msi) ||
    (i == 8 && c.enabled)

@[simp] theorem ofWord_toWord (c : DomainConfig) : ofWord c.toWord = c := by
  obtain ⟨b, d, e⟩ := c
  cases d <;> simp [ofWord, toWord]

/-- The configuration in a word that has no bit outside the flags. -/
def ofWordExact? (w : Word) : Option DomainConfig :=
  if (ofWord w).toWord = w then some (ofWord w) else none

/-- The names of the flags that are set, by ascending position. -/
def flagNames (c : DomainConfig) : List String :=
  (flags.filter fun flag => c.toWord.getLsbD flag.1).map Prod.snd

/-- The bits of the register that always read as one. -/
def fixedBits : Word := 0x80000000#32

/-- What the register reads as. -/
def register (c : DomainConfig) : Word := fixedBits ||| c.toWord

end DomainConfig

end AdvancedInterrupts
