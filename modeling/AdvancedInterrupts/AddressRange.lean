/-!
# Address ranges

Addresses are numbers below the size of the 64-bit address space. A range is
given by a start and a size, and exists only if its end is an address as well.
Ranges come from outside of the software described here. What is written down
below is what is assumed of them.
-/
namespace AdvancedInterrupts

/-- The size of the address space. -/
def addressSpace : Nat := 0x10000000000000000

/-- A range of addresses, without its end. -/
structure AddressRange where
  first : Nat
  stop : Nat
deriving DecidableEq, Repr

namespace AddressRange

/-- A start and a size that reach over the end of the address space. -/
structure Overflow where
  first : Nat
  size : Nat
deriving DecidableEq, Repr

/-- The message with which the construction of a range is assumed to fail. -/
def Overflow.message (o : Overflow) : String :=
  "size too large for `AddrRange`: " ++ toString o.first ++ " + " ++ toString o.size

/-- The range of a size from an address on. It is assumed to exist exactly if its end is an address
too, and its construction to fail otherwise. -/
def ofSize (first size : Nat) : Except Overflow AddressRange :=
  if first + size < addressSpace then .ok ⟨first, first + size⟩ else .error ⟨first, size⟩

end AddressRange

end AdvancedInterrupts
