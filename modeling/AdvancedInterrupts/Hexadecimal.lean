/-!
# Hexadecimal text

Addresses, raw words and cause codes are written in lower-case hexadecimal with
the mark `0x` in front and without leading zeros.
-/
namespace AdvancedInterrupts

/-- The number in hexadecimal, such as `0x4010`; zero is `0x0`. -/
def hexadecimal (n : Nat) : String := "0x" ++ String.ofList (Nat.toDigits 16 n)

end AdvancedInterrupts
