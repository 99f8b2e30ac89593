/-!
# Hexadecimal text

Numbers as messages show them: `0x` and a fixed number of lower-case digits.
-/

namespace TieredJvm

/-- The low `digits` hexadecimal digits of a number, the highest first. -/
def hexDigits : (digits : Nat) → Nat → List Char
  | 0, _ => []
  | digits + 1, n => hexDigits digits (n / 16) ++ [Nat.digitChar (n % 16)]

/-- A number with `0x` before its digits. -/
def hexText (digits n : Nat) : String :=
  "0x" ++ String.ofList (hexDigits digits n)

/-- A byte as two digits. -/
def hexByte (b : UInt8) : String :=
  hexText 2 b.toNat

/-- A 32-bit word as eight digits. -/
def hexWord (w : UInt32) : String :=
  hexText 8 w.toNat

end TieredJvm
