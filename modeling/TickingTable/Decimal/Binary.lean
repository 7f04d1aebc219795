/-! Binary floating-point numbers, read from their bits. -/

namespace TickingTable

/-- The widths of the fields of a binary format, of which the fraction is the lowest. -/
structure BinaryFormat where
  fractionBits : Nat
  exponentBits : Nat

namespace BinaryFormat

def single : BinaryFormat := ⟨23, 8⟩

def double : BinaryFormat := ⟨52, 11⟩

/-- The exponent of the lowest fraction bit of the least normal numbers. -/
def leastExponent (f : BinaryFormat) : Int :=
  2 - Int.ofNat (Nat.pow 2 (f.exponentBits - 1)) - Int.ofNat f.fractionBits

end BinaryFormat

inductive BinaryFloat where
  | nan
  | infinite (negative : Bool)
  | zero (negative : Bool)
  /-- The number `mantissa * 2 ^ exponent`, for a mantissa that is not zero. The number below it is
  only half as far away as the one above it if `narrow` holds. -/
  | finite (negative : Bool) (mantissa : Nat) (exponent : Int) (narrow : Bool)
deriving DecidableEq

def BinaryFloat.ofBits (f : BinaryFormat) (bits : Nat) : BinaryFloat :=
  let hidden := Nat.pow 2 f.fractionBits
  let exponents := Nat.pow 2 f.exponentBits
  let fraction := bits % hidden
  let exponent := bits / hidden % exponents
  let negative := bits / hidden / exponents % 2 = 1
  if exponent = exponents - 1 then
    if fraction = 0 then .infinite negative else .nan
  else if exponent = 0 then
    if fraction = 0 then .zero negative else .finite negative fraction f.leastExponent false
  else
    .finite negative (hidden + fraction) (f.leastExponent + exponent - 1)
      (fraction = 0 ∧ 1 < exponent)

end TickingTable
