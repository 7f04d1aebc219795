/-! Lowercase hexadecimal text of bytes and numbers. -/

namespace TickingTable.Hex

def digit (n : Nat) : Char :=
  if n < 10 then Char.ofNat (48 + n) else Char.ofNat (87 + n)

/-- The value of a digit in either case. -/
def digitValue? (c : Char) : Option Nat :=
  if '0' ≤ c ∧ c ≤ '9' then some (c.toNat - 48)
  else if 'a' ≤ c ∧ c ≤ 'f' then some (c.toNat - 87)
  else if 'A' ≤ c ∧ c ≤ 'F' then some (c.toNat - 55)
  else none

/-- The last `width` digits of a number, the most significant first. -/
def digits : Nat → Nat → List Char
  | 0, _ => []
  | width + 1, n => digits width (n / 16) ++ [digit (n % 16)]

def fixed (width n : Nat) : String := String.ofList (digits width n)

def byteDigits (b : UInt8) : List Char := digits 2 b.toNat

def ofBytes (l : List UInt8) : String := String.ofList (l.flatMap byteDigits)

def charsToBytes? : List Char → Option (List UInt8)
  | [] => some []
  | [_] => none
  | a :: b :: l => do
    let hi ← digitValue? a
    let lo ← digitValue? b
    let rest ← charsToBytes? l
    return UInt8.ofNat (16 * hi + lo) :: rest

def toBytes? (s : String) : Option (List UInt8) := charsToBytes? s.toList

end TickingTable.Hex
