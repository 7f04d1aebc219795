/-! The shortest decimal that reads back as a given binary number. -/

namespace TickingTable.Decimal

/-- What to do with a number halfway between two shortest decimals. -/
inductive Tie where
  | toEven | up

/-- The number `digits * 10 ^ exponent`. -/
structure Number where
  digits : Nat
  exponent : Int
deriving DecidableEq

/-- A number and the ends of the interval of numbers that read back as it, in units of
`1 / denominator`. The ends belong to the interval if `closed` holds. -/
structure Rounding where
  value : Nat
  low : Nat
  high : Nat
  denominator : Nat
  closed : Bool

namespace Rounding

def ofBinary (mantissa : Nat) (exponent : Int) (narrow : Bool) : Rounding :=
  let unit := Nat.pow 2 (exponent - 2).toNat
  { value := 4 * mantissa * unit
    low := (4 * mantissa - if narrow then 1 else 2) * unit
    high := (4 * mantissa + 2) * unit
    denominator := Nat.pow 2 (2 - exponent).toNat
    closed := mantissa % 2 = 0 }

def holds (r : Rounding) (n d : Nat) : Bool :=
  if r.closed then decide (r.low * d ≤ n * r.denominator) && decide (n * r.denominator ≤ r.high * d)
  else decide (r.low * d < n * r.denominator) && decide (n * r.denominator < r.high * d)

/-- How many places to the right the point moves until the number is at least one. -/
def leadingPlaces (value denominator : Nat) : Nat → Nat
  | 0 => 0
  | fuel + 1 =>
    if denominator ≤ value then 0 else leadingPlaces (10 * value) denominator fuel + 1

/-- The `k` with `10 ^ (k - 1) ≤ value < 10 ^ k`, for numbers of at least `10 ^ -400`. -/
def magnitude (r : Rounding) : Int :=
  if r.denominator ≤ r.value then
    Int.ofNat (Nat.toDigits 10 (r.value / r.denominator)).length
  else 1 - Int.ofNat (leadingPlaces r.value r.denominator 400)

/-- The neighbour of the value on the grid of multiples of `10 ^ exponent` that is to stand for it,
if one of the two neighbours reads back. -/
def onGrid? (r : Rounding) (tie : Tie) (exponent : Int) : Option Nat :=
  let up := Nat.pow 10 exponent.toNat
  let down := Nat.pow 10 (-exponent).toNat
  let below := r.value * down / (r.denominator * up)
  match r.holds (below * up) down, r.holds ((below + 1) * up) down with
  | false, false => none
  | true, false => some below
  | false, true => some (below + 1)
  | true, true =>
    let twice := 2 * r.value * down
    let middle := (2 * below + 1) * r.denominator * up
    if twice < middle then some below
    else if middle < twice then some (below + 1)
    else match tie with
      | .up => some (below + 1)
      | .toEven => some (if below % 2 = 0 then below else below + 1)

/-- Tries the grids from the coarsest on. -/
def search (r : Rounding) (tie : Tie) (exponent : Int) : Nat → Number
  | 0 => ⟨0, 0⟩
  | fuel + 1 =>
    match r.onGrid? tie exponent with
    | some digits => ⟨digits, exponent⟩
    | none => search r tie (exponent - 1) fuel

end Rounding

/-- Moves the zeros at the end of the digits into the exponent. -/
def dropZeros (d : Number) : Nat → Number
  | 0 => d
  | fuel + 1 =>
    if d.digits ≠ 0 ∧ d.digits % 10 = 0 then dropZeros ⟨d.digits / 10, d.exponent + 1⟩ fuel else d

/-- Seventeen digits are enough for every binary number of at most 64 bits. -/
def shortest (tie : Tie) (mantissa : Nat) (exponent : Int) (narrow : Bool) : Number :=
  let r := Rounding.ofBinary mantissa exponent narrow
  dropZeros (r.search tie (r.magnitude - 1) 18) 18

end TickingTable.Decimal
