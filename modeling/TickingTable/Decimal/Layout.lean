import TickingTable.Decimal.Binary
import TickingTable.Decimal.Shortest

/-! How decimals are written. -/

namespace TickingTable.Decimal

structure Layout where
  tie : Tie
  /-- A number below `10 ^ k` and not below `10 ^ (k - 1)` is written without an exponent if `k` is
  above the first bound and not above the second. Without bounds no exponent is written. -/
  positional : Option (Int × Int)
  /-- Whole numbers end in `.0`. -/
  showsWhole : Bool

namespace Layout

/-- Never an exponent, and no point in whole numbers. -/
def plain : Layout := ⟨.up, none, false⟩

def gridDouble : Layout := ⟨.toEven, some (-5, 16), true⟩

def gridFloat : Layout := ⟨.toEven, some (-6, 13), true⟩

def zeros (n : Nat) : String := String.ofList (List.replicate n '0')

def positionalText (l : Layout) (digits : String) (exponent : Int) : String :=
  let count := Int.ofNat digits.length
  if 0 ≤ exponent then
    digits ++ zeros exponent.toNat ++ if l.showsWhole then ".0" else ""
  else if 0 < count + exponent then
    let whole := (count + exponent).toNat
    String.ofList (digits.toList.take whole) ++ "." ++ String.ofList (digits.toList.drop whole)
  else "0." ++ zeros (-(count + exponent)).toNat ++ digits

def exponentText (digits : String) (exponent : Int) : String :=
  let fraction := String.ofList (digits.toList.drop 1)
  let point := if fraction.isEmpty then "" else "."
  String.ofList (digits.toList.take 1) ++ point ++ fraction ++ "e" ++
    toString (Int.ofNat digits.length + exponent - 1)

def decimalText (l : Layout) (d : Number) : String :=
  let digits := toString d.digits
  let k := Int.ofNat digits.length + d.exponent
  let isPositional := match l.positional with
    | none => true
    | some (low, high) => low < k && k ≤ high
  if isPositional then l.positionalText digits d.exponent else exponentText digits d.exponent

def signText (negative : Bool) : String := if negative then "-" else ""

def text (l : Layout) : BinaryFloat → String
  | .nan => "NaN"
  | .infinite negative => signText negative ++ "inf"
  | .zero negative => signText negative ++ if l.showsWhole then "0.0" else "0"
  | .finite negative mantissa exponent narrow =>
    signText negative ++ l.decimalText (shortest l.tie mantissa exponent narrow)

end Layout
end TickingTable.Decimal
