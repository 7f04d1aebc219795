import TickingTable.Arrow.Array

/-! List arrays given by the lengths of their elements, or by one length for all of them. -/

namespace TickingTable.Arrow

/-- Why lengths and marks do not make a list array. -/
inductive ListError where
  /-- The lengths add up to more than a word holds. -/
  | totalOverflow
  /-- The lengths add up to more than an offset holds. -/
  | offsetOverflow
  | missingValues (needed available : Nat)
  | maskLength (large : Bool) (elements marks : Nat)
  | negativeSize (size : Int)
deriving DecidableEq

def ListError.message : ListError → String
  | .totalOverflow => "usize overflow"
  | .offsetOverflow => "offset overflow"
  | .missingValues needed available =>
    unhandled ("Max offset of " ++ toString needed ++ " exceeds length of values " ++
      toString available)
  | .maskLength large elements marks =>
    unhandled ("Incorrect length of null buffer for " ++ (if large then "Large" else "") ++
      "ListArray, expected " ++ toString elements ++ " got " ++ toString marks)
  | .negativeSize size => unhandled ("Size cannot be negative, got " ++ toString size)

/-- One more than the greatest offset, which is signed. -/
def offsetBound (large : Bool) : Nat := (if large then UInt64.size else UInt32.size) / 2

/-- Elements of the given lengths, one after the other. -/
def ListElement.ofLengths (start : Nat) : List (Nat × Bool) → List ListElement
  | [] => []
  | (length, valid) :: l => ⟨start, length, valid⟩ :: ofLengths (start + length) l

/-- Lists of the given lengths that take their values from `a`, which may have more of them. If
`valid` is given, it tells which of the lists are valid. -/
def AnyArray.ofLengths (large : Bool) (lengths : List Nat) (valid : Option (List Bool))
    (a : AnyArray) : Except ListError AnyArray :=
  let total := lengths.foldl (· + ·) 0
  let marks := valid.getD (lengths.map fun _ => true)
  if UInt64.size ≤ total then .error .totalOverflow
  else if offsetBound large ≤ total then .error .offsetOverflow
  else if a.size < total then .error (.missingValues total a.size)
  else if marks.length ≠ lengths.length then
    .error (.maskLength large lengths.length marks.length)
  else .ok (.list large valid.isSome (ListElement.ofLengths 0 (lengths.zip marks)) a)

/-- A list array with one element that holds all of `a`. -/
def AnyArray.wrap (a : AnyArray) : Except ListError AnyArray := a.ofLengths false [a.size] none

/-- Lists of `size` values each, as many as `a` has values for. There are none of no values. -/
def AnyArray.ofFixed (size : Int) (a : AnyArray) : Except ListError AnyArray :=
  if size < 0 then .error (.negativeSize size)
  else .ok (.blank (.fixedSizeList a.type size) (a.size / size.toNat))

end TickingTable.Arrow
