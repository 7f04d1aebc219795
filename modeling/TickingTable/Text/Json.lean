import TickingTable.Text.Hex

/-! Reading JSON texts. -/

namespace TickingTable.Json

/-- A JSON value. Numbers keep their spelling. Strings are lists of code points, since escapes may
write half a surrogate pair, which no text can hold. Objects keep all members in order. -/
inductive Tree where
  | null
  | bool (b : Bool)
  | number (spelling : List Char)
  | string (points : List Nat)
  | array (items : List Tree)
  | object (members : List (List Nat × Tree))

def isSpace (c : Char) : Bool := c = ' ' || c = '\n' || c = '\t' || c = '\r'

def skipSpaces (l : List Char) : List Char := l.dropWhile isSpace

def simpleEscape? : Char → Option Nat
  | '"' => some 34
  | '\\' => some 92
  | '/' => some 47
  | 'b' => some 8
  | 'f' => some 12
  | 'n' => some 10
  | 'r' => some 13
  | 't' => some 9
  | _ => none

def hexUnit? (a b c d : Char) : Option Nat := do
  let a ← Hex.digitValue? a
  let b ← Hex.digitValue? b
  let c ← Hex.digitValue? c
  let d ← Hex.digitValue? d
  return ((a * 16 + b) * 16 + c) * 16 + d

/-- The units of a string up to its closing quote, and what follows that. -/
def stringBody : List Char → Option (List Nat × List Char)
  | [] => none
  | '"' :: l => some ([], l)
  | '\\' :: 'u' :: a :: b :: c :: d :: l => do
    let unit ← hexUnit? a b c d
    let (units, rest) ← stringBody l
    return (unit :: units, rest)
  | '\\' :: c :: l => do
    let unit ← simpleEscape? c
    let (units, rest) ← stringBody l
    return (unit :: units, rest)
  | c :: l =>
    if c.toNat < 32 then none
    else do
      let (units, rest) ← stringBody l
      return (c.toNat :: units, rest)

/-- Joins the two halves of surrogate pairs. -/
def joinPairs : List Nat → List Nat
  | high :: low :: l =>
    if 0xD800 ≤ high ∧ high < 0xDC00 ∧ 0xDC00 ≤ low ∧ low < 0xE000 then
      (0x10000 + (high - 0xD800) * 0x400 + (low - 0xDC00)) :: joinPairs l
    else high :: joinPairs (low :: l)
  | l => l

def stringPoints (l : List Char) : Option (List Nat × List Char) :=
  (stringBody l).map fun (units, rest) => (joinPairs units, rest)

/-- At least one digit and what follows the digits. -/
def digits? (l : List Char) : Option (List Char × List Char) :=
  match l.span Char.isDigit with
  | ([], _) => none
  | split => some split

def wholePart? : List Char → Option (List Char × List Char)
  | '0' :: l => some (['0'], l)
  | l => digits? l

def fractionPart? : List Char → Option (List Char × List Char)
  | '.' :: l => (digits? l).map fun (spelling, rest) => ('.' :: spelling, rest)
  | l => some ([], l)

def exponentPart? (l : List Char) : Option (List Char × List Char) :=
  match l with
  | e :: '+' :: rest => if e = 'e' ∨ e = 'E' then prepend [e, '+'] (digits? rest) else some ([], l)
  | e :: '-' :: rest => if e = 'e' ∨ e = 'E' then prepend [e, '-'] (digits? rest) else some ([], l)
  | e :: rest => if e = 'e' ∨ e = 'E' then prepend [e] (digits? rest) else some ([], l)
  | [] => some ([], [])
where
  prepend (start : List Char) (o : Option (List Char × List Char)) :=
    o.map fun (spelling, rest) => (start ++ spelling, rest)

def unsigned? (l : List Char) : Option (List Char × List Char) := do
  let (whole, l) ← wholePart? l
  let (fraction, l) ← fractionPart? l
  let (exponent, l) ← exponentPart? l
  return (whole ++ fraction ++ exponent, l)

def number? : List Char → Option (List Char × List Char)
  | '-' :: l => (unsigned? l).map fun (spelling, rest) => ('-' :: spelling, rest)
  | l => unsigned? l

mutual

/-- Reads a value from the front. Each call takes a character or the fuel, so that the number of
characters plus one is fuel enough. -/
def value? : Nat → List Char → Option (Tree × List Char)
  | 0, _ => none
  | fuel + 1, l =>
    match skipSpaces l with
    | 'n' :: 'u' :: 'l' :: 'l' :: l => some (.null, l)
    | 't' :: 'r' :: 'u' :: 'e' :: l => some (.bool true, l)
    | 'f' :: 'a' :: 'l' :: 's' :: 'e' :: l => some (.bool false, l)
    | '"' :: l => (stringPoints l).map fun (points, rest) => (.string points, rest)
    | '[' :: l =>
      match skipSpaces l with
      | ']' :: l => some (.array [], l)
      | l => (items? fuel l).map fun (items, rest) => (.array items, rest)
    | '\x7b' :: l =>
      match skipSpaces l with
      | '\x7d' :: l => some (.object [], l)
      | l => (members? fuel l).map fun (members, rest) => (.object members, rest)
    | l => (number? l).map fun (spelling, rest) => (.number spelling, rest)

/-- Reads the items of an array, of which there is at least one. -/
def items? : Nat → List Char → Option (List Tree × List Char)
  | 0, _ => none
  | fuel + 1, l => do
    let (item, l) ← value? fuel l
    match skipSpaces l with
    | ',' :: l => do
      let (items, l) ← items? fuel l
      return (item :: items, l)
    | ']' :: l => return ([item], l)
    | _ => none

/-- Reads the members of an object, of which there is at least one. -/
def members? : Nat → List Char → Option (List (List Nat × Tree) × List Char)
  | 0, _ => none
  | fuel + 1, l =>
    match skipSpaces l with
    | '"' :: l => do
      let (key, l) ← stringPoints l
      match skipSpaces l with
      | ':' :: l => do
        let (value, l) ← value? fuel l
        match skipSpaces l with
        | ',' :: l => do
          let (members, l) ← members? fuel l
          return ((key, value) :: members, l)
        | '\x7d' :: l => return ([(key, value)], l)
        | _ => none
      | _ => none
    | _ => none

end

/-- The value of a text that holds nothing else. -/
def parse? (s : String) : Option Tree :=
  match value? (s.length + 1) s.toList with
  | some (tree, rest) => if (skipSpaces rest).isEmpty then some tree else none
  | none => none

def charOf? (n : Nat) : Option Char := if n.isValidChar then some (Char.ofNat n) else none

/-- The text of a string, if it holds no half of a surrogate pair. -/
def textOf? (points : List Nat) : Option String := do
  return String.ofList (← points.mapM charOf?)

namespace Tree

def text? : Tree → Option String
  | .string points => textOf? points
  | _ => none

def bool? : Tree → Option Bool
  | .bool b => some b
  | _ => none

/-- A number spelled with digits alone. -/
def nat? : Tree → Option Nat
  | .number spelling => if spelling.all Char.isDigit then (String.ofList spelling).toNat? else none
  | _ => none

/-- A number spelled with digits alone that is below `bound`. -/
def natBelow? (bound : Nat) (t : Tree) : Option Nat := t.nat?.filter fun n => decide (n < bound)

def items? : Tree → Option (List Tree)
  | .array items => some items
  | _ => none

/-- The members of an object whose keys are all texts. -/
def members? : Tree → Option (List (String × Tree))
  | .object members => members.mapM fun (key, value) => do return (← textOf? key, value)
  | _ => none

end Tree
end TickingTable.Json
