import TickingTable.Text.Extending
import TickingTable.Text.Ignorable
import TickingTable.Text.Printable

/-! Text between double quotes, with escapes for what would not show. -/

namespace TickingTable.Quoted

/-- The hexadecimal digits of a number without leading zeros. -/
def hexDigits (n : Nat) : List Char := Nat.toDigits 16 n

/-- Combining marks are escaped too, and fillers: they would not show by themselves. -/
def escape (c : Char) : List Char :=
  if c = '"' then ['\\', '"']
  else if c = '\\' then ['\\', '\\']
  else if c = '\n' then ['\\', 'n']
  else if c = '\r' then ['\\', 'r']
  else if c = '\t' then ['\\', 't']
  else if c = '\x00' then ['\\', '0']
  else if isExtending c || isIgnorable c || !isPrintable c then
    ['\\', 'u', '\x7b'] ++ hexDigits c.toNat ++ ['\x7d']
  else [c]

def text (s : String) : String :=
  String.ofList ('"' :: s.toList.flatMap escape ++ ['"'])

end TickingTable.Quoted
