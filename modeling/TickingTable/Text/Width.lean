import TickingTable.Text.Emoji
import TickingTable.Text.Joining
import TickingTable.Text.Wide

/-!
How many columns of a terminal a text takes. Ligatures and sequences of emoji take less than their
characters do apart. A text is read from its end, because what a character takes hangs on what
comes behind it.
-/

namespace TickingTable.Width

/-- Which of its forms a character is to have. -/
inductive Selector where
  | text
  | emoji
  | wideQuote
deriving DecidableEq

/-- The beginning of the text behind a character, where that can change what the character takes.
`joined` tells whether a joiner stands in front. -/
inductive Front where
  | plain
  | lineFeed
  | alef
  | lamed (joined : Bool)
  | ya (joined : Bool)
  /-- The vowel i, a joiner and ya. -/
  | vowelYa
  | tifinagh (joined : Bool)
  /-- The joiner of Tifinagh and a consonant. -/
  | tifinaghPair
  | lisuTone
  | orkhonI (joined : Bool)
  | coengLetter
  | kiratE
  | kiratAi
  | skinTone
  | flagLetter
  | flagLetters
  | emoji
  | joinedEmoji
  | joinedKeycap
  | joinedFlagLetter
  | joinedFlagLetters (odd : Bool)
  /-- The given number of tag letters, and the end of the tags of a joined flag. -/
  | joinedTags (letters : Nat)
  /-- The given number of tag digits, and tags of a joined flag. -/
  | joinedDigits (digits : Nat)
deriving DecidableEq

namespace Front

/-- What a character begins if nothing behind it matters. -/
def ofChar (c : Char) : Front :=
  if c = '\n' then .lineFeed
  else if alefRanges.has c then .alef
  else if c = '\u05DC' then .lamed false
  else if coengRanges.has c then .coengLetter
  else if c = '\u1A10' then .ya false
  else if tifinaghRanges.has c then .tifinagh false
  else if c = '\uA4FC' ∨ c = '\uA4FD' then .lisuTone
  else if c.toNat = 0x10C03 then .orkhonI false
  else if c.toNat = 0x16D67 then .kiratE
  else if c.toNat = 0x16D68 then .kiratAi
  else if isFlagLetter c then .flagLetter
  else if isSkinTone c then .skinTone
  else if isEmoji c then .emoji
  else .plain

/-- Whether a letter of a script is at the front that may be part of a ligature. -/
def isLetter : Front → Bool
  | .alef | .lamed _ | .ya _ | .vowelYa | .tifinagh _ | .tifinaghPair => true
  | .lisuTone | .orkhonI _ | .coengLetter => true
  | _ => false

/-- Whether a joiner and marks that do not show can stand in front without a difference to the
ligature. -/
def allowsMarks (f : Front) : Bool := f.isLetter && f ≠ .alef

def isJoined : Front → Bool
  | .joinedEmoji | .joinedKeycap => true
  | _ => false

def join : Front → Front
  | .lamed _ => .lamed true
  | .ya _ => .ya true
  | .tifinagh _ => .tifinagh true
  | .orkhonI _ => .orkhonI true
  | f => f

/-- The ligatures that letters of a script make: how much a character adds to the width, and what
its ligature begins. -/
def ligature? (c : Char) : Front → Option (Int × Front)
  | .alef =>
    if lamRanges.has c then some (0, .plain)
    else if isTransparent c then some (0, .alef)
    else none
  | .lamed true => if c = '\u05D0' then some (0, .plain) else none
  | .coengLetter => if c = '\u17D2' then some (-1, .plain) else none
  | .ya true => if c = '\u1A17' then some (0, .vowelYa) else none
  | .vowelYa => if c = '\u1A15' then some (0, .plain) else none
  | .tifinagh joined =>
    if c = '\u2D7F' then some (1, .tifinaghPair)
    else if joined && tifinaghRanges.has c then some (0, .plain)
    else none
  | .tifinaghPair => if tifinaghRanges.has c then some (-1, .plain) else none
  | .lisuTone => if CharRanges.has [(0xA4F8, 0xA4FB)] c then some (0, .plain) else none
  | .orkhonI true => if c.toNat = 0x10C32 then some (0, .plain) else none
  | .kiratE =>
    if c.toNat = 0x16D63 ∨ c.toNat = 0x16D69 then some (0, .plain)
    else if c.toNat = 0x16D67 then some (0, .kiratAi)
    else if c.toNat = 0x16D68 then some (1, .kiratE)
    else none
  | .kiratAi => if c.toNat = 0x16D63 then some (0, .plain) else none
  | _ => none

/-- The sequences that emoji make: how much a character adds to the width, and what its sequence
begins. A flag is a black flag with the letters and digits of its region as tags. -/
def sequence? (c : Char) : Front → Option (Int × Front)
  | .skinTone =>
    if takesSkinTone c then some (0, .emoji)
    else if c = '\u200D' then some (0, .joinedEmoji)
    else none
  | .flagLetter => if isFlagLetter c then some (1, .flagLetters) else none
  | .flagLetters =>
    if isFlagLetter c then some (1, .flagLetters)
    else if c = '\u200D' then some (0, .joinedEmoji)
    else none
  | .emoji => if c = '\u200D' then some (0, .joinedEmoji) else none
  | .joinedEmoji =>
    if c = '\u20E3' then some (0, .joinedKeycap)
    else if isFlagLetter c then some (1, .joinedFlagLetter)
    else if isSkinTone c then some (0, .skinTone)
    else if c.toNat = 0xE007F then some (0, .joinedTags 0)
    else if isEmoji c then some (0, .emoji)
    else none
  | .joinedFlagLetter => if isFlagLetter c then some (-1, .joinedFlagLetters false) else none
  | .joinedFlagLetters odd =>
    if isFlagLetter c then some (if odd then -1 else 3, .joinedFlagLetters !odd)
    else if c = '\u200D' then some (0, .joinedEmoji)
    else none
  | .joinedTags letters =>
    if isTagLetter c && letters < 6 then some (0, .joinedTags (letters + 1))
    else if isTagDigit c && letters ≤ 4 then some (0, .joinedDigits 1)
    else if c.toNat = 0x1F3F4 && 3 ≤ letters then some (0, .emoji)
    else none
  | .joinedDigits digits =>
    if isTagDigit c && digits < 3 then some (0, .joinedDigits (digits + 1))
    else if c.toNat = 0x1F3F4 && digits = 3 then some (0, .emoji)
    else none
  | _ => none

end Front

/-- What a single character takes. A control takes one column. -/
def ofChar (c : Char) : Nat :=
  if c.toNat < 0xA0 then 1
  else if c = '\u17D8' then 3
  else if c = '\u17A4' then 2
  else if isZeroWidth c then 0
  else if isWide c then 2
  else 1

/-- Whether what comes behind a selector still matters to the character before it. -/
def Selector.reachesOver : Selector → Front → Bool
  | .emoji, f => f.isLetter || f.isJoined
  | _, f => f.isLetter

/-- The selector that a character is. -/
def Selector.ofChar? (c : Char) : Option Selector :=
  if c = '\uFE0F' then some .emoji
  else if c = '\uFE0E' then some .text
  else if c = '\uFE01' then some .wideQuote
  else none

def isQuote (c : Char) : Bool := c = '‘' || c = '’' || c = '“' || c = '”'

/-- The width of a text so far, what it begins with, and the selectors that ask for forms of the
character before it. -/
structure Reading where
  width : Int
  front : Front
  selectors : List Selector
deriving DecidableEq

namespace Reading

def empty : Reading := ⟨0, .plain, []⟩

/-- Puts a selector before the text. It adds to those that letters were given already. -/
def select (r : Reading) (s : Selector) : Reading :=
  if s.reachesOver r.front then { r with selectors := s :: r.selectors } else ⟨r.width, .plain, [s]⟩

/-- A character that is no emoji ends what a selector of emoji asked for. -/
def dropEmoji (r : Reading) : Reading :=
  if .emoji ∉ r.selectors then r
  else if r.front.isLetter then { r with selectors := r.selectors.filter (· ≠ .emoji) }
  else ⟨r.width, .plain, []⟩

/-- Puts a character before the text that takes a column whatever comes behind it. A carriage return
and the line feed after it are one. -/
def pushNarrow (r : Reading) (c : Char) : Reading :=
  if c = '\r' ∧ r.front = .lineFeed then ⟨r.width, .plain, []⟩
  else ⟨r.width + 1, if c = '\n' then .lineFeed else .plain, []⟩

/-- Puts a character before the text that has no selector. -/
def pushPlain (r : Reading) (c : Char) : Reading :=
  if r.front.allowsMarks && ligatureMarkRanges.has c then
    ⟨r.width, if c = '\u200D' then r.front.join else r.front, []⟩
  else
    match r.front.ligature? c <|> r.front.sequence? c with
    | some (width, front) => ⟨r.width + width, front, []⟩
    | none => ⟨r.width + ofChar c, .ofChar c, []⟩

/-- Puts a character before the text. -/
def push (c : Char) (r : Reading) : Reading :=
  if .emoji ∈ r.selectors ∧ isVariableEmoji c then
    ⟨r.width + if r.front.isJoined then 0 else 2, .emoji, []⟩
  else
    let r := r.dropEmoji
    if c.toNat ≤ 0xA0 then r.pushNarrow c
    else match Selector.ofChar? c with
      | some s => r.select s
      | none =>
        if .text ∈ r.selectors ∧ isNarrowAsText c then ⟨r.width + 1, .plain, []⟩
        else if .wideQuote ∈ r.selectors ∧ isQuote c then ⟨r.width + 2, .plain, []⟩
        else r.pushPlain c

end Reading

def ofChars (s : List Char) : Nat := (s.foldr Reading.push .empty).width.toNat

def ofString (s : String) : Nat := ofChars s.toList

end TickingTable.Width
