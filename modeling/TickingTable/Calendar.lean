/-! Calendar dates and times of day of moments, counted in nanoseconds from the start of 1970. -/

namespace TickingTable

structure CivilTime where
  year : Int
  month : Nat
  day : Nat
  hour : Nat
  minute : Nat
  second : Nat
  nanosecond : Nat
deriving DecidableEq

namespace CivilTime

/-- Days from the first of March of year 0 to the first of January 1970. -/
def epochDay : Int := 719468

/-- Year, month and day. Counting from March puts the leap day at the end of the year, and after
every 400 years the calendar starts anew. -/
def ofDay (daysFrom1970 : Int) : Int × Nat × Nat :=
  let day := daysFrom1970 + epochDay
  let era := day.fdiv 146097
  let dayOfEra := (day.fmod 146097).toNat
  let yearOfEra := (dayOfEra - dayOfEra / 1460 + dayOfEra / 36524 - dayOfEra / 146096) / 365
  let dayOfYear := dayOfEra - (365 * yearOfEra + yearOfEra / 4 - yearOfEra / 100)
  let fromMarch := (5 * dayOfYear + 2) / 153
  let month := if fromMarch < 10 then fromMarch + 3 else fromMarch - 9
  let year := Int.ofNat yearOfEra + era * 400 + if month ≤ 2 then 1 else 0
  (year, month, dayOfYear - (153 * fromMarch + 2) / 5 + 1)

def ofNanoseconds (n : Int) : CivilTime :=
  let seconds := n.fdiv 1000000000
  let date := ofDay (seconds.fdiv 86400)
  let secondOfDay := (seconds.fmod 86400).toNat
  { year := date.1
    month := date.2.1
    day := date.2.2
    hour := secondOfDay / 3600
    minute := secondOfDay / 60 % 60
    second := secondOfDay % 60
    nanosecond := (n.fmod 1000000000).toNat }

/-- The number with zeros in front up to `width` digits. -/
def padded (width n : Nat) : String :=
  let digits := toString n
  String.ofList (List.replicate (width - digits.length) '0') ++ digits

/-- Three, six or nine digits of a second, as many as are needed, or none. -/
def fractionText (nanosecond : Nat) : String :=
  if nanosecond = 0 then ""
  else if nanosecond % 1000000 = 0 then "." ++ padded 3 (nanosecond / 1000000)
  else if nanosecond % 1000 = 0 then "." ++ padded 6 (nanosecond / 1000)
  else "." ++ padded 9 nanosecond

/-- Date and time, such as `2017-07-14T02:40:00.123`, for years from 0 to 9999. -/
def text (t : CivilTime) : String :=
  padded 4 t.year.toNat ++ "-" ++ padded 2 t.month ++ "-" ++ padded 2 t.day ++ "T" ++
    padded 2 t.hour ++ ":" ++ padded 2 t.minute ++ ":" ++ padded 2 t.second ++
    fractionText t.nanosecond

/-- Date and time with the offset of UTC. -/
def utcText (t : CivilTime) : String := t.text ++ "+00:00"

end CivilTime
end TickingTable
