/-! Classes of characters given by ranges of their numbers. -/

namespace TickingTable

/-- Each range has its first and its last number. -/
abbrev CharRanges := List (Nat × Nat)

def CharRanges.has (ranges : CharRanges) (c : Char) : Bool :=
  ranges.any fun (lo, hi) => decide (lo ≤ c.toNat) && decide (c.toNat ≤ hi)

end TickingTable
