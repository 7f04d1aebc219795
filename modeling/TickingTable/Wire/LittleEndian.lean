/-! Numbers as bytes, the least significant first. -/

namespace TickingTable.LittleEndian

/-- The last `width` bytes of a number. -/
def encode : Nat → Nat → List UInt8
  | 0, _ => []
  | width + 1, n => UInt8.ofNat (n % 256) :: encode width (n / 256)

def decode : List UInt8 → Nat
  | [] => 0
  | b :: l => b.toNat + 256 * decode l

end TickingTable.LittleEndian
