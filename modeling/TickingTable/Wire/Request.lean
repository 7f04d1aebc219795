import TickingTable.Options
import TickingTable.Ticket
import TickingTable.Wire.Reader

/-! The request that opens a subscription, the only message a client sends. -/

namespace TickingTable

structure SubscriptionRequest where
  ticket : Ticket
  options : SubscriptionOptions
deriving DecidableEq

namespace SubscriptionRequest

def messageType : UInt8 := 4

open Wire

def encode (r : SubscriptionRequest) : List UInt8 :=
  encodeHeader messageType ++ LittleEndian.encode 4 r.ticket.bytes.length ++ r.ticket.bytes ++
    [if r.options.sentinelNulls then 1 else 0] ++
    LittleEndian.encode 4 r.options.minUpdateInterval.toNat ++
    LittleEndian.encode 4 r.options.batchSize.toNat ++
    LittleEndian.encode 4 r.options.maxMessageSize.toNat

/-- Only the lowest bit of the flags byte has a meaning. -/
def reader : Reader SubscriptionRequest := do
  readHeader messageType
  let length ← Reader.u32
  let ticket ← Reader.bytes length
  let flags ← Reader.u8
  let interval ← Reader.u32
  let batch ← Reader.u32
  let size ← Reader.u32
  return ⟨⟨ticket⟩, ⟨flags &&& 1 ≠ 0, UInt32.ofNat interval, UInt32.ofNat batch, UInt32.ofNat size⟩⟩

def decode (input : List UInt8) : Except Wire.Error SubscriptionRequest := reader.runAll input

end SubscriptionRequest
end TickingTable
