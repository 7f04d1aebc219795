/-! What a client asks of the server for one subscription. -/

namespace TickingTable

structure SubscriptionOptions where
  /-- Nulls are sent as reserved values instead of validity bits. -/
  sentinelNulls : Bool := false
  /-- The least time between two updates in milliseconds. Zero leaves it to the server. -/
  minUpdateInterval : UInt32 := 0
  /-- The most rows in one frame. -/
  batchSize : UInt32 := 4096
  /-- The most bytes in one message. -/
  maxMessageSize : UInt32 := 104857600
deriving DecidableEq

end TickingTable
