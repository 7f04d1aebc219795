import TickingTable.Decoder.Error
import TickingTable.Executor
import TickingTable.Promise
import TickingTable.Transport.Exchange

/-! Why a subscription was not made, and why one ended. -/

namespace TickingTable

/-- A failure to make a subscription, which whoever asked for it is told. -/
inductive SubscribeError where
  | setup (e : TransportError)
  | executor (e : ExecutorError)
  /-- The setup was given up before it had a result. -/
  | cancelled
deriving DecidableEq

def SubscribeError.message : SubscribeError → String
  | .setup e => "subscription setup failed: " ++ e.message
  | .executor e => e.message
  | .cancelled => "subscription setup was cancelled"

def SubscribeError.ofPromise : PromiseError → SubscribeError
  | .abandoned => .cancelled
  | .alreadyFulfilled => .setup (.ofText (PromiseError.alreadyFulfilled).message)

/-- The end of a subscription that was made. -/
inductive SubscriptionError where
  | protocol (e : ProtocolError)
  | transport (e : TransportError)
  | streamClosed
  | callbackPanicked (text : String)
  /-- The subscriber is not told of this end, since it asked for it. -/
  | cancelled
deriving DecidableEq

def SubscriptionError.message : SubscriptionError → String
  | .protocol e => "protocol violation: " ++ e.message
  | .transport e => "transport error: " ++ e.message
  | .streamClosed => "server closed the stream"
  | .callbackPanicked text => "ticking callback panicked: " ++ text
  | .cancelled => "subscription was cancelled"

end TickingTable
