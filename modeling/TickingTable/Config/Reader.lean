import TickingTable.Config.Basic
import TickingTable.Text.Json
import TickingTable.Ticket

/-! Reading configurations and tickets from JSON. -/

namespace TickingTable

open Json

namespace Json

/-- The fields of a record, which is written as an object or as an array of the fields in order.
An object may leave out fields and have unknown ones but may not repeat a known one. An array may
leave out the last ones. -/
def record? (names : List String) : Tree → Option (List (Option Tree))
  | .array items =>
    if items.length ≤ names.length then
      some ((List.range names.length).map fun i => items[i]?)
    else none
  | t => do
    let members ← t.members?
    names.mapM fun name =>
      match members.filter fun m => m.1 = name with
      | [] => some none
      | [m] => some (some m.2)
      | _ => none

/-- A field that takes its default if it is left out. -/
def field? (read : Tree → Option α) (default : α) : Option Tree → Option α
  | none => some default
  | some t => read t

end Json

namespace SubscriptionOptions

def ofJson? (t : Tree) : Option SubscriptionOptions := do
  let [nulls, interval, batch, size] ← record?
    ["use_deephaven_nulls", "min_update_interval_ms", "batch_size", "max_message_size"] t | none
  let base : SubscriptionOptions := {}
  let word (t : Tree) : Option UInt32 := (t.natBelow? UInt32.size).map UInt32.ofNat
  return {
    sentinelNulls := ← field? Tree.bool? base.sentinelNulls nulls
    minUpdateInterval := ← field? word base.minUpdateInterval interval
    batchSize := ← field? word base.batchSize batch
    maxMessageSize := ← field? word base.maxMessageSize size }

end SubscriptionOptions

namespace ClientConfig

def authorizationOf? : Tree → Option (Option String)
  | .null => some none
  | t => t.text?.map some

def headersOf? (t : Tree) : Option HeaderMap := do
  let members ← t.members?
  let entries ← members.mapM fun (name, value) => do return (name, ← value.text?)
  return .ofList entries

def ofJson? (t : Tree) : Option ClientConfig := do
  let [authorization, headers, subscription, executor] ← record?
    ["authorization", "extra_headers", "subscription", "flight_executor_name"] t | none
  let base : ClientConfig := {}
  return {
    authorization := ← field? authorizationOf? base.authorization authorization
    extraHeaders := ← field? headersOf? base.extraHeaders headers
    subscription := ← field? SubscriptionOptions.ofJson? base.subscription subscription
    executorName := ← field? Tree.text? base.executorName executor }

def parse? (s : String) : Option ClientConfig := Json.parse? s >>= ofJson?

end ClientConfig

/-- A ticket is written as an array of the numbers of its bytes. -/
def Ticket.parse? (s : String) : Option Ticket := do
  let items ← (← Json.parse? s).items?
  let bytes ← items.mapM fun t => (t.natBelow? 256).map UInt8.ofNat
  return ⟨bytes⟩

end TickingTable
