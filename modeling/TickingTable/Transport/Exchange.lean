import TickingTable.Arrow.Batch

/-! Exchanges: a client sends requests to a server and reads the stream that comes back. -/

namespace TickingTable

/-- What went wrong and, before it, what that made go wrong. -/
structure TransportError where
  causes : List String
deriving DecidableEq

namespace TransportError

def ofText (text : String) : TransportError := ⟨[text]⟩

/-- Puts a failure in front of its cause. -/
def inContext (e : TransportError) (text : String) : TransportError := ⟨text :: e.causes⟩

def message (e : TransportError) : String := String.intercalate ": " e.causes

def cancelled : TransportError := ofText "stream was cancelled"

def closedByServer : TransportError := ofText "exchange closed by the server"

def notAccepting : TransportError := ofText "server is not accepting exchanges"

end TransportError

/-- One record batch of a stream with the metadata sent beside it. -/
structure Chunk where
  columns : List Arrow.AnyArray
  rows : Nat
  metadata : Option (List UInt8)
  size_eq_rows : ∀ a ∈ columns, a.size = rows
deriving DecidableEq

/-- Columns that are not of one length make no chunk. -/
inductive ChunkError where
  | uneven
deriving DecidableEq

def ChunkError.message : ChunkError → String
  | .uneven => Arrow.unhandled Arrow.BatchError.rowCount.cause

/-- A chunk has as many rows as its columns. Only one without columns needs to be told. -/
def Chunk.ofColumns (columns : List Arrow.AnyArray) (rows : Nat) (metadata : Option (List UInt8)) :
    Except ChunkError Chunk :=
  let rows := columns.head?.elim rows Arrow.AnyArray.size
  if h : ∀ a ∈ columns, a.size = rows then .ok ⟨columns, rows, metadata, h⟩ else .error .uneven

/-- What a client reads from its stream. -/
inductive Reading where
  | chunk (c : Chunk)
  | failed (e : TransportError)
  | ended
deriving DecidableEq

structure Exchange where
  headers : List (String × String)
  command : List UInt8
  /-- What the client wrote and the server has not taken, the oldest first. -/
  requests : List (List UInt8)
  /-- What the server sent and the client has not read, the oldest first. -/
  items : List (Except TransportError Chunk)
  hasServer : Bool
  hasWriter : Bool
  hasReader : Bool
  cancelled : Bool

namespace Exchange

def create (headers : List (String × String)) (command : List UInt8) : Exchange :=
  ⟨headers, command, [], [], true, true, true, false⟩

def write (x : Exchange) (request : List UInt8) : Except TransportError Exchange :=
  if x.hasServer then .ok { x with requests := x.requests ++ [request] }
  else .error .closedByServer

theorem headers_write {x y : Exchange} {request : List UInt8} (h : x.write request = .ok y) :
    y.headers = x.headers := by
  unfold write at h
  split at h
  · cases h
    rfl
  · cases h

def receive? (x : Exchange) : Option (List UInt8 × Exchange) :=
  match x.requests with
  | [] => none
  | request :: requests => some (request, { x with requests })

/-- Sends an item unless the client has stopped reading. -/
def send (x : Exchange) (item : Except TransportError Chunk) : Exchange :=
  if x.hasReader then { x with items := x.items ++ [item] } else x

/-- Takes the next item, or none as long as the client has to wait for one. Nothing is read any more
once the stream is cancelled. -/
def next? (x : Exchange) : Option (Reading × Exchange) :=
  if x.cancelled then some (.failed .cancelled, x)
  else match x.items with
    | .ok c :: items => some (.chunk c, { x with items })
    | .error e :: items => some (.failed e, { x with items })
    | [] => if x.hasServer then none else some (.ended, x)

theorem items_next? {x y : Exchange} {r : Reading} (h : x.next? = some (r, y)) :
    match r with
    | .chunk _ => y.items.length < x.items.length
    | _ => y.items.length ≤ x.items.length := by
  unfold next? at h
  cases hcancelled : x.cancelled with
  | true =>
    rw [if_pos hcancelled] at h
    cases h
    exact Nat.le_refl _
  | false =>
    rw [hcancelled, if_neg Bool.false_ne_true] at h
    cases hitems : x.items with
    | nil =>
      rw [hitems] at h
      obtain ⟨_, h⟩ := Option.ite_none_left_eq_some.1 h
      cases h
      exact Nat.le_of_eq (congrArg List.length hitems)
    | cons item items =>
      rw [hitems] at h
      cases item with
      | ok c =>
        cases h
        exact Nat.lt_succ_self _
      | error e =>
        cases h
        exact Nat.le_succ _

def cancel (x : Exchange) : Exchange := { x with cancelled := true }

/-- Ends the stream after what has been sent already. -/
def dropServer (x : Exchange) : Exchange := { x with hasServer := false, requests := [] }

def dropWriter (x : Exchange) : Exchange := { x with hasWriter := false }

def dropReader (x : Exchange) : Exchange := { x with hasReader := false, items := [] }

/-- Whether the client has stopped reading. -/
def isClosed (x : Exchange) : Bool := !x.hasReader

end Exchange
end TickingTable
