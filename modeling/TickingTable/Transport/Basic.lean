import TickingTable.Transport.Exchange

/-! A transport within one process: a client opens exchanges and a server accepts them. -/

namespace TickingTable

/-- The number of an exchange is its place among all that were opened. -/
structure Transport where
  /-- Whether there is a server to accept exchanges. -/
  hasServer : Bool
  exchanges : List Exchange
  /-- The exchanges that wait for the server, the oldest first. -/
  waiting : List Nat

namespace Transport

def create : Transport := ⟨true, [], []⟩

/-- The headers of each exchange. -/
def headers (t : Transport) : List (List (String × String)) := t.exchanges.map Exchange.headers

def exchange? (t : Transport) (i : Nat) : Option Exchange := t.exchanges[i]?

def modify (t : Transport) (i : Nat) (f : Exchange → Exchange) : Transport :=
  { t with exchanges := t.exchanges.modify i f }

def openExchange (t : Transport) (headers : List (String × String)) (command : List UInt8) :
    Except TransportError (Nat × Transport) :=
  let i := t.exchanges.length
  if t.hasServer then
    .ok (i, { t with
      exchanges := t.exchanges ++ [.create headers command]
      waiting := t.waiting ++ [i] })
  else .error .notAccepting

/-- Takes the exchange that has waited longest. -/
def accept? (t : Transport) : Option (Nat × Transport) :=
  match t.waiting with
  | [] => none
  | i :: waiting => some (i, { t with waiting })

theorem headers_modify {t : Transport} {i : Nat} {f : Exchange → Exchange}
    (h : ∀ x, t.exchange? i = some x → (f x).headers = x.headers) :
    (t.modify i f).headers = t.headers := by
  apply List.ext_getElem?
  intro j
  simp only [headers, modify, List.getElem?_map, List.getElem?_modify]
  by_cases hj : i = j
  · subst hj
    cases hx : t.exchanges[i]? with
    | none => simp
    | some x => simp [h x hx]
  · simp [hj]

theorem headers_openExchange {t u : Transport} {hs : List (String × String)} {command : List UInt8}
    {i : Nat} (h : t.openExchange hs command = .ok (i, u)) :
    i = t.exchanges.length ∧ u.headers = t.headers ++ [hs] := by
  unfold openExchange at h
  dsimp only at h
  split at h
  · cases h
    exact ⟨rfl, List.map_append⟩
  · cases h

/-- Drops the server, and with it its side of every exchange that still waits. -/
def dropServer (t : Transport) : Transport :=
  let t := t.waiting.foldl (fun t i => t.modify i Exchange.dropServer) t
  { t with hasServer := false, waiting := [] }

end Transport
end TickingTable
