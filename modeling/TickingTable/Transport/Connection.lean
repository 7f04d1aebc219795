import TickingTable.Transport.Basic

/-! Connections: what a client needs of a transport. -/

namespace TickingTable

/-- What became of a call to a connection. -/
inductive CallOutcome (α : Type) where
  | returned (a : α)
  | failed (e : TransportError)
  | panicked
deriving DecidableEq

/-- A connection to a server with state `σ`, by which exchanges are opened and known by a number. -/
structure Connection (σ : Type) where
  openExchange : σ → List (String × String) → List UInt8 → CallOutcome Nat × σ
  write : σ → Nat → List UInt8 → CallOutcome Unit × σ

namespace Transport

/-- Writes to the exchange of that number. One that was never opened has no server. -/
def write (t : Transport) (i : Nat) (request : List UInt8) : Except TransportError Transport :=
  match t.exchange? i with
  | none => .error .closedByServer
  | some x => do
    let x ← x.write request
    return t.modify i fun _ => x

def connection : Connection Transport where
  openExchange t headers command :=
    match t.openExchange headers command with
    | .ok (i, t) => (.returned i, t)
    | .error e => (.failed e, t)
  write t i request :=
    match t.write i request with
    | .ok t => (.returned (), t)
    | .error e => (.failed e, t)

theorem headers_write {t u : Transport} {i : Nat} {request : List UInt8}
    (h : t.write i request = .ok u) : u.headers = t.headers := by
  unfold write at h
  cases hx : t.exchange? i with
  | none =>
    rw [hx] at h
    cases h
  | some x =>
    rw [hx] at h
    dsimp only at h
    cases hwritten : x.write request with
    | error e =>
      rw [hwritten] at h
      cases h
    | ok y =>
      rw [hwritten] at h
      cases h
      refine headers_modify fun z hz => ?_
      cases hx.symm.trans hz
      exact Exchange.headers_write hwritten

/-- A connection over which clients open the exchanges of a transport. Its calls may fail or panic,
also after they have done their work, but they forget no exchange and no headers. -/
structure Link extends Connection Transport where
  /-- What is opened is the next exchange, with the headers that were asked for. -/
  opened : ∀ t headers command i u, openExchange t headers command = (.returned i, u) →
    i = t.exchanges.length ∧ u.headers = t.headers ++ [headers]
  kept : ∀ t headers command, t.headers <+: (openExchange t headers command).2.headers
  written : ∀ t i message, (write t i message).2.headers = t.headers

/-- The connection within one process. -/
def link : Link where
  toConnection := connection
  opened t headers command i u h := by
    simp only [connection] at h
    split at h
    · next hopened =>
      cases h
      exact headers_openExchange hopened
    · cases h
  kept t headers command := by
    simp only [connection]
    split
    · next hopened => exact ⟨_, (headers_openExchange hopened).2.symm⟩
    · exact List.prefix_refl _
  written t i message := by
    simp only [connection]
    split
    · next hwritten => exact headers_write hwritten
    · rfl

end Transport
end TickingTable
