import TickingTable.Proofs.Client.Subscribers

/-! A client that many threads use at once: some subscribe, one shuts the client down. -/

namespace TickingTable

/-- How far the shutdown of a client has come. -/
inductive Client.Shutdown where
  | ahead
  /-- The client has given away what it tracked, and these have yet to be cancelled. -/
  | cancelling (rest : List Nat)
  | done
deriving DecidableEq

/-- A client with the calls that threads make. -/
structure Crowd where
  client : Client
  /-- The subscriptions that calls have set up and not yet tracked. -/
  fresh : List Nat
  /-- The subscriptions that calls have returned. -/
  returned : List Nat
  /-- Those of them that the client was to track when it had given the others away. -/
  late : List Nat
  shutdown : Client.Shutdown

namespace Client

/-- The first part of a subscribe, which runs on the executor. -/
def setUp (c : Client) (link : Transport.Link) (schema : Schema) (request : SubscriptionRequest)
    (callbacks : Callbacks) : Option (Except SubscribeError Nat) × Client :=
  let (result, executor, c) := c.subscribeWith link c.executor schema request callbacks
  (result, { c with executor })

/-- The last part of a shutdown. -/
def close (c : Client) : Client := { c with executor := (c.executor.shutdown fun _ => []).1 }

/-- A subscribe by a thread that is alone is its setup and, if that succeeds, the tracking. -/
theorem subscribe_eq (c : Client) (link : Transport.Link) (schema : Schema) (ticket : Ticket)
    (options : Option SubscriptionOptions) (callbacks : Callbacks) :
    c.subscribe link schema ticket options callbacks =
      match c.setUp link schema ⟨ticket, options.getD c.config.subscription⟩ callbacks with
      | (some (.ok i), d) => (some (.ok i), d.track i)
      | (result, d) => (result, d) := by
  unfold subscribe setUp
  dsimp only
  generalize c.subscribeWith _ _ _ _ _ = outcome
  obtain ⟨result, executor, d⟩ := outcome
  rcases result with _ | e | i <;> rfl

end Client

namespace Crowd

/-- The steps of the threads that subscribe, of the one that shuts the client down, which takes its
steps in their order, and of the server with the workers. -/
inductive Event where
  | setUp (link : Transport.Link) (schema : Schema) (request : SubscriptionRequest)
      (callbacks : Callbacks)
  | track (i : Nat)
  | shutDown
  | serve (i : Nat) (f : Exchange → Exchange)

def start (client : Client) : Crowd := ⟨client, [], [], [], .ahead⟩

/-- A call whose setup fails returns the failure and does no more. -/
def setUp (c : Crowd) (link : Transport.Link) (schema : Schema) (request : SubscriptionRequest)
    (callbacks : Callbacks) : Crowd :=
  match c.client.setUp link schema request callbacks with
  | (some (.ok i), client) => { c with client, fresh := i :: c.fresh }
  | (_, client) => { c with client }

/-- A call tracks the subscription that it has set up, and returns it. -/
def track (c : Crowd) (i : Nat) : Crowd :=
  { c with
    client := c.client.track i
    fresh := c.fresh.erase i
    returned := i :: c.returned
    late := if c.shutdown = .ahead then c.late else i :: c.late }

def shutDown? (c : Crowd) : Option Crowd :=
  match c.shutdown with
  | .ahead =>
    let (rest, client) := c.client.takeTracked
    some { c with client, shutdown := .cancelling rest }
  | .cancelling (i :: rest) =>
    some { c with client := c.client.cancel i, shutdown := .cancelling rest }
  | .cancelling [] => some { c with client := c.client.close, shutdown := .done }
  | .done => none

def step? (c : Crowd) : Event → Option Crowd
  | .setUp link schema request callbacks => some (c.setUp link schema request callbacks)
  | .track i => if i ∈ c.fresh then some (c.track i) else none
  | .shutDown => c.shutDown?
  | .serve i f => some { c with client := c.client.serve i f }

/-- The crowd after some steps, if each of them can be taken. -/
def run? (c : Crowd) (es : List Event) : Option Crowd := es.foldlM step? c

/-- All that a step can do. -/
inductive Step (c : Crowd) : Event → Crowd → Prop
  | setUp (link : Transport.Link) (schema : Schema) (request : SubscriptionRequest)
    (callbacks : Callbacks) :
    Step c (.setUp link schema request callbacks) (c.setUp link schema request callbacks)
  | track (i : Nat) : i ∈ c.fresh → Step c (.track i) (c.track i)
  | take : c.shutdown = .ahead → Step c .shutDown
    { c with client := c.client.takeTracked.2, shutdown := .cancelling c.client.tracked }
  | cancel (i : Nat) (rest : List Nat) : c.shutdown = .cancelling (i :: rest) → Step c .shutDown
    { c with client := c.client.cancel i, shutdown := .cancelling rest }
  | close : c.shutdown = .cancelling [] → Step c .shutDown
    { c with client := c.client.close, shutdown := .done }
  | serve (i : Nat) (f : Exchange → Exchange) : Step c (.serve i f)
    { c with client := c.client.serve i f }

variable {c d : Crowd} {e : Event} {es : List Event}

theorem step_shutDown? (h : c.shutDown? = some d) : Step c .shutDown d := by
  unfold shutDown? at h
  split at h
  · next hs =>
    cases h
    exact .take hs
  · next i rest hs =>
    cases h
    exact .cancel i rest hs
  · next hs =>
    cases h
    exact .close hs
  · cases h

theorem step_of_step? (h : c.step? e = some d) : Step c e d := by
  cases e with
  | setUp link schema request callbacks =>
    cases h
    exact .setUp link schema request callbacks
  | track i =>
    obtain ⟨hi, h⟩ := Option.ite_none_right_eq_some.1 h
    cases h
    exact .track i hi
  | shutDown => exact step_shutDown? h
  | serve i f =>
    cases h
    exact .serve i f

theorem run?_cons : c.run? (e :: es) = some d ↔ ∃ u, c.step? e = some u ∧ u.run? es = some d := by
  rw [run?, List.foldlM_cons]
  exact Option.bind_eq_some_iff

theorem run?_cancelling (rest : List Nat) (hs : c.shutdown = .cancelling rest) :
    c.run? (.replicate (rest.length + 1) .shutDown) =
      some { c with client := (rest.foldl Client.cancel c.client).close, shutdown := .done } := by
  induction rest generalizing c with
  | nil =>
    have hlast : c.step? .shutDown =
        some { c with client := c.client.close, shutdown := .done } := by
      simp [step?, shutDown?, hs]
    exact run?_cons.2 ⟨_, hlast, rfl⟩
  | cons i rest ih =>
    have hfirst : c.step? .shutDown =
        some { c with client := c.client.cancel i, shutdown := .cancelling rest } := by
      simp [step?, shutDown?, hs]
    exact run?_cons.2 ⟨_, hfirst, ih rfl⟩

/-- A shutdown that no step of another thread disturbs is that of the client. -/
theorem run?_shutDown (hs : c.shutdown = .ahead) :
    c.run? (.replicate (c.client.tracked.length + 2) .shutDown) =
      some { c with client := c.client.shutdown, shutdown := .done } := by
  have hfirst : c.step? .shutDown = some
      { c with client := c.client.takeTracked.2, shutdown := .cancelling c.client.tracked } := by
    simp [step?, shutDown?, hs, Client.takeTracked]
  exact run?_cons.2 ⟨_, hfirst, run?_cancelling c.client.tracked rfl⟩

/-- What every step preserves a run preserves. -/
theorem run?_preserves {P : Crowd → Prop} (hstep : ∀ c e d, P c → Step c e d → P d) (hc : P c)
    (h : c.run? es = some d) : P d := by
  induction es generalizing c with
  | nil =>
    cases h
    exact hc
  | cons e es ih =>
    obtain ⟨u, hu, h⟩ := run?_cons.1 h
    exact ih (hstep c e u hc (step_of_step? hu)) h

end Crowd
end TickingTable
