import TickingTable.Config.Basic
import TickingTable.Subscription.Session
import TickingTable.Subscription.Setup

/-! Clients: subscriptions to tables of one server. -/

namespace TickingTable

inductive ClientError where
  | config (e : ConfigError)
  | workerName (e : WorkerNameError)
deriving DecidableEq

def ClientError.message : ClientError → String
  | .config e => "invalid client configuration: " ++ e.message
  | .workerName e => e.message

/-- Subscriptions are known by the number of their exchange. -/
structure Client where
  config : ClientConfig
  transport : Transport
  executor : Executor SubscriptionRequest
  /-- Every subscription made so far. -/
  subscribers : List (Nat × Subscriber)
  /-- The subscriptions that the client refers to. -/
  tracked : List Nat
  /-- The subscriptions that whoever asked for them still refers to. -/
  held : List Nat

namespace Client

def connect (config : ClientConfig) (transport : Transport) : Except ClientError Client :=
  match config.validate with
  | .error e => .error (.config e)
  | .ok () =>
    match Executor.spawn config.executorName with
    | .error e => .error (.workerName e)
    | .ok executor => .ok ⟨config, transport, executor, [], [], []⟩

def session? (c : Client) (i : Nat) : Option Session := do
  return { (← c.subscribers.lookup i) with exchange := ← c.transport.exchange? i }

/-- Whether the worker of a subscription has finished, which one that died of a panic never has. -/
def isFinished (c : Client) (i : Nat) : Bool :=
  (c.subscribers.lookup i).all fun s => s.subscription.hasFinished

def putSession (c : Client) (i : Nat) (s : Session) : Client :=
  { c with
    subscribers := c.subscribers.map fun e => if e.1 = i then (i, s.toSubscriber) else e
    transport := c.transport.modify i fun _ => s.exchange }

def withSession (c : Client) (i : Nat) (f : Session → Session) : Client :=
  match c.session? i with
  | none => c
  | some s => c.putSession i (f s)

/-- Lets the server act on an exchange, and the worker of its subscription take what came of it. -/
def serve (c : Client) (i : Nat) (f : Exchange → Exchange) : Client :=
  { c with transport := c.transport.modify i f }.withSession i Session.run

def cancel (c : Client) (i : Nat) : Client := c.withSession i Session.cancel

/-- A subscription to which nobody refers is cancelled. -/
def dropUnreferenced (c : Client) (i : Nat) : Client :=
  if i ∈ c.tracked ∨ i ∈ c.held then c else c.cancel i

/-- Forgets the subscriptions that have finished. -/
def prune (c : Client) : Client :=
  let finished := c.tracked.filter c.isFinished
  finished.foldl dropUnreferenced { c with tracked := c.tracked.filter fun i => !c.isFinished i }

/-- Subscribes by means of the given executor. The client does not track the subscription. -/
def subscribeWith (c : Client) (link : Transport.Link) (executor : Executor SubscriptionRequest)
    (schema : Schema) (request : SubscriptionRequest) (callbacks : Callbacks) :
    Option (Except SubscribeError Nat) × Executor SubscriptionRequest × Client :=
  let (result, executor, transport) :=
    Setup.start link.toConnection executor c.config.headers request c.transport
  let c := { c with transport }
  match result with
  | some (.ok i) =>
    (result, executor, { c with
      subscribers := c.subscribers ++ [(i, ⟨.start schema, callbacks, []⟩)]
      held := i :: c.held })
  | _ => (result, executor, c)

/-- Tracks a subscription from now on. -/
def track (c : Client) (i : Nat) : Client := { c with tracked := i :: c.tracked }.prune

/-- Subscribes, with the options of the configuration if no others are given. -/
def subscribe (c : Client) (link : Transport.Link) (schema : Schema) (ticket : Ticket)
    (options : Option SubscriptionOptions) (callbacks : Callbacks) :
    Option (Except SubscribeError Nat) × Client :=
  let request := ⟨ticket, options.getD c.config.subscription⟩
  let (result, executor, c) := c.subscribeWith link c.executor schema request callbacks
  let c := { c with executor }
  match result with
  | some (.ok i) => (result, c.track i)
  | _ => (result, c)

def unsubscribe (c : Client) (i : Nat) : Client :=
  { c with tracked := c.tracked.filter (· ≠ i) }.cancel i

/-- The number of tracked subscriptions that have not finished. -/
def numSubscriptions (c : Client) : Nat × Client :=
  let c := c.prune
  (c.tracked.length, c)

/-- Gives a subscription out of hand. -/
def dropHandle (c : Client) (i : Nat) : Client :=
  { c with held := c.held.filter (· ≠ i) }.dropUnreferenced i

/-- Takes the tracked subscriptions away from the client. -/
def takeTracked (c : Client) : List Nat × Client := (c.tracked, { c with tracked := [] })

/-- Cancels all tracked subscriptions and shuts the executor down. -/
def shutdown (c : Client) : Client :=
  let (taken, c) := c.takeTracked
  let c := taken.foldl cancel c
  { c with executor := (c.executor.shutdown fun _ => []).1 }

end Client
end TickingTable
