import TickingTable.Subscription.Error
import TickingTable.Transport.Connection
import TickingTable.Wire.Request

/-! The setup of a subscription, as a task of an executor. -/

namespace TickingTable

namespace Setup

variable {σ : Type}

/-- Opens an exchange and writes the request to it. The task has no result if it panics. -/
def run (connection : Connection σ) (headers : List (String × String))
    (request : SubscriptionRequest) (s : σ) : Option (Except SubscribeError Nat) × σ :=
  match connection.openExchange s headers Wire.exchangeCommand with
  | (.panicked, s) => (none, s)
  | (.failed e, s) => (some (.error (.setup e)), s)
  | (.returned i, s) =>
    match connection.write s i request.encode with
    | (.panicked, s) => (none, s)
    | (.failed e, s) => (some (.error (.setup e)), s)
    | (.returned (), s) => (some (.ok i), s)

/-- What the thread that waits for a task is told, or none if it waits forever. The task delivers
its result, if it has one, and then drops its side of the promise. -/
def awaited (result : Option (Except SubscribeError Nat)) : Option (Except SubscribeError Nat) :=
  let p : Promise SubscribeError Nat Empty := .create
  let fulfilled := match result with
    | none => p
    | some outcome => match p.fulfil outcome with
      | .ok (p, _) => p
      | .error _ => p
  match fulfilled.release.await? with
  | none => none
  | some (.ok outcome, _) => some outcome
  | some (.error e, _) => some (.error (.ofPromise e))

/-- The thread that waits for a setup without a result is told that it was cancelled. -/
theorem awaited_eq (result : Option (Except SubscribeError Nat)) :
    awaited result = some (result.getD (.error .cancelled)) := by
  cases result <;> rfl

/-- Submits the setup as a task and waits for its result, which is the number of the exchange. -/
def start (connection : Connection σ) (executor : Executor SubscriptionRequest)
    (headers : List (String × String)) (request : SubscriptionRequest) (s : σ) :
    Option (Except SubscribeError Nat) × Executor SubscriptionRequest × σ :=
  match executor.submit request with
  | .error e => (some (.error (.executor e)), executor, s)
  | .ok executor =>
    let (result, s) := run connection headers request s
    (awaited result, (executor.sync fun _ => []).1, s)

end Setup
end TickingTable
