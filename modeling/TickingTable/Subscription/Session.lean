import TickingTable.Subscription.Basic

/-! Sessions: a subscription with its stream and its subscriber, where the worker handles one event
to its end before the next one comes. -/

namespace TickingTable

/-- What a subscriber does in a tick: it may cancel its subscription, and returns or panics. -/
structure Reaction where
  cancels : Nat
  outcome : CallbackOutcome
deriving DecidableEq

/-- The callbacks of a subscriber: what it does in each tick, counted from 1, and how it comes back
from being told of a failure. -/
structure Callbacks where
  onTick : Nat → Reaction
  onFailure : CallbackOutcome

def Notice.isTick : Notice → Bool
  | .tick _ => true
  | .failure _ => false

structure Subscriber where
  subscription : Subscription
  callbacks : Callbacks
  /-- What the subscriber has been told, in order. -/
  told : List Notice

structure Session extends Subscriber where
  exchange : Exchange

namespace Session

/-- The number of the next tick. -/
def nextTick (s : Session) : Nat := s.told.countP Notice.isTick + 1

def tell (s : Session) (n : Notice) : Session := { s with told := s.told ++ [n] }

/-- Puts the subscription in its new state. Nothing is read or written any more once the thread of
the worker has ended. -/
def become (s : Session) (t : Subscription) : Session :=
  let exchange := if t.hasExited then s.exchange.dropReader.dropWriter else s.exchange
  { s with subscription := t, exchange }

/-- Cancels the subscription and its stream, up to the point at which a thread other than the worker
has to wait. -/
def beginCancel (s : Session) (c : Caller) : Session :=
  match s.subscription.raise? c with
  | none => s
  | some t =>
    match t.fire? c with
    | none => { s with subscription := t }
    | some t => { s with subscription := t, exchange := s.exchange.cancel }

/-- Cancels any number of times out of a callback. -/
def cancelInside : Nat → Session → Session
  | 0, s => s
  | n + 1, s => cancelInside n (s.beginCancel .worker)

/-- The next step of the worker, unless it has to wait. -/
def advance? (s : Session) : Option Session :=
  match s.subscription.phase with
  | .reading => do
    let (r, exchange) ← s.exchange.next?
    return { s with exchange }.become (← s.subscription.read? r)
  | .checking _ | .stopping _ => do return s.become (← s.subscription.check?)
  | .cleared _ => do return s.become (← s.subscription.call?)
  | .ticking u => do
    let reaction := s.callbacks.onTick s.nextTick
    let s := cancelInside reaction.cancels (s.tell (.tick u))
    return s.become (← s.subscription.finish? reaction.outcome)
  | .failing e => do
    let s := s.tell (.failure e)
    return s.become (← s.subscription.finish? s.callbacks.onFailure)
  | .exited | .died _ => none

/-- A bound on the steps that the worker can take before it has to wait. -/
def remaining (s : Session) : Nat := 4 * s.exchange.items.length + s.subscription.phase.weight

theorem items_become (s : Session) (t : Subscription) :
    (s.become t).exchange.items.length ≤ s.exchange.items.length := by
  unfold become
  by_cases h : t.hasExited <;> simp [h, Exchange.dropReader, Exchange.dropWriter]

theorem remaining_become {s : Session} {t : Subscription}
    (h : t.phase.weight < s.subscription.phase.weight) : (s.become t).remaining < s.remaining := by
  have hi := items_become s t
  have hp : (s.become t).subscription = t := rfl
  simp only [remaining, hp]
  omega

theorem beginCancel_same (s : Session) (c : Caller) :
    (s.beginCancel c).subscription.phase = s.subscription.phase ∧
      (s.beginCancel c).exchange.items = s.exchange.items := by
  unfold beginCancel
  split
  · exact ⟨rfl, rfl⟩
  · next hr =>
    split
    · exact ⟨Subscription.phase_raise? hr, rfl⟩
    · next hf => exact ⟨(Subscription.phase_fire? hf).trans (Subscription.phase_raise? hr), rfl⟩

theorem remaining_cancelInside (n : Nat) (s : Session) :
    (cancelInside n s).subscription.phase = s.subscription.phase ∧
      (cancelInside n s).remaining = s.remaining := by
  induction n generalizing s with
  | zero => exact ⟨rfl, rfl⟩
  | succ n ih =>
    obtain ⟨hp, hi⟩ := s.beginCancel_same .worker
    obtain ⟨hp', hr⟩ := ih (s.beginCancel .worker)
    refine ⟨hp'.trans hp, hr.trans ?_⟩
    simp only [remaining, hp, hi]

theorem remaining_advance? {s t : Session} (h : s.advance? = some t) :
    t.remaining < s.remaining := by
  unfold advance? at h
  simp only [Option.bind_eq_bind, Option.pure_def] at h
  split at h
  · next hs =>
    simp only [Option.bind_eq_some_iff, Option.some.injEq] at h
    obtain ⟨⟨r, x⟩, hx, u, hu, rfl⟩ := h
    have hi := items_become { s with exchange := x } u
    have hw := Subscription.weight_read? hu
    have hn := Exchange.items_next? hx
    simp only [remaining, become, hs, Subscription.Phase.weight] at *
    split at hn <;> simp_all <;> omega
  · simp only [Option.bind_eq_some_iff, Option.some.injEq] at h
    obtain ⟨u, hu, rfl⟩ := h
    exact remaining_become (Subscription.weight_check? hu)
  · simp only [Option.bind_eq_some_iff, Option.some.injEq] at h
    obtain ⟨u, hu, rfl⟩ := h
    exact remaining_become (Subscription.weight_check? hu)
  · simp only [Option.bind_eq_some_iff, Option.some.injEq] at h
    obtain ⟨u, hu, rfl⟩ := h
    exact remaining_become (Subscription.weight_call? hu)
  · next u _ =>
    simp only [Option.bind_eq_some_iff, Option.some.injEq] at h
    obtain ⟨u', hu, rfl⟩ := h
    have hc := (remaining_cancelInside (s.callbacks.onTick s.nextTick).cancels
      (s.tell (.tick u))).2
    exact Nat.lt_of_lt_of_eq (remaining_become (Subscription.weight_finish? hu)) hc
  · next e _ =>
    simp only [Option.bind_eq_some_iff, Option.some.injEq] at h
    obtain ⟨u, hu, rfl⟩ := h
    exact remaining_become (s := s.tell (.failure e)) (Subscription.weight_finish? hu)
  · simp at h
  · simp at h

/-- Lets the worker take up to `n` steps. -/
def runFor : Nat → Session → Session
  | 0, s => s
  | n + 1, s =>
    match s.advance? with
    | none => s
    | some t => runFor n t

/-- Lets the worker run until it has to wait. -/
def run (s : Session) : Session := runFor (s.remaining + 1) s

theorem advance?_runFor {n : Nat} {s : Session} (h : s.remaining < n) :
    (runFor n s).advance? = none := by
  induction n generalizing s with
  | zero => omega
  | succ n ih =>
    unfold runFor
    split
    · assumption
    · next ht => exact ih (by have := remaining_advance? ht; omega)

theorem advance?_run (s : Session) : s.run.advance? = none :=
  advance?_runFor (Nat.lt_succ_self _)

/-- Lets a thread other than the worker cancel the subscription and wait for the worker. -/
def cancel (s : Session) : Session :=
  let caller := Caller.other 0
  let s := (s.beginCancel caller).run
  let locked := (s.subscription.lock? caller).getD s.subscription
  { s with subscription := (locked.join? caller).getD locked }

end Session
end TickingTable
