import TickingTable.Decoder.Bounded
import TickingTable.Subscription.Error

/-! Subscriptions: a worker reads a stream and tells a subscriber of the updates, until the stream
ends or some thread cancels the subscription. -/

namespace TickingTable

/-- How a callback came back. A panic may have a text. -/
inductive CallbackOutcome where
  | returned
  | panicked (text : Option String)
deriving DecidableEq

/-- The text that stands for a panic. -/
def panicText (text : Option String) : String := text.getD "unknown panic"

/-- What a subscriber is told. -/
inductive Notice where
  | tick (u : Update)
  | failure (e : SubscriptionError)
deriving DecidableEq

inductive Subscription.Phase where
  | reading
  /-- An update is ready; it is delivered unless the subscription has been cancelled. -/
  | checking (u : Update)
  /-- The subscription is over; the subscriber is told unless it has been cancelled. -/
  | stopping (e : SubscriptionError)
  /-- The subscription had not been cancelled when the worker looked. The callback is to begin, even
  if some thread cancels now. -/
  | cleared (n : Notice)
  | ticking (u : Update)
  | failing (e : SubscriptionError)
  | exited
  /-- A panic of the decoder has ended the thread of the worker. -/
  | died (c : Decoder.Crash)
deriving DecidableEq

/-- The phase in which a callback runs. -/
def Notice.phase : Notice → Subscription.Phase
  | .tick u => .ticking u
  | .failure e => .failing e

/-- Whether the thread of the worker has ended. -/
def Subscription.Phase.isEnd : Subscription.Phase → Bool
  | .exited | .died _ => true
  | _ => false

/-- A bound on the steps that the worker takes in a phase before it reads the next item. -/
def Subscription.Phase.weight : Subscription.Phase → Nat
  | .checking _ => 8
  | .cleared (.tick _) => 7
  | .ticking _ => 6
  | .reading => 5
  | .stopping _ => 4
  | .cleared (.failure _) => 3
  | .failing _ => 2
  | .exited | .died _ => 1

structure Subscription where
  decoder : Decoder
  phase : Subscription.Phase
  cancelled : Bool
  /-- The call that was the first to cancel, until it has cancelled the stream. -/
  firing : Option Caller
  handle : WorkerHandle
deriving DecidableEq

/-- The steps of the worker and of the threads that cancel a subscription. -/
inductive Subscription.Event where
  | read (r : Reading)
  | check
  | call
  | finish (outcome : CallbackOutcome)
  | raise (c : Caller)
  | fire (c : Caller)
  | lock (c : Caller)
  | join (c : Caller)
deriving DecidableEq

namespace Subscription

def start (schema : Schema) : Subscription := ⟨.start schema, .reading, false, none, .create⟩

def hasExited (s : Subscription) : Bool := s.phase.isEnd

/-- Whether the worker has told all that it had to tell, as it notes down in the end. A panic of the
decoder keeps it from that. -/
def hasFinished (s : Subscription) : Bool := s.phase = .exited

/-- Whether a callback of the subscriber runs. -/
def inCallback (s : Subscription) : Bool :=
  match s.phase with
  | .ticking _ | .failing _ => true
  | _ => false

/-- Unwraps the columns of a chunk, all rows of which count. -/
def frameOf (c : Chunk) : Except ProtocolError Frame := do
  let columns ← (c.columns.mapM Column.ofEnvelope).mapError .column
  return ⟨columns, columns.map Column.size, c.metadata⟩

/-- Feeds a chunk to the decoder. Nothing catches a panic of it. -/
def decode (s : Subscription) (c : Chunk) : Subscription :=
  match frameOf c with
  | .error e => { s with phase := .stopping (.protocol e) }
  | .ok f =>
    match s.decoder.stepBounded f with
    | (decoder, .error c) => { s with decoder, phase := .died c }
    | (decoder, .ok (.error e)) => { s with decoder, phase := .stopping (.protocol e) }
    | (decoder, .ok (.ok none)) => { s with decoder }
    | (decoder, .ok (.ok (some u))) => { s with decoder, phase := .checking u }

/-- A stream that fails after the subscription was cancelled was cancelled with it. -/
def read? (s : Subscription) (r : Reading) : Option Subscription :=
  match s.phase, r with
  | .reading, .chunk c => some (s.decode c)
  | .reading, .failed e =>
    some { s with phase := .stopping (if s.cancelled then .cancelled else .transport e) }
  | .reading, .ended => some { s with phase := .stopping .streamClosed }
  | _, _ => none

/-- Looks whether the subscription has been cancelled. -/
def check? (s : Subscription) : Option Subscription :=
  match s.phase with
  | .checking u =>
    some { s with phase := if s.cancelled then .stopping .cancelled else .cleared (.tick u) }
  | .stopping e =>
    some { s with phase := if s.cancelled then .exited else .cleared (.failure e) }
  | _ => none

/-- Begins a callback, without looking again. -/
def call? (s : Subscription) : Option Subscription :=
  match s.phase with
  | .cleared n => some { s with phase := n.phase }
  | _ => none

/-- Whether a call of cancel by this thread has not returned. -/
def hasCall (s : Subscription) (c : Caller) : Bool := s.firing = some c || s.handle.hasCall c

/-- A panic in a tick ends the subscription, one in the callback for failures changes nothing. -/
def finish? (s : Subscription) (outcome : CallbackOutcome) : Option Subscription :=
  if s.hasCall .worker then none
  else match s.phase, outcome with
    | .ticking _, .returned => some { s with phase := .reading }
    | .ticking _, .panicked text =>
      some { s with phase := .stopping (.callbackPanicked (panicText text)) }
    | .failing _, _ => some { s with phase := .exited }
    | _, _ => none

/-- The first step of a cancel. Only the first call of all goes on to cancel the stream, and only
calls by other threads go on to wait for the worker. -/
def raise? (s : Subscription) (c : Caller) : Option Subscription :=
  if s.hasCall c ∨ c = .worker ∧ s.inCallback = false then none
  else if s.cancelled then
    if c = .worker then some s
    else (s.handle.enter? c).map fun handle => { s with handle }
  else some { s with cancelled := true, firing := some c }

/-- The step of a cancel at which the stream is cancelled. -/
def fire? (s : Subscription) (c : Caller) : Option Subscription :=
  if s.firing ≠ some c then none
  else if c = .worker then some { s with firing := none }
  else (s.handle.enter? c).map fun handle => { s with firing := none, handle }

def lock? (s : Subscription) (c : Caller) : Option Subscription :=
  (s.handle.lock? c).map fun handle => { s with handle }

def join? (s : Subscription) (c : Caller) : Option Subscription :=
  (s.handle.join? c s.hasExited).map fun handle => { s with handle }

def step? (s : Subscription) : Event → Option Subscription
  | .read r => s.read? r
  | .check => s.check?
  | .call => s.call?
  | .finish outcome => s.finish? outcome
  | .raise c => s.raise? c
  | .fire c => s.fire? c
  | .lock c => s.lock? c
  | .join c => s.join? c

theorem phase_raise? {s t : Subscription} {c : Caller} (h : s.raise? c = some t) :
    t.phase = s.phase := by
  unfold raise? at h
  by_cases hbusy : s.hasCall c = true ∨ c = .worker ∧ s.inCallback = false
  · rw [if_pos hbusy] at h
    cases h
  · rw [if_neg hbusy] at h
    by_cases hcancelled : s.cancelled = true
    · rw [if_pos hcancelled] at h
      by_cases hc : c = .worker
      · rw [if_pos hc] at h
        cases h
        rfl
      · rw [if_neg hc] at h
        obtain ⟨handle, _, rfl⟩ := Option.map_eq_some_iff.1 h
        rfl
    · rw [if_neg hcancelled] at h
      cases h
      rfl

theorem phase_fire? {s t : Subscription} {c : Caller} (h : s.fire? c = some t) :
    t.phase = s.phase := by
  unfold fire? at h
  by_cases hfiring : s.firing = some c
  · rw [if_neg (not_not_intro hfiring)] at h
    by_cases hc : c = .worker
    · rw [if_pos hc] at h
      cases h
      rfl
    · rw [if_neg hc] at h
      obtain ⟨handle, _, rfl⟩ := Option.map_eq_some_iff.1 h
      rfl
  · rw [if_pos hfiring] at h
    cases h

theorem weight_check? {s t : Subscription} (h : s.check? = some t) :
    t.phase.weight < s.phase.weight := by
  cases hp : s.phase with
  | checking u =>
    rw [check?, hp] at h
    cases h
    cases s.cancelled <;> simp [Phase.weight]
  | stopping e =>
    rw [check?, hp] at h
    cases h
    cases s.cancelled <;> simp [Phase.weight]
  | _ => simp [check?, hp] at h

theorem weight_call? {s t : Subscription} (h : s.call? = some t) :
    t.phase.weight < s.phase.weight := by
  cases hp : s.phase with
  | cleared n =>
    rw [call?, hp] at h
    cases h
    cases n <;> simp [Notice.phase, Phase.weight]
  | _ => simp [call?, hp] at h

theorem weight_finish? {s t : Subscription} {outcome : CallbackOutcome}
    (h : s.finish? outcome = some t) : t.phase.weight < s.phase.weight := by
  obtain ⟨_, h⟩ := Option.ite_none_left_eq_some.1 h
  cases hp : s.phase with
  | ticking u =>
    rw [hp] at h
    cases outcome with
    | returned =>
      cases h
      simp [Phase.weight]
    | panicked text =>
      cases h
      simp [Phase.weight]
  | failing e =>
    rw [hp] at h
    cases h
    simp [Phase.weight]
  | _ => simp [hp] at h

theorem weight_decode (s : Subscription) (c : Chunk) (h : s.phase = .reading) :
    (s.decode c).phase.weight ≤ 8 := by
  unfold decode
  cases frameOf c with
  | error e => simp [Phase.weight]
  | ok f =>
    dsimp only
    rcases s.decoder.stepBounded f with ⟨d, crash | e | _ | u⟩
    · simp [Phase.weight]
    · simp [Phase.weight]
    · simp [h, Phase.weight]
    · simp [Phase.weight]

/-- Only a chunk lets a subscription go on. -/
theorem weight_read? {s t : Subscription} {r : Reading} (h : s.read? r = some t) :
    t.phase.weight ≤ match r with
      | .chunk _ => 8
      | _ => 4 := by
  simp only [read?] at h
  split at h
  · next hs _ => exact Option.some.inj h ▸ s.weight_decode _ hs
  · exact Option.some.inj h ▸ Nat.le_refl _
  · exact Option.some.inj h ▸ Nat.le_refl _
  · simp at h

end Subscription
end TickingTable
