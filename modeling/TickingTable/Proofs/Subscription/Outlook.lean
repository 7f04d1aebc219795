import TickingTable.Proofs.Decoder.Bounded
import TickingTable.Proofs.Subscription.Steps

/-! What a subscriber is told of a stream, and what is left of that in each phase of the worker. -/

namespace TickingTable

/-- Whether the subscription goes on after a tick. -/
def Reaction.goesOn (r : Reaction) : Bool := r.cancels = 0 && r.outcome = .returned

/-- The failure that a subscriber is told of after a tick, unless it has cancelled. -/
def Reaction.failure? (r : Reaction) : Option SubscriptionError :=
  match r.outcome with
  | .returned => none
  | .panicked text => if r.cancels = 0 then some (.callbackPanicked (panicText text)) else none

/-- What a stream has brought, and whether it has ended. -/
structure Incoming where
  items : List (Except TransportError Chunk)
  closed : Bool

/-- Why a subscription ends by itself. -/
inductive Ending where
  | failure (e : SubscriptionError)
  /-- The decoder panics, of which nobody is told. -/
  | crash (c : Decoder.Crash)
deriving DecidableEq

namespace Ending

def notice? : Ending → Option Notice
  | .failure e => some (.failure e)
  | .crash _ => none

/-- The phase in which the worker is then. -/
def phase : Ending → Subscription.Phase
  | .failure _ => .exited
  | .crash c => .died c

end Ending

/-- The updates that a stream brings, and why the subscription ends after them, if it does. -/
structure Story where
  updates : List Update
  ending? : Option Ending

/-- What a subscriber is still told, and the phase in which the thread of the worker ends then, if
it does. -/
structure Outlook where
  notices : List Notice
  final? : Option Subscription.Phase

def Outlook.after (o : Outlook) (told : List Notice) : Outlook := ⟨told ++ o.notices, o.final?⟩

theorem Outlook.after_after (o : Outlook) (first next : List Notice) :
    (o.after next).after first = o.after (first ++ next) := by
  simp [after]

namespace Incoming

/-- The frames in some items and why there is none after them: an item is no frame, or the stream
has ended. -/
def framesOf (closed : Bool) :
    List (Except TransportError Chunk) → List Frame × Option SubscriptionError
  | [] => ([], if closed then some .streamClosed else none)
  | .error e :: _ => ([], some (.transport e))
  | .ok c :: items =>
    match Subscription.frameOf c with
    | .error e => ([], some (.protocol e))
    | .ok f => (f :: (framesOf closed items).1, (framesOf closed items).2)

def frames (x : Incoming) : List Frame := (framesOf x.closed x.items).1

def cut? (x : Incoming) : Option SubscriptionError := (framesOf x.closed x.items).2

end Incoming

namespace Story

/-- The updates among what came of some frames, up to the first error or panic. -/
def ofOutcomes (cut? : Option SubscriptionError) : List Decoder.Outcome → Story
  | [] => ⟨[], cut?.map .failure⟩
  | .error c :: _ => ⟨[], some (.crash c)⟩
  | .ok (.error e) :: _ => ⟨[], some (.failure (.protocol e))⟩
  | .ok (.ok u?) :: outcomes =>
    ⟨u?.toList ++ (ofOutcomes cut? outcomes).updates, (ofOutcomes cut? outcomes).ending?⟩

/-- What a decoder makes of a stream. -/
def ofStream (d : Decoder) (x : Incoming) : Story := ofOutcomes x.cut? (d.runBounded x.frames).2

/-- What a subscriber is told of some updates and after them, if its next tick is the `n`th. -/
def tell (onTick : Nat → Reaction) (ending? : Option Ending) : Nat → List Update → Outlook
  | _, [] => ⟨(ending?.bind Ending.notice?).toList, ending?.map Ending.phase⟩
  | n, u :: us =>
    (if (onTick n).goesOn then tell onTick ending? (n + 1) us
      else ⟨(onTick n).failure?.toList.map .failure, some .exited⟩).after [.tick u]

def outlook (y : Story) (onTick : Nat → Reaction) (n : Nat) : Outlook :=
  tell onTick y.ending? n y.updates

variable {onTick : Nat → Reaction} {ending? : Option Ending} {n k : Nat} {us : List Update}

theorem tell_of_goesOn (h : ∀ k < us.length, (onTick (n + k)).goesOn = true) :
    tell onTick ending? n us =
      ⟨us.map .tick ++ (ending?.bind Ending.notice?).toList, ending?.map Ending.phase⟩ := by
  induction us generalizing n with
  | nil => rfl
  | cons u us ih =>
    have hrest : ∀ k < us.length, (onTick (n + 1 + k)).goesOn = true := by
      intro k hk
      have hnext := h (k + 1) (Nat.succ_lt_succ hk)
      rwa [Nat.add_assoc, Nat.add_comm 1 k]
    have hnow : (onTick n).goesOn = true := h 0 (Nat.succ_pos _)
    rw [tell, if_pos hnow, ih hrest]
    rfl

theorem tell_of_stops (hk : k < us.length) (hbefore : ∀ j < k, (onTick (n + j)).goesOn = true)
    (hstops : (onTick (n + k)).goesOn = false) :
    tell onTick ending? n us =
      ⟨(us.take (k + 1)).map .tick ++ (onTick (n + k)).failure?.toList.map .failure,
        some .exited⟩ := by
  induction us generalizing n k with
  | nil => cases hk
  | cons u us ih =>
    cases k with
    | zero =>
      have hnow : (onTick n).goesOn = false := hstops
      rw [tell, hnow]
      rfl
    | succ k =>
      have hnext : n + (k + 1) = n + 1 + k := by omega
      have hrest : ∀ j < k, (onTick (n + 1 + j)).goesOn = true := by
        intro j hj
        have hlater := hbefore (j + 1) (Nat.succ_lt_succ hj)
        rwa [Nat.add_assoc, Nat.add_comm 1 j]
      have hnow : (onTick n).goesOn = true := hbefore 0 (Nat.succ_pos _)
      rw [hnext] at hstops ⊢
      rw [tell, if_pos hnow, ih (Nat.lt_of_succ_lt_succ hk) hrest hstops]
      rfl

end Story

namespace Subscription

variable {s t : Subscription} {e : Event}

/-- The phase in which the thread of the worker has ended. -/
def final? (s : Subscription) : Option Phase := if s.hasExited then some s.phase else none

/-- What the subscriber is still told if its next tick is the `n`th, as long as nobody but itself
cancels. -/
def outlook (s : Subscription) (onTick : Nat → Reaction) (n : Nat) (x : Incoming) : Outlook :=
  match s.phase, s.cancelled with
  | .exited, _ => ⟨[], some .exited⟩
  | .died c, _ => ⟨[], some (.died c)⟩
  | _, true => ⟨[], some .exited⟩
  | .reading, false => (Story.ofStream s.decoder x).outlook onTick n
  | .checking u, false | .cleared (.tick u), false | .ticking u, false =>
    Story.tell onTick (Story.ofStream s.decoder x).ending? n
      (u :: (Story.ofStream s.decoder x).updates)
  | .stopping e, false | .cleared (.failure e), false | .failing e, false =>
    ⟨[.failure e], some .exited⟩

theorem outlook_of_hasExited (h : s.hasExited = true) (onTick : Nat → Reaction) (n : Nat)
    (x : Incoming) : s.outlook onTick n x = ⟨[], s.final?⟩ := by
  rw [final?, if_pos h, outlook]
  cases hp : s.phase with
  | exited => rfl
  | died c => rfl
  | _ => simp [hasExited, hp, Phase.isEnd] at h

theorem outlook_of_cancelled (h : s.cancelled = true) (hs : s.hasExited = false)
    (onTick : Nat → Reaction) (n : Nat) (x : Incoming) :
    s.outlook onTick n x = ⟨[], some .exited⟩ := by
  rw [outlook, h]
  cases hp : s.phase with
  | exited => rfl
  | died c => simp [hasExited, hp, Phase.isEnd] at hs
  | _ => rfl

/-- The worker changes nothing of what the threads that cancel have to do with. -/
theorem Step.of_isWork (h : Step s e t) (he : e.isWork = true) :
    t.firing = s.firing ∧ t.handle = s.handle ∧ t.cancelled = s.cancelled ∧
      Phase.Follows s.cancelled s.phase t.phase := by
  cases h with
  | work decoder phase _ hf => exact ⟨rfl, rfl, rfl, hf⟩
  | _ => cases he

theorem outlook_ticking {u : Update} (hc : s.cancelled = false) (hu : s.phase = .ticking u)
    (onTick : Nat → Reaction) (n : Nat) (x : Incoming) :
    s.outlook onTick n x =
      (if (onTick n).goesOn then (Story.ofStream s.decoder x).outlook onTick (n + 1)
        else ⟨(onTick n).failure?.toList.map .failure, some .exited⟩).after [.tick u] := by
  simp [outlook, hc, hu, Story.tell, Story.outlook]

/-- Looking whether the subscription has been cancelled changes nothing of what is to be told. -/
theorem outlook_check? (h : s.check? = some t) (onTick : Nat → Reaction) (n : Nat) (x : Incoming) :
    t.outlook onTick n x = s.outlook onTick n x := by
  unfold check? at h
  split at h
  · next u hs =>
    cases h
    cases hc : s.cancelled <;> simp [outlook, hc, hs]
  · next e hs =>
    cases h
    cases hc : s.cancelled <;> simp [outlook, hc, hs]
  · cases h

theorem outlook_call? (h : s.call? = some t) (hc : s.cancelled = false) (onTick : Nat → Reaction)
    (n : Nat) (x : Incoming) : t.outlook onTick n x = s.outlook onTick n x := by
  unfold call? at h
  split at h
  · next m hs =>
    cases h
    cases m <;> simp [outlook, hc, hs, Notice.phase]
  · cases h

/-- The first step of a cancel out of a callback. -/
theorem raise?_inside (hcall : s.hasCall .worker = false) (hin : s.inCallback = true) :
    s.raise? .worker =
      some (if s.cancelled then s else { s with cancelled := true, firing := some .worker }) := by
  cases hc : s.cancelled <;> simp [raise?, hcall, hin, hc]

theorem outlook_error (hc : s.cancelled = false) (hs : s.phase = .reading) (e : TransportError)
    (items : List (Except TransportError Chunk)) (closed : Bool) (onTick : Nat → Reaction)
    (n : Nat) :
    s.outlook onTick n ⟨.error e :: items, closed⟩ = ⟨[.failure (.transport e)], some .exited⟩ := by
  simp [outlook, hc, hs, Story.ofStream, Incoming.frames, Incoming.cut?, Incoming.framesOf,
    Decoder.runBounded, Story.ofOutcomes, Story.outlook, Story.tell, Ending.notice?, Ending.phase]

theorem outlook_nil (hc : s.cancelled = false) (hs : s.phase = .reading) (closed : Bool)
    (onTick : Nat → Reaction) (n : Nat) :
    s.outlook onTick n ⟨[], closed⟩ =
      if closed then ⟨[.failure .streamClosed], some .exited⟩ else ⟨[], none⟩ := by
  cases closed <;>
    simp [outlook, hc, hs, Story.ofStream, Incoming.frames, Incoming.cut?, Incoming.framesOf,
      Decoder.runBounded, Story.ofOutcomes, Story.outlook, Story.tell, Ending.notice?, Ending.phase]

/-- Decoding a chunk is the first part of what the stream makes of it. -/
theorem outlook_decode (hc : s.cancelled = false) (hs : s.phase = .reading) (chunk : Chunk)
    (items : List (Except TransportError Chunk)) (closed : Bool) (onTick : Nat → Reaction)
    (n : Nat) :
    (s.decode chunk).outlook onTick n ⟨items, closed⟩ =
      s.outlook onTick n ⟨.ok chunk :: items, closed⟩ := by
  -- the story of the stream begins with what comes of this frame
  unfold decode
  split
  · next e he =>
    simp [outlook, hc, hs, Story.outlook, Story.ofStream, Incoming.frames, Incoming.cut?,
      Incoming.framesOf, he, Decoder.runBounded, Story.ofOutcomes, Story.tell, Ending.notice?,
      Ending.phase]
  · next f hf =>
    have hstory : Story.ofStream s.decoder ⟨.ok chunk :: items, closed⟩ =
        Story.ofOutcomes (Incoming.cut? ⟨items, closed⟩)
          ((s.decoder.stepBounded f).2 :: ((s.decoder.stepBounded f).1.runBounded
            (Incoming.frames ⟨items, closed⟩)).2) := by
      simp [Story.ofStream, Incoming.frames, Incoming.cut?, Incoming.framesOf, hf,
        Decoder.runBounded_cons]
    simp only [outlook, hc, hs, hstory]
    rcases s.decoder.stepBounded f with ⟨d, c | e | _ | u⟩
    · simp [Story.ofOutcomes, Story.outlook, Story.tell, Ending.notice?, Ending.phase]
    · simp [Story.ofOutcomes, Story.outlook, Story.tell, Ending.notice?, Ending.phase]
    · simp [Story.ofOutcomes, Story.outlook, Story.ofStream]
    · simp [Story.ofOutcomes, Story.outlook, Story.ofStream]

end Subscription
end TickingTable
