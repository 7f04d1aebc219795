import TickingTable.Proofs.Subscription.Outlook

/-! Sessions whose stream comes in piece by piece: no step of the worker changes what the subscriber
is to be told in all. -/

namespace TickingTable
namespace Exchange

theorem next?_same {x y : Exchange} {r : Reading} (h : x.next? = some (r, y)) :
    y.cancelled = x.cancelled ∧ y.hasReader = x.hasReader := by
  unfold next? at h
  split at h
  · cases h
    exact ⟨rfl, rfl⟩
  · split at h
    · cases h
      exact ⟨rfl, rfl⟩
    · cases h
      exact ⟨rfl, rfl⟩
    · split at h
      · cases h
      · cases h
        exact ⟨rfl, rfl⟩

end Exchange

namespace Session

/-- What happens to a session: the server sends an item or ends the stream, or the worker takes a
step. -/
inductive Event where
  | arrive (item : Except TransportError Chunk)
  | close
  | work

/-- Nothing arrives after the end of the stream. A worker that has to wait does nothing. -/
def play (s : Session) : Event → Session
  | .arrive item => if s.exchange.hasServer then { s with exchange := s.exchange.send item } else s
  | .close => { s with exchange := s.exchange.dropServer }
  | .work => s.advance?.getD s

def playAll (s : Session) (es : List Event) : Session := es.foldl play s

/-- The session of a new subscription, whose requests have been written. -/
def opened (schema : Schema) (callbacks : Callbacks) (headers : List (String × String))
    (command : List UInt8) (requests : List (List UInt8)) : Session :=
  { subscription := .start schema, callbacks, told := [],
    exchange := { Exchange.create headers command with requests } }

/-- The stream that some events bring. -/
def streamOf : List Event → Incoming
  | [] => ⟨[], false⟩
  | .arrive item :: es => ⟨item :: (streamOf es).items, (streamOf es).closed⟩
  | .close :: _ => ⟨[], true⟩
  | .work :: es => streamOf es

/-- What has come and not been read yet, and what still comes with some events. -/
def incoming (s : Session) (es : List Event) : Incoming :=
  if s.exchange.hasServer then ⟨s.exchange.items ++ (streamOf es).items, (streamOf es).closed⟩
  else ⟨s.exchange.items, true⟩

/-- All that the subscriber is ever told, if the stream brings no more than some events do. -/
def forecast (s : Session) (es : List Event) : Outlook :=
  (s.subscription.outlook s.callbacks.onTick s.nextTick (s.incoming es)).after s.told

/-- No thread but the worker has cancelled. -/
structure Undisturbed (s : Session) : Prop where
  firing : s.subscription.firing = none
  handle : s.subscription.handle = .create
  cancelled : s.exchange.cancelled = s.subscription.cancelled
  hasReader : s.subscription.hasExited = false → s.exchange.hasReader = true

/-- Besides, no callback runs or is to begin if the subscription has been cancelled. -/
structure Sound (s : Session) : Prop extends Undisturbed s where
  silent : s.subscription.cancelled = true →
    s.subscription.phase.callback? = none ∧ s.subscription.phase.cleared? = none

/-- The worker takes a step, by which the forecast stays the same. -/
def Continues (s : Session) : Prop :=
  ∃ t, s.advance? = some t ∧ t.Sound ∧ ∀ es, t.forecast es = s.forecast es

variable {s : Session} {u : Update}

theorem Sound.opened (schema : Schema) (callbacks : Callbacks) (headers : List (String × String))
    (command : List UInt8) (requests : List (List UInt8)) :
    (opened schema callbacks headers command requests).Sound :=
  ⟨⟨rfl, rfl, rfl, fun _ => rfl⟩, nofun⟩

theorem forecast_become (s : Session) (t : Subscription) (es : List Event) :
    (s.become t).forecast es =
      (t.outlook s.callbacks.onTick s.nextTick (s.incoming es)).after s.told := by
  cases ht : t.hasExited with
  | true =>
    have hb : (s.become t).subscription.hasExited = true := ht
    rw [forecast, Subscription.outlook_of_hasExited hb, Subscription.outlook_of_hasExited ht]
    rfl
  | false => simp [become, ht, forecast, incoming, nextTick]

theorem Undisturbed.become {e : Subscription.Event} {t : Subscription} (hs : s.Undisturbed)
    (hcleared : s.subscription.cancelled = true → s.subscription.phase.cleared? = none)
    (he : e.isWork = true) (h : Subscription.Step s.subscription e t) : (s.become t).Sound := by
  obtain ⟨hfiring, hhandle, hcancelled, hf⟩ := h.of_isWork he
  have hreads : s.subscription.hasExited = false := hf.not_isEnd
  refine ⟨⟨hfiring.trans hs.firing, hhandle.trans hs.handle, ?_, ?_⟩, ?_⟩
  · have hx := hs.cancelled.trans hcancelled.symm
    cases ht : t.hasExited <;> simpa [Session.become, ht, Exchange.dropReader, Exchange.dropWriter]
  · intro ht
    have ht : t.hasExited = false := ht
    simpa [Session.become, ht] using hs.hasReader hreads
  · intro hc
    have hc : t.cancelled = true := hc
    rw [← hcancelled, hc] at hf
    obtain ⟨hnone, hbefore⟩ := hf.of_cancelled
    refine ⟨Option.eq_none_iff_forall_ne_some.2 fun n hn => ?_, hnone⟩
    have hclear := hbefore n hn
    rw [hcleared (hcancelled.symm.trans hc)] at hclear
    cases hclear

theorem Sound.become {e : Subscription.Event} {t : Subscription} (hs : s.Sound)
    (he : e.isWork = true) (h : Subscription.Step s.subscription e t) : (s.become t).Sound :=
  hs.toUndisturbed.become (fun hc => (hs.silent hc).2) he h

theorem Undisturbed.hasCall (hs : s.Undisturbed) : s.subscription.hasCall .worker = false := by
  simp [Subscription.hasCall, hs.firing, hs.handle, WorkerHandle.create, WorkerHandle.hasCall]

theorem Undisturbed.tell (hs : s.Undisturbed) (n : Notice) : (s.tell n).Undisturbed :=
  ⟨hs.firing, hs.handle, hs.cancelled, hs.hasReader⟩

/-- The subscription and its stream have been cancelled. -/
def silenced (s : Session) : Session :=
  { s with
    subscription := { s.subscription with cancelled := true }
    exchange := s.exchange.cancel }

theorem Undisturbed.silenced (hs : s.Undisturbed) : s.silenced.Undisturbed :=
  ⟨hs.firing, hs.handle, rfl, hs.hasReader⟩

theorem Undisturbed.silenced_of_cancelled (hs : s.Undisturbed)
    (hc : s.subscription.cancelled = true) : s.silenced = s := by
  have hx := hs.cancelled.trans hc
  rcases s with ⟨⟨⟨d, p, cancelled, firing, handle⟩, callbacks, told⟩, x⟩
  cases hc
  cases x
  cases hx
  rfl

theorem Undisturbed.beginCancel (hs : s.Undisturbed) (hin : s.subscription.inCallback = true) :
    s.beginCancel .worker = s.silenced := by
  have hraise := Subscription.raise?_inside hs.hasCall hin
  cases hc : s.subscription.cancelled with
  | true =>
    have hfire : s.subscription.fire? .worker = none := by
      simp [Subscription.fire?, hs.firing]
    simp only [hc, if_true] at hraise
    simp only [Session.beginCancel, hraise, hfire]
    exact (hs.silenced_of_cancelled hc).symm
  | false =>
    simp only [hc, Bool.false_eq_true, if_false] at hraise
    simp [Session.beginCancel, hraise, Subscription.fire?, Session.silenced, hs.firing]

/-- However often a callback cancels, it is the same as if it had cancelled once. -/
theorem Undisturbed.cancelInside (hs : s.Undisturbed) (hin : s.subscription.inCallback = true)
    (n : Nat) : cancelInside n s = if n = 0 then s else s.silenced := by
  induction n generalizing s with
  | zero => rfl
  | succ n ih =>
    rw [Session.cancelInside, hs.beginCancel hin, ih hs.silenced hin]
    cases n <;> rfl

theorem incoming_tell (s : Session) (n : Notice) (es : List Event) :
    (s.tell n).incoming es = s.incoming es := rfl

theorem incoming_of_items {item : Except TransportError Chunk}
    {items : List (Except TransportError Chunk)} (h : s.exchange.items = item :: items)
    (es : List Event) : ∃ later closed, s.incoming es = ⟨item :: later, closed⟩ ∧
      incoming { s with exchange := { s.exchange with items } } es = ⟨later, closed⟩ := by
  cases hserver : s.exchange.hasServer with
  | true =>
    exact ⟨items ++ (streamOf es).items, (streamOf es).closed, by simp [incoming, hserver, h]⟩
  | false => exact ⟨items, true, by simp [incoming, hserver, h]⟩

theorem nextTick_tell (s : Session) (u : Update) :
    (s.tell (.tick u)).nextTick = s.nextTick + 1 := by
  simp [nextTick, Session.tell, Notice.isTick]

theorem advance?_of_check? {t : Subscription} (h : s.subscription.check? = some t) :
    s.advance? = some (s.become t) := by
  cases hp : s.subscription.phase with
  | checking u => simp [advance?, hp, h]
  | stopping e => simp [advance?, hp, h]
  | _ => simp [Subscription.check?, hp] at h

theorem Sound.continues_check {t : Subscription} (hs : s.Sound)
    (h : s.subscription.check? = some t) : s.Continues := by
  refine ⟨_, advance?_of_check? h, hs.become rfl (Subscription.step_check? h), ?_⟩
  intro es
  rw [forecast_become, forecast, Subscription.outlook_check? h]

/-- A subscription that tells its subscriber of something, or is about to, has not been cancelled
before. -/
theorem Sound.not_cancelled (hs : s.Sound) {n : Notice}
    (h : s.subscription.phase.callback? = some n ∨ s.subscription.phase.cleared? = some n) :
    s.subscription.cancelled = false := by
  cases hc : s.subscription.cancelled with
  | false => rfl
  | true =>
    obtain ⟨hcallback, hcleared⟩ := hs.silent hc
    rw [hcallback, hcleared] at h
    rcases h with h | h <;> cases h

theorem Sound.continues_call {n : Notice} (hs : s.Sound)
    (hn : s.subscription.phase = .cleared n) : s.Continues := by
  have hc := hs.not_cancelled (n := n) (Or.inr (by rw [hn]; rfl))
  have hcall : s.subscription.call? = some { s.subscription with phase := n.phase } := by
    rw [Subscription.call?, hn]
  refine ⟨_, by simp only [advance?, hn, hcall]; rfl,
    hs.become rfl (Subscription.step_call? hcall), ?_⟩
  intro es
  rw [forecast_become, forecast, Subscription.outlook_call? hcall hc]

theorem Sound.continues_failing {e : SubscriptionError} (hs : s.Sound)
    (he : s.subscription.phase = .failing e) : s.Continues := by
  have hc := hs.not_cancelled (n := .failure e) (Or.inl (by rw [he]; rfl))
  have hfinish : s.subscription.finish? s.callbacks.onFailure =
      some { s.subscription with phase := .exited } := by
    simp [Subscription.finish?, hs.hasCall, he]
  refine ⟨(s.tell (.failure e)).become _, by simp [advance?, he, Session.tell, hfinish],
    (hs.tell _).become (fun _ => congrArg Subscription.Phase.cleared? he) rfl
      (Subscription.step_finish? hfinish), ?_⟩
  intro es
  rw [forecast_become, forecast]
  simp [Subscription.outlook, hc, he, Outlook.after, Session.tell]

/-- The phase after a tick. -/
def afterTick : CallbackOutcome → Subscription.Phase
  | .returned => .reading
  | .panicked text => .stopping (.callbackPanicked (panicText text))

theorem isEnd_afterTick (outcome : CallbackOutcome) : (afterTick outcome).isEnd = false := by
  cases outcome <;> rfl

theorem Undisturbed.finish?_ticking (hs : s.Undisturbed) (hu : s.subscription.phase = .ticking u)
    (outcome : CallbackOutcome) :
    s.subscription.finish? outcome = some { s.subscription with phase := afterTick outcome } := by
  cases outcome <;> simp [Subscription.finish?, hs.hasCall, hu, afterTick]

theorem Sound.continues_ticking (hs : s.Sound) (hu : s.subscription.phase = .ticking u) :
    s.Continues := by
  have hc := hs.not_cancelled (n := .tick u) (Or.inl (by rw [hu]; rfl))
  have hticks : s.subscription.phase.cleared? = none := congrArg Subscription.Phase.cleared? hu
  have hin : s.subscription.inCallback = true := by simp [Subscription.inCallback, hu]
  have htold := hs.tell (.tick u)
  cases hr : s.callbacks.onTick s.nextTick with
  | mk cancels outcome =>
    have hinside := htold.cancelInside hin cancels
    by_cases hn : cancels = 0
    · rw [if_pos hn] at hinside
      have hfinish := htold.finish?_ticking hu outcome
      refine ⟨(s.tell (.tick u)).become _, by simp [advance?, hu, hr, hinside, hfinish],
        htold.become (fun _ => hticks) rfl (Subscription.step_finish? hfinish), ?_⟩
      intro es
      rw [forecast_become, forecast, nextTick_tell, Subscription.outlook_ticking hc hu, hr,
        Outlook.after_after]
      cases outcome with
      | returned =>
        have hgoes : Reaction.goesOn ⟨cancels, .returned⟩ = true := by simp [Reaction.goesOn, hn]
        rw [if_pos hgoes, incoming_tell]
        simp [Subscription.outlook, afterTick, Session.tell, hc]
      | panicked text =>
        simp [Subscription.outlook, afterTick, Session.tell, hc, Reaction.goesOn,
          Reaction.failure?, hn]
    · -- a tick that cancels leaves nothing to be told, however it comes back
      rw [if_neg hn] at hinside
      have hfinish := htold.silenced.finish?_ticking hu outcome
      refine ⟨(s.tell (.tick u)).silenced.become _, by simp [advance?, hu, hr, hinside, hfinish],
        htold.silenced.become (fun _ => hticks) rfl (Subscription.step_finish? hfinish), ?_⟩
      intro es
      have hstops : Reaction.goesOn ⟨cancels, outcome⟩ = false := by simp [Reaction.goesOn, hn]
      have hsilent : Reaction.failure? ⟨cancels, outcome⟩ = none := by
        cases outcome <;> simp [Reaction.failure?, hn]
      rw [forecast_become, forecast, Subscription.outlook_of_cancelled rfl,
        Subscription.outlook_ticking hc hu, hr, hstops, hsilent, Outlook.after_after]
      · rfl
      · exact isEnd_afterTick outcome

theorem Sound.continues_reading {r : Reading} {x : Exchange} {t : Subscription} (hs : s.Sound)
    (hr : s.subscription.phase = .reading) (hnext : s.exchange.next? = some (r, x))
    (hread : s.subscription.read? r = some t)
    (hsame : ∀ es, t.outlook s.callbacks.onTick s.nextTick ({ s with exchange := x }.incoming es) =
      s.subscription.outlook s.callbacks.onTick s.nextTick (s.incoming es)) : s.Continues := by
  obtain ⟨hcancelled, hreader⟩ := Exchange.next?_same hnext
  have hx : Sound { s with exchange := x } :=
    ⟨⟨hs.firing, hs.handle, hcancelled.trans hs.cancelled,
      fun h => hreader.trans (hs.hasReader h)⟩, hs.silent⟩
  refine ⟨{ s with exchange := x }.become t, by simp [advance?, hr, hnext, hread],
    hx.become rfl (Subscription.step_read? hread), ?_⟩
  intro es
  rw [forecast_become, forecast]
  exact congrArg (Outlook.after · s.told) (hsame es)

/-- A worker that has to wait for its stream has told all that there is to tell. -/
theorem Sound.reading (hs : s.Sound) (hr : s.subscription.phase = .reading) :
    s.Continues ∨ s.advance? = none ∧ s.forecast [] = ⟨s.told, none⟩ := by
  cases hc : s.subscription.cancelled with
  | true =>
    -- the stream was cancelled with the subscription, and what it has brought is not read
    have hx := hs.cancelled.trans hc
    refine Or.inl (hs.continues_reading (r := .failed .cancelled) (x := s.exchange) hr
      (by simp [Exchange.next?, hx]) (by rw [Subscription.read?]; exact hr) ?_)
    intro es
    rw [Subscription.outlook_of_cancelled hc (congrArg Subscription.Phase.isEnd hr)]
    simp [Subscription.outlook, hc]
  | false =>
    have hx := hs.cancelled.trans hc
    cases hitems : s.exchange.items with
    | cons item items =>
      cases item with
      | error e =>
        refine Or.inl (hs.continues_reading (r := .failed e) (x := { s.exchange with items }) hr
          (by simp [Exchange.next?, hx, hitems]) (by rw [Subscription.read?]; exact hr) ?_)
        intro es
        obtain ⟨later, closed, hincoming, _⟩ := incoming_of_items hitems es
        rw [hincoming, Subscription.outlook_error hc hr]
        simp [Subscription.outlook, hc]
      | ok chunk =>
        refine Or.inl (hs.continues_reading (r := .chunk chunk) (x := { s.exchange with items }) hr
          (by simp [Exchange.next?, hx, hitems]) (by rw [Subscription.read?]; exact hr) ?_)
        intro es
        obtain ⟨later, closed, hincoming, hrest⟩ := incoming_of_items hitems es
        rw [hincoming, hrest, Subscription.outlook_decode hc hr]
    | nil =>
      cases hserver : s.exchange.hasServer with
      | true =>
        refine Or.inr ⟨by simp [advance?, hr, Exchange.next?, hx, hitems, hserver], ?_⟩
        have hincoming : s.incoming [] = ⟨[], false⟩ := by
          simp [incoming, hserver, hitems, streamOf]
        rw [forecast, hincoming, Subscription.outlook_nil hc hr]
        simp [Outlook.after]
      | false =>
        refine Or.inl (hs.continues_reading (r := .ended) (x := s.exchange) hr
          (by simp [Exchange.next?, hx, hitems, hserver]) (by rw [Subscription.read?]; exact hr) ?_)
        intro es
        have hincoming : s.incoming es = ⟨[], true⟩ := by simp [incoming, hserver, hitems]
        rw [hincoming, Subscription.outlook_nil hc hr]
        simp [Subscription.outlook, hc]

theorem waits_of_hasExited (hs : s.subscription.hasExited = true) :
    s.advance? = none ∧ s.forecast [] = ⟨s.told, s.subscription.final?⟩ := by
  refine ⟨?_, by rw [forecast, Subscription.outlook_of_hasExited hs]; simp [Outlook.after]⟩
  cases hp : s.subscription.phase with
  | exited => simp [advance?, hp]
  | died c => simp [advance?, hp]
  | _ => simp [Subscription.hasExited, hp, Subscription.Phase.isEnd] at hs

/-- The worker goes on until it has to wait for the stream or its thread has ended. -/
theorem Sound.continues_or_waits (hs : s.Sound) :
    s.Continues ∨ s.advance? = none ∧ s.forecast [] = ⟨s.told, s.subscription.final?⟩ := by
  cases hp : s.subscription.phase with
  | reading =>
    have hwaits : s.subscription.final? = none :=
      if_neg (by simp [Subscription.hasExited, hp, Subscription.Phase.isEnd])
    rw [hwaits]
    exact hs.reading hp
  | checking u => exact Or.inl (hs.continues_check (by rw [Subscription.check?, hp]))
  | stopping e => exact Or.inl (hs.continues_check (by rw [Subscription.check?, hp]))
  | cleared n => exact Or.inl (hs.continues_call hp)
  | ticking u => exact Or.inl (hs.continues_ticking hp)
  | failing e => exact Or.inl (hs.continues_failing hp)
  | exited => exact Or.inr (waits_of_hasExited (congrArg Subscription.Phase.isEnd hp))
  | died c => exact Or.inr (waits_of_hasExited (congrArg Subscription.Phase.isEnd hp))

end Session
end TickingTable
