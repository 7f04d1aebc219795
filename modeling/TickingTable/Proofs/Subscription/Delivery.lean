import Mathlib
import TickingTable.Proofs.Subscription.Forecast

/-! Delivery: which callbacks a worker makes, and that it makes no others. -/

namespace TickingTable
namespace Session

variable {s : Session}

theorem Sound.play (hs : s.Sound) (e : Event) :
    (s.play e).Sound ∧ ∀ es, (s.play e).forecast es = s.forecast (e :: es) := by
  cases e with
  | arrive item =>
    cases hserver : s.exchange.hasServer with
    | false =>
      have hsame : s.play (.arrive item) = s := by simp [Session.play, hserver]
      rw [hsame]
      exact ⟨hs, fun es => by simp [forecast, incoming, hserver]⟩
    | true =>
      have hnext : s.play (.arrive item) = { s with exchange := s.exchange.send item } := by
        simp [Session.play, hserver]
      have hkept : (s.exchange.send item).cancelled = s.exchange.cancelled ∧
          (s.exchange.send item).hasReader = s.exchange.hasReader := by
        unfold Exchange.send
        split <;> exact ⟨rfl, rfl⟩
      rw [hnext]
      refine ⟨⟨⟨hs.firing, hs.handle, hkept.1.trans hs.cancelled,
        fun h => hkept.2.trans (hs.hasReader h)⟩, hs.silent⟩, ?_⟩
      intro es
      cases hexited : s.subscription.hasExited with
      | true =>
        rw [forecast, forecast, Subscription.outlook_of_hasExited hexited,
          Subscription.outlook_of_hasExited hexited]
      | false =>
        have hincoming : incoming { s with exchange := s.exchange.send item } es =
            s.incoming (.arrive item :: es) := by
          simp [incoming, Exchange.send, hs.hasReader hexited, hserver, streamOf]
        rw [forecast, forecast, hincoming]
        rfl
  | close =>
    refine ⟨⟨⟨hs.firing, hs.handle, hs.cancelled, hs.hasReader⟩, hs.silent⟩, ?_⟩
    intro es
    have hincoming : (s.play .close).incoming es = s.incoming (.close :: es) := by
      simp [incoming, Session.play, Exchange.dropServer, streamOf]
    rw [forecast, forecast, hincoming]
    rfl
  | work =>
    rcases hs.continues_or_waits with ⟨t, ht, htsound, hsame⟩ | ⟨hnone, _⟩
    · rw [Session.play, ht]
      exact ⟨htsound, hsame⟩
    · rw [Session.play, hnone]
      exact ⟨hs, fun _ => rfl⟩

theorem Sound.playAll (hs : s.Sound) (es later : List Event) :
    (s.playAll es).Sound ∧ (s.playAll es).forecast later = s.forecast (es ++ later) := by
  induction es generalizing s with
  | nil => exact ⟨hs, rfl⟩
  | cons e es ih =>
    obtain ⟨hnext, hsame⟩ := hs.play e
    obtain ⟨hlast, hrest⟩ := ih hnext
    exact ⟨hlast, hrest.trans (hsame _)⟩

theorem Sound.runFor (hs : s.Sound) (n : Nat) :
    (runFor n s).Sound ∧ ∀ es, (runFor n s).forecast es = s.forecast es := by
  induction n generalizing s with
  | zero => exact ⟨hs, fun _ => rfl⟩
  | succ n ih =>
    rw [Session.runFor]
    rcases hs.continues_or_waits with ⟨t, ht, htsound, hsame⟩ | ⟨hnone, _⟩
    · rw [ht]
      obtain ⟨hlast, hrest⟩ := ih htsound
      exact ⟨hlast, fun es => (hrest es).trans (hsame es)⟩
    · rw [hnone]
      exact ⟨hs, fun _ => rfl⟩

/-- A worker that runs until it has to wait tells just what was to be expected. -/
theorem Sound.told_run (hs : s.Sound) :
    s.forecast [] = ⟨s.run.told, s.run.subscription.final?⟩ := by
  obtain ⟨hrun, hsame⟩ := hs.runFor (s.remaining + 1)
  rcases hrun.continues_or_waits with ⟨t, ht, _⟩ | ⟨_, hforecast⟩
  · have hnone := s.advance?_run
    rw [Session.run, ht] at hnone
    cases hnone
  · exact (hsame []).symm.trans hforecast

theorem Sound.told_prefix (hs : s.Sound) : s.told <+: s.run.told := by
  have h := congrArg Outlook.notices hs.told_run
  exact ⟨_, h⟩

theorem play_of_hasExited (h : s.subscription.hasExited = true) (e : Event) :
    (s.play e).toSubscriber = s.toSubscriber := by
  cases e with
  | arrive item => cases hserver : s.exchange.hasServer <;> simp [play, hserver]
  | close => rfl
  | work =>
    rw [play, (waits_of_hasExited h).1]
    rfl

/-- Nothing is told any more once the thread of the worker has ended. -/
theorem told_playAll (h : s.subscription.hasExited = true) (es : List Event) :
    (s.playAll es).told = s.told := by
  induction es generalizing s with
  | nil => rfl
  | cons e es ih =>
    have hsame := play_of_hasExited h e
    have hexited : (s.play e).subscription.hasExited = true := by rw [hsame, h]
    exact (ih hexited).trans (by rw [hsame])

/-- The whole of what a subscriber is told goes by the stream as a whole. -/
theorem outlook_run (schema : Schema) (callbacks : Callbacks) (headers : List (String × String))
    (command : List UInt8) (requests : List (List UInt8)) (es : List Event) :
    let s := (opened schema callbacks headers command requests).playAll es
    (Story.ofStream (.start schema) (streamOf es)).outlook callbacks.onTick 1 =
      ⟨s.run.told, s.run.subscription.final?⟩ := by
  intro s
  have hopened := Sound.opened schema callbacks headers command requests
  obtain ⟨hs, hsame⟩ := hopened.playAll es []
  calc (Story.ofStream (.start schema) (streamOf es)).outlook callbacks.onTick 1
    _ = (Session.opened schema callbacks headers command requests).forecast es := by
      simp [forecast, Outlook.after, Subscription.outlook, Session.opened, Subscription.start,
        incoming, nextTick, Exchange.create]
    _ = s.forecast [] := by rw [hsame, List.append_nil]
    _ = ⟨s.run.told, s.run.subscription.final?⟩ := hs.told_run

/-- However the items of a stream and the steps of the worker come one after the other: the
subscriber is told of the updates that a fresh decoder makes of the stream, each once and in order,
up to the first tick that panics or cancels, and then of the failure that ends the subscription
unless it has been cancelled. If the decoder panics the worker dies, and the subscriber is told of
nothing more. Nothing is told either after the thread of the worker has ended. -/
theorem told_of_stream (schema : Schema) (callbacks : Callbacks) (headers : List (String × String))
    (command : List UInt8) (requests : List (List UInt8)) (es : List Event) :
    let s := (opened schema callbacks headers command requests).playAll es
    let story := Story.ofStream (.start schema) (streamOf es)
    ((∀ k < story.updates.length, (callbacks.onTick (k + 1)).goesOn = true) →
      s.run.told = story.updates.map .tick ++ (story.ending?.bind Ending.notice?).toList ∧
        s.run.subscription.final? = story.ending?.map Ending.phase) ∧
    (∀ k < story.updates.length, (∀ j < k, (callbacks.onTick (j + 1)).goesOn = true) →
      (callbacks.onTick (k + 1)).goesOn = false →
      s.run.told = (story.updates.take (k + 1)).map .tick ++
          (callbacks.onTick (k + 1)).failure?.toList.map .failure ∧
        s.run.subscription.final? = some .exited) ∧
    s.told <+: s.run.told ∧
    (s.run.subscription.hasExited = true → ∀ later, (s.run.playAll later).told = s.run.told) := by
  intro s story
  have htold := outlook_run schema callbacks headers command requests es
  have hs : s.Sound := ((Sound.opened schema callbacks headers command requests).playAll es []).1
  refine ⟨?_, ?_, hs.told_prefix, told_playAll⟩
  · intro hgoes
    rw [Story.outlook, Story.tell_of_goesOn fun k hk => Nat.add_comm 1 k ▸ hgoes k hk] at htold
    exact ⟨(congrArg Outlook.notices htold).symm, (congrArg Outlook.final? htold).symm⟩
  · intro k hk hbefore hstops
    rw [Story.outlook, Story.tell_of_stops hk (fun j hj => Nat.add_comm 1 j ▸ hbefore j hj)
      (Nat.add_comm 1 k ▸ hstops), Nat.add_comm 1 k] at htold
    exact ⟨(congrArg Outlook.notices htold).symm, (congrArg Outlook.final? htold).symm⟩

/-- A stream of one update, which the worker begins to read before all of it has come. -/
def oneUpdate : List Event :=
  [.arrive (.ok (Subscription.chunkOf [] (some Decoder.makeRoom.encode))), .work,
    .arrive (.ok (Subscription.chunkOf [7] none)), .close]

/-- A subscriber that panics in its tick, and again when it is told of that. -/
def fragile : Callbacks := ⟨fun _ => ⟨0, .panicked (some "boom")⟩, .panicked none⟩

theorem updates_oneUpdate :
    (Story.ofStream (.start Decoder.oneColumn) (streamOf oneUpdate)).updates.length = 1 := by
  cbv

theorem told_of_stream_fragile :
    let s := ((opened Decoder.oneColumn fragile [] [] []).playAll oneUpdate).run
    (∃ u, s.told = [.tick u, .failure (.callbackPanicked "boom")]) ∧
      ∀ later, (s.playAll later).told = s.told := by
  intro s
  obtain ⟨_, hstops, _, hsilent⟩ := told_of_stream Decoder.oneColumn fragile [] [] [] oneUpdate
  obtain ⟨htold, hend⟩ := hstops 0 (by rw [updates_oneUpdate]; exact Nat.one_pos) nofun rfl
  have hexited : s.subscription.hasExited = true := (Option.ite_none_right_eq_some.1 hend).1
  refine ⟨?_, hsilent hexited⟩
  obtain ⟨u, hu⟩ := List.length_eq_one_iff.1 updates_oneUpdate
  rw [hu] at htold
  exact ⟨u, htold⟩

/-- A subscriber that lets all ticks pass. -/
def calm : Callbacks := ⟨fun _ => ⟨0, .returned⟩, .returned⟩

/-- A stream of one message, which makes the decoder panic. -/
def oneCrash : List Event :=
  [.arrive (.ok (Subscription.chunkOf [7, 8] (some Decoder.farApart.encode))), .close]

/-- The session of that subscriber after the stream. -/
def crashed : Session := ((opened Decoder.oneColumn calm [] [] []).playAll oneCrash).run

theorem told_crashed : crashed.subscription.phase = .died (.overflow ⟨1, reservedKey⟩) ∧
    crashed.subscription.cancelled = false ∧ crashed.told = [] := by
  cbv

/-- The worker dies. Nobody has cancelled, but the subscriber is told neither of the update nor of
the end of the stream, and the subscription never counts as finished. -/
theorem told_crashes_farApart :
    crashed.subscription.phase = .died (.overflow ⟨1, reservedKey⟩) ∧
      crashed.subscription.hasFinished = false ∧ crashed.subscription.cancelled = false ∧
      ∀ later, (crashed.playAll later).told = [] := by
  obtain ⟨hdied, hcancelled, htold⟩ := told_crashed
  have hended : crashed.subscription.hasExited = true := congrArg Subscription.Phase.isEnd hdied
  refine ⟨hdied, ?_, hcancelled, fun later => (told_playAll hended later).trans htold⟩
  simp [Subscription.hasFinished, hdied]

end Session
end TickingTable
