import Mathlib
import TickingTable.Proofs.Decoder.Run
import TickingTable.Proofs.Subscription.Steps

/-! Cancelling: once a cancel by another thread has returned, no callback runs any more. -/

namespace TickingTable
namespace Subscription

variable {s t v : Subscription} {e : Event} {es later : List Event} {c : Caller}

/-- The calls of cancel wait for the worker, and only a subscription that has been cancelled has a
call that is about to cancel the stream. -/
structure Sound (s : Subscription) : Prop where
  awaits : s.handle.Awaits (s.hasExited = true)
  firing : ∀ c, s.firing = some c → s.cancelled = true

theorem Sound.start (schema : Schema) : (start schema).Sound := ⟨.create, nofun⟩

/-- Once its thread has ended, the worker moves no more. -/
theorem Step.phase_of_hasExited (h : Step s e t) (hs : s.hasExited = true) : t.phase = s.phase := by
  cases h with
  | work decoder phase _ hf =>
    rw [hasExited, hf.not_isEnd] at hs
    cases hs
  | _ => rfl

theorem Step.hasExited (h : Step s e t) (hs : s.hasExited = true) : t.hasExited = true := by
  rw [Subscription.hasExited, h.phase_of_hasExited hs]
  exact hs

theorem Sound.step (hs : s.Sound) (h : Step s e t) : t.Sound := by
  have hexited := h.hasExited
  cases h with
  | work decoder phase _ _ => exact ⟨hs.awaits.mono hexited, hs.firing⟩
  | again _ => exact hs
  | first c _ _ => exact ⟨hs.awaits, fun _ _ => rfl⟩
  | late c handle hc _ hhandle => exact ⟨hs.awaits.enter hc hhandle, hs.firing⟩
  | fireInside _ => exact ⟨hs.awaits, nofun⟩
  | fire c handle hc _ hhandle => exact ⟨hs.awaits.enter hc hhandle, nofun⟩
  | lock c handle hhandle => exact ⟨hs.awaits.lock hhandle, hs.firing⟩
  | join c handle hhandle => exact ⟨hs.awaits.join hhandle, hs.firing⟩

theorem Sound.run? (hs : s.Sound) (h : s.run? es = some t) : t.Sound :=
  run?_preserves (fun _ _ _ hs h => hs.step h) hs h

theorem hasCall_iff : s.hasCall c = true ↔ s.firing = some c ∨ s.handle.hasCall c = true := by
  simp [hasCall]

/-- A call by a thread other than the worker does not return at once. -/
theorem Step.hasCall_of_raise (h : Step s (.raise c) t) (hc : c ≠ .worker) :
    t.hasCall c = true := by
  cases h with
  | work decoder phase hwork _ => cases hwork
  | again _ => exact absurd rfl hc
  | first _ _ _ => exact hasCall_iff.2 (Or.inl rfl)
  | late _ handle _ _ hhandle =>
    exact hasCall_iff.2 (Or.inr ((WorkerHandle.hasCall_enter? hhandle).2 (Or.inl rfl)))

/-- A call by a thread other than the worker goes on unless the worker has exited. -/
theorem Sound.hasCall_step (hs : s.Sound) (h : Step s e t) (hc : c ≠ .worker)
    (hcall : s.hasCall c = true) : t.hasCall c = true ∨ t.hasExited = true := by
  cases h with
  | work decoder phase _ _ => exact Or.inl hcall
  | again _ => exact Or.inl hcall
  | first c' _ hnot =>
    rcases hasCall_iff.1 hcall with hfiring | hwaits
    · rw [hs.firing c hfiring] at hnot
      cases hnot
    · exact Or.inl (hasCall_iff.2 (Or.inr hwaits))
  | late c' handle _ _ hhandle =>
    rcases hasCall_iff.1 hcall with hfiring | hwaits
    · exact Or.inl (hasCall_iff.2 (Or.inl hfiring))
    · have hentered := (WorkerHandle.hasCall_enter? hhandle).2 (Or.inr hwaits)
      exact Or.inl (hasCall_iff.2 (Or.inr hentered))
  | fireInside hworker =>
    rcases hasCall_iff.1 hcall with hfiring | hwaits
    · rw [hfiring] at hworker
      cases hworker
      exact absurd rfl hc
    · exact Or.inl (hasCall_iff.2 (Or.inr hwaits))
  | fire c' handle _ hfirst hhandle =>
    have hentered : c' = c ∨ s.handle.hasCall c = true := by
      rcases hasCall_iff.1 hcall with hfiring | hwaits
      · -- the call that cancels the stream goes on to wait for the lock
        rw [hfiring] at hfirst
        exact Or.inl (Option.some.inj hfirst).symm
      · exact Or.inr hwaits
    exact Or.inl (hasCall_iff.2 (Or.inr ((WorkerHandle.hasCall_enter? hhandle).2 hentered)))
  | lock c' handle hhandle =>
    rcases hasCall_iff.1 hcall with hfiring | hwaits
    · exact Or.inl (hasCall_iff.2 (Or.inl hfiring))
    · by_cases hstill : handle.hasCall c = true
      · exact Or.inl (hasCall_iff.2 (Or.inr hstill))
      · -- another call has waited for the worker
        have hreturn := Bool.eq_false_iff.2 hstill
        exact Or.inr (hs.awaits.claimed.of_returns hc hhandle hwaits hreturn)
  | join c' handle hhandle => exact Or.inr (WorkerHandle.join?_eq_some.1 hhandle).1.2

theorem hasExited_run? (hs : s.hasExited = true) (h : s.run? es = some t) :
    t.hasExited = true :=
  run?_preserves (fun _ _ _ hs h => h.hasExited hs) hs h

/-- Whether the step begins a call of cancel. -/
def Event.isRaise : Event → Bool
  | .raise _ => true
  | _ => false

theorem Step.cancelled_eq (h : Step s e t) : t.cancelled = (s.cancelled || e.isRaise) := by
  cases h with
  | work decoder phase hwork _ =>
    cases e with
    | raise _ => cases hwork
    | _ => simp [Event.isRaise]
  | again hs => simp [hs]
  | first c _ _ => simp [Event.isRaise]
  | late c handle _ hs _ => simp [hs]
  | _ => simp [Event.isRaise]

theorem prefix_of_phase_eq (h : t.phase = s.phase) :
    (begun? s t).toList ++ t.phase.cleared?.toList <+: s.phase.cleared?.toList := by
  rw [begun?_of_phase_eq h, h]
  exact List.prefix_refl _

/-- What begins now and what the worker is cleared for afterwards, it was cleared for before. -/
theorem Step.prefix_of_cancelled (h : Step s e t) (hs : s.cancelled = true) :
    (begun? s t).toList ++ t.phase.cleared?.toList <+: s.phase.cleared?.toList := by
  cases h with
  | work decoder phase _ hf =>
    rw [hs] at hf
    obtain ⟨hnone, hcleared⟩ := hf.of_cancelled
    rw [hnone, Option.toList_none, List.append_nil]
    cases hbegun : begun? s { s with decoder, phase } with
    | none => exact List.nil_prefix
    | some n =>
      rw [hcleared n (callback?_of_begun? hbegun)]
  | _ => exact prefix_of_phase_eq rfl

/-- Once the subscription has been cancelled no callback begins but the one for which the worker had
looked before. -/
theorem told_of_cancelled (hs : s.cancelled = true) (es : List Event) :
    s.told es <+: s.phase.cleared?.toList := by
  induction es generalizing s with
  | nil => exact List.nil_prefix
  | cons e es ih =>
    cases ht : s.step? e with
    | none =>
      rw [told, ht]
      exact List.nil_prefix
    | some t =>
      have hstep := step_of_step? ht
      have hrest := ih (s := t) (by rw [hstep.cancelled_eq, hs, Bool.true_or])
      rw [told_cons ht]
      exact ((List.prefix_append_right_inj _).2 hrest).trans (hstep.prefix_of_cancelled hs)

theorem Step.isLast (h : Step s e t) (hs : s.phase.IsLast) :
    t.phase.IsLast ∧ begun? s t = none := by
  cases h with
  | work decoder phase _ hf =>
    obtain rfl := hf.isLast hs
    exact ⟨trivial, begun?_of_callback?_eq_none rfl⟩
  | _ => exact ⟨hs, begun?_of_phase_eq rfl⟩

theorem told_of_isLast (hs : s.phase.IsLast) (es : List Event) : s.told es = [] :=
  told_eq_nil (fun _ _ _ hs h => h.isLast hs) hs es

theorem isLast_of_begun? {x : SubscriptionError} (h : begun? s t = some (.failure x)) :
    t.phase.IsLast := by
  have hcallback := callback?_of_begun? h
  cases hp : t.phase with
  | failing _ => trivial
  | exited => trivial
  | died _ => trivial
  | _ => simp [hp, Phase.callback?] at hcallback

/-- The worker has begun its last callback when it has begun to tell of a failure. -/
theorem isLast_of_told {x : SubscriptionError} (h : s.run? es = some t)
    (hx : .failure x ∈ s.told es) : t.phase.IsLast := by
  induction es generalizing s with
  | nil => cases hx
  | cons e es ih =>
    obtain ⟨u, hu, h⟩ := run?_cons.1 h
    rw [told_cons hu] at hx
    rcases List.mem_append.1 hx with hnow | hlater
    · have hlast := isLast_of_begun? (Option.mem_toList.1 hnow)
      exact run?_preserves (fun _ _ _ hs h => (h.isLast hs).1) hlast h
    · exact ih h hlater

/-- A run tells of updates, and then of one failure at the most. -/
theorem exists_told_eq (s : Subscription) (es : List Event) :
    ∃ (us : List Update) (e? : Option SubscriptionError),
      s.told es = us.map .tick ++ e?.toList.map .failure := by
  induction es generalizing s with
  | nil => exact ⟨[], none, rfl⟩
  | cons e es ih =>
    cases ht : s.step? e with
    | none => exact ⟨[], none, by simp [told, ht]⟩
    | some t =>
      rw [told_cons ht]
      obtain ⟨us, e?, hrest⟩ := ih t
      cases hbegun : begun? s t with
      | none => exact ⟨us, e?, by simp [hrest]⟩
      | some n =>
        cases n with
        | tick u => exact ⟨u :: us, e?, by simp [hrest]⟩
        | failure e => exact ⟨[], some e, by simp [told_of_isLast (isLast_of_begun? hbegun)]⟩

/-- Whether the step cancels the stream. -/
def Event.isFire : Event → Bool
  | .fire _ => true
  | _ => false

/-- How often the stream has been cancelled. -/
def fired (s : Subscription) : Nat := if s.cancelled = true ∧ s.firing = none then 1 else 0

theorem Sound.fired_step (hs : s.Sound) (h : Step s e t) :
    t.fired = (if e.isFire then 1 else 0) + s.fired := by
  cases h with
  | work decoder phase hwork _ =>
    have hnot : e.isFire = false := by
      cases e with
      | fire _ => cases hwork
      | _ => rfl
    simp [fired, hnot]
  | first c _ hfirst => simp [fired, hfirst, Event.isFire]
  | fireInside hfiring => simp [fired, hfiring, hs.firing _ hfiring, Event.isFire]
  | fire c handle _ hfiring _ => simp [fired, hfiring, hs.firing _ hfiring, Event.isFire]
  | _ => simp [fired, Event.isFire]

theorem Sound.fired_run? (hs : s.Sound) (h : s.run? es = some t) :
    t.fired = es.countP Event.isFire + s.fired := by
  induction es generalizing s with
  | nil =>
    cases h
    simp
  | cons e es ih =>
    obtain ⟨u, hu, h⟩ := run?_cons.1 h
    have hstep := step_of_step? hu
    have hfirst := hs.fired_step hstep
    have hrest := ih (hs.step hstep) h
    rw [List.countP_cons]
    omega

theorem cancelled_run? (h : s.run? es = some t) :
    t.cancelled = (s.cancelled || es.any Event.isRaise) := by
  induction es generalizing s with
  | nil =>
    cases h
    simp
  | cons e es ih =>
    obtain ⟨u, hu, h⟩ := run?_cons.1 h
    rw [ih h, (step_of_step? hu).cancelled_eq, List.any_cons, Bool.or_assoc]

/-- Looking for a cancel clears the worker for no callback if there was one. -/
theorem cleared?_of_check? (h : s.check? = some t) (hs : s.cancelled = true) :
    s.phase.cleared? = none ∧ t.phase.cleared? = none := by
  cases hp : s.phase with
  | checking u =>
    rw [check?, hp] at h
    cases h
    exact ⟨rfl, by simp [hs, Phase.cleared?]⟩
  | stopping e =>
    rw [check?, hp] at h
    cases h
    exact ⟨rfl, by simp [hs, Phase.cleared?]⟩
  | _ => simp [check?, hp] at h

/-- If the worker looks after a cancel, the run tells of no failure, however it goes on. -/
theorem not_told_of_check {before after : List Event} {x : SubscriptionError}
    (h : s.run? (before ++ .check :: after) = some t) (hraised : ∃ c, .raise c ∈ before) :
    .failure x ∉ s.told (before ++ .check :: after) := by
  rw [run?_append] at h
  obtain ⟨r, hr, hrest⟩ := Option.bind_eq_some_iff.1 h
  obtain ⟨u, hu, _⟩ := run?_cons.1 hrest
  have hcancelled : r.cancelled = true := by
    obtain ⟨c, hc⟩ := hraised
    rw [cancelled_run? hr, List.any_eq_true.2 ⟨_, hc, rfl⟩, Bool.or_true]
  obtain ⟨hnone, _⟩ := cleared?_of_check? hu hcancelled
  have hlater := told_of_cancelled hcancelled (.check :: after)
  rw [hnone, Option.toList_none, List.prefix_nil] at hlater
  rw [told_append hr, hlater, List.append_nil]
  -- a worker that tells of a failure does not look again
  intro hx
  have hlast := isLast_of_told hr hx
  have hlook : r.check? = some u := hu
  cases hp : r.phase with
  | checking _ => rw [hp] at hlast; exact hlast
  | stopping _ => rw [hp] at hlast; exact hlast
  | _ => simp [check?, hp] at hlook

/-- Whatever steps the worker and any threads that cancel take, in whatever order: a call by another
thread goes on until the thread of the worker has ended, so that no callback runs or begins after
it; the subscriber is told of one failure at the most and of no update after it, and of none if the
worker looks whether the subscription has been cancelled after it has been; once it has been, no
callback begins but the one for which the worker had looked before; and of all calls exactly one
cancels the stream. -/
theorem cancel_safe (schema : Schema) (es : List Event) (s : Subscription)
    (h : (start schema).run? es = some s) :
    (∀ c t, c ≠ .worker → s.step? (.raise c) = some t → t.hasCall c = true) ∧
    (∀ c e t later v, c ≠ .worker → s.step? e = some t → s.hasCall c = true →
      t.hasCall c = false → t.run? later = some v →
      v.hasExited = true ∧ v.inCallback = false ∧ t.told later = []) ∧
    (∃ (us : List Update) (e? : Option SubscriptionError),
      (start schema).told es = us.map .tick ++ e?.toList.map .failure) ∧
    (∀ before after x, es = before ++ .check :: after → (∃ c, .raise c ∈ before) →
      .failure x ∉ (start schema).told es) ∧
    (s.cancelled = true → ∀ later, s.told later <+: s.phase.cleared?.toList) ∧
    (s.cancelled = true ↔ ∃ c, .raise c ∈ es) ∧
    es.countP Event.isFire = (if s.cancelled = true ∧ s.firing = none then 1 else 0) := by
  have hs : s.Sound := (Sound.start schema).run? h
  refine ⟨fun c t hc ht => (step_of_step? ht).hasCall_of_raise hc, ?_, exists_told_eq _ es, ?_,
    told_of_cancelled, ?_, ?_⟩
  · intro c e t later v hc ht hcall hreturn hv
    have hexited : t.hasExited = true := by
      rcases hs.hasCall_step (step_of_step? ht) hc hcall with hstill | hexited
      · rw [hreturn] at hstill
        cases hstill
      · exact hexited
    have hlater := hasExited_run? hexited hv
    refine ⟨hlater, ?_, told_of_isLast (Phase.isLast_of_isEnd hexited) later⟩
    rw [inCallback_eq, Phase.callback?_of_isEnd hlater]
    rfl
  · rintro before after x rfl hraised
    exact not_told_of_check h hraised
  · have hraised : s.cancelled = es.any Event.isRaise := cancelled_run? h
    rw [hraised, List.any_eq_true]
    constructor
    · rintro ⟨e, he, hraise⟩
      cases e with
      | raise c => exact ⟨c, he⟩
      | _ => cases hraise
    · rintro ⟨c, hc⟩
      exact ⟨_, hc, rfl⟩
  · exact ((Sound.start schema).fired_run? h).symm

/-- A thread cancels after the worker has looked and before its tick begins, and the subscriber
cancels in the tick as well. -/
def cancelledTwice : List Event :=
  [.read (.chunk (chunkOf [] (some Decoder.makeRoom.encode))), .read (.chunk (chunkOf [7] none)),
    .check, .raise (.other 0), .call, .raise .worker, .fire (.other 0), .lock (.other 0),
    .finish .returned, .read (.failed .cancelled), .check]

theorem run?_cancelledTwice : ((start Decoder.oneColumn).run? cancelledTwice).any (fun s =>
    s.cancelled && s.firing.isNone && s.hasCall (.other 0) && s.phase.cleared?.isNone &&
      (s.join? (.other 0)).any fun t => !t.hasCall (.other 0)) = true := by
  cbv

/-- The call by the other thread returns once the worker has exited, after the one tick, and the
subscriber is told of no failure. -/
theorem cancel_safe_cancelledTwice :
    ∃ s t, (start Decoder.oneColumn).run? cancelledTwice = some s ∧
      s.step? (.join (.other 0)) = some t ∧ s.hasCall (.other 0) = true ∧
      t.hasCall (.other 0) = false ∧ t.hasExited = true ∧ (∀ later, s.told later = []) ∧
      (∀ x, .failure x ∉ (start Decoder.oneColumn).told cancelledTwice) ∧
      cancelledTwice.countP Event.isFire = 1 := by
  obtain ⟨s, hs, hrun⟩ := (Option.any_eq_true _ _).1 run?_cancelledTwice
  simp only [Bool.and_eq_true, Option.isNone_iff_eq_none] at hrun
  obtain ⟨⟨⟨⟨hcancelled, hfiring⟩, hcall⟩, hnone⟩, hjoin⟩ := hrun
  obtain ⟨t, ht, hreturn⟩ := (Option.any_eq_true _ _).1 hjoin
  simp only [Bool.not_eq_true'] at hreturn
  obtain ⟨_, hexits, _, hsilent, hcleared, _, hfired⟩ :=
    cancel_safe Decoder.oneColumn cancelledTwice s hs
  obtain ⟨hexited, _, _⟩ :=
    hexits (.other 0) (.join (.other 0)) t [] t nofun ht hcall hreturn rfl
  refine ⟨s, t, hs, ht, hcall, hreturn, hexited, fun later => ?_, fun x => ?_, ?_⟩
  · have hrest := hcleared hcancelled later
    rwa [hnone, Option.toList_none, List.prefix_nil] at hrest
  · exact hsilent (cancelledTwice.take 10) [] x rfl ⟨.other 0, by simp [cancelledTwice]⟩
  · rw [hfired, if_pos ⟨hcancelled, hfiring⟩]

end Subscription
end TickingTable
