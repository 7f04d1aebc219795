import TickingTable.Proofs.Joining
import TickingTable.Subscription.Session

/-! What the worker and the threads that cancel do to a subscription step by step, and which
callbacks begin in a run. -/

namespace TickingTable
namespace Subscription

variable {s t : Subscription} {e : Event} {es later : List Event} {c : Caller}

/-- The phases that the worker can turn to, by whether the subscription has been cancelled. -/
inductive Phase.Follows : Bool → Phase → Phase → Prop
  | idle (cancelled : Bool) : Follows cancelled .reading .reading
  | ready (cancelled : Bool) (u : Update) : Follows cancelled .reading (.checking u)
  | broken (cancelled : Bool) (e : SubscriptionError) : Follows cancelled .reading (.stopping e)
  | crashed (cancelled : Bool) (c : Decoder.Crash) : Follows cancelled .reading (.died c)
  | tick (u : Update) : Follows false (.checking u) (.cleared (.tick u))
  | unwanted (u : Update) : Follows true (.checking u) (.stopping .cancelled)
  | failure (e : SubscriptionError) : Follows false (.stopping e) (.cleared (.failure e))
  | silence (e : SubscriptionError) : Follows true (.stopping e) .exited
  | begun (cancelled : Bool) (n : Notice) : Follows cancelled (.cleared n) n.phase
  | returned (cancelled : Bool) (u : Update) : Follows cancelled (.ticking u) .reading
  | panicked (cancelled : Bool) (u : Update) (e : SubscriptionError) :
    Follows cancelled (.ticking u) (.stopping e)
  | told (cancelled : Bool) (e : SubscriptionError) : Follows cancelled (.failing e) .exited

/-- The worker has begun its last callback or needs none. -/
def Phase.IsLast : Phase → Prop
  | .failing _ | .exited | .died _ => True
  | _ => False

/-- The callback that runs in a phase. -/
def Phase.callback? : Phase → Option Notice
  | .ticking u => some (.tick u)
  | .failing e => some (.failure e)
  | _ => none

/-- The callback that begins after a phase even if the subscription is cancelled meanwhile. -/
def Phase.cleared? : Phase → Option Notice
  | .cleared n => some n
  | _ => none

@[simp] theorem Phase.callback?_phase (n : Notice) : n.phase.callback? = some n := by
  cases n <;> rfl

@[simp] theorem Phase.cleared?_phase (n : Notice) : n.phase.cleared? = none := by
  cases n <;> rfl

theorem Phase.isLast_of_isEnd {p : Phase} (h : p.isEnd = true) : p.IsLast := by
  cases p with
  | exited => trivial
  | died c => trivial
  | _ => cases h

theorem Phase.callback?_of_isEnd {p : Phase} (h : p.isEnd = true) : p.callback? = none := by
  cases p with
  | exited => rfl
  | died c => rfl
  | _ => cases h

namespace Phase.Follows

variable {cancelled : Bool} {p q : Phase}

theorem not_isEnd (h : Follows cancelled p q) : p.isEnd = false := by
  cases h <;> rfl

/-- Once the subscription has been cancelled no callback follows but one for which the worker has
looked before. -/
theorem of_cancelled (h : Follows true p q) :
    q.cleared? = none ∧ ∀ n, q.callback? = some n → p.cleared? = some n := by
  cases h with
  | begun _ n => exact ⟨Phase.cleared?_phase n, fun m hm => (Phase.callback?_phase n).symm.trans hm⟩
  | _ => exact ⟨rfl, fun _ hn => absurd hn (by simp [Phase.callback?])⟩

theorem isLast (h : Follows cancelled p q) (hp : p.IsLast) : q = .exited := by
  cases h with
  | told _ e => rfl
  | _ => cases hp

end Phase.Follows

theorem inCallback_eq (s : Subscription) : s.inCallback = s.phase.callback?.isSome := by
  unfold inCallback
  cases s.phase <;> rfl

theorem hasExited_of_hasFinished (h : s.hasFinished = true) : s.hasExited = true := by
  rw [hasExited, of_decide_eq_true h]
  rfl

/-- Whether the worker takes the step. -/
def Event.isWork : Event → Bool
  | .read _ | .check | .call | .finish _ => true
  | _ => false

/-- All that a step can do. The worker changes its decoder and its phase only, and the threads that
cancel change everything else. -/
inductive Step (s : Subscription) : Event → Subscription → Prop
  | work {e : Event} (decoder : Decoder) (phase : Phase) : e.isWork = true →
    Phase.Follows s.cancelled s.phase phase → Step s e { s with decoder, phase }
  | again : s.cancelled = true → Step s (.raise .worker) s
  | first (c : Caller) : s.hasCall c = false → s.cancelled = false →
    Step s (.raise c) { s with cancelled := true, firing := some c }
  | late (c : Caller) (handle : WorkerHandle) : c ≠ .worker → s.cancelled = true →
    s.handle.enter? c = some handle → Step s (.raise c) { s with handle }
  | fireInside : s.firing = some .worker → Step s (.fire .worker) { s with firing := none }
  | fire (c : Caller) (handle : WorkerHandle) : c ≠ .worker → s.firing = some c →
    s.handle.enter? c = some handle → Step s (.fire c) { s with firing := none, handle }
  | lock (c : Caller) (handle : WorkerHandle) : s.handle.lock? c = some handle →
    Step s (.lock c) { s with handle }
  | join (c : Caller) (handle : WorkerHandle) : s.handle.join? c s.hasExited = some handle →
    Step s (.join c) { s with handle }

theorem step_decode (s : Subscription) (chunk : Chunk) (hs : s.phase = .reading) :
    Step s (.read (.chunk chunk)) (s.decode chunk) := by
  unfold decode
  split
  · exact .work s.decoder _ rfl (hs ▸ .broken _ _)
  · split
    · exact .work _ _ rfl (hs ▸ .crashed _ _)
    · exact .work _ _ rfl (hs ▸ .broken _ _)
    · exact .work _ s.phase rfl (hs ▸ .idle _)
    · exact .work _ _ rfl (hs ▸ .ready _ _)

theorem step_read? {r : Reading} (h : s.read? r = some t) : Step s (.read r) t := by
  unfold read? at h
  split at h
  · next hs =>
    cases h
    exact step_decode s _ hs
  · next hs =>
    cases h
    exact .work s.decoder _ rfl (hs ▸ .broken _ _)
  · next hs =>
    cases h
    exact .work s.decoder _ rfl (hs ▸ .broken _ _)
  · cases h

theorem step_check? (h : s.check? = some t) : Step s .check t := by
  unfold check? at h
  split at h
  · next u hs =>
    cases h
    refine .work s.decoder _ rfl ?_
    rw [hs]
    cases s.cancelled with
    | true => exact .unwanted u
    | false => exact .tick u
  · next e hs =>
    cases h
    refine .work s.decoder _ rfl ?_
    rw [hs]
    cases s.cancelled with
    | true => exact .silence e
    | false => exact .failure e
  · cases h

theorem step_call? (h : s.call? = some t) : Step s .call t := by
  unfold call? at h
  split at h
  · next n hs =>
    cases h
    exact .work s.decoder _ rfl (hs ▸ .begun _ n)
  · cases h

theorem step_finish? {outcome : CallbackOutcome} (h : s.finish? outcome = some t) :
    Step s (.finish outcome) t := by
  unfold finish? at h
  split at h
  · cases h
  · split at h
    · next hs =>
      cases h
      exact .work s.decoder _ rfl (hs ▸ .returned _ _)
    · next hs =>
      cases h
      exact .work s.decoder _ rfl (hs ▸ .panicked _ _ _)
    · next hs =>
      cases h
      exact .work s.decoder _ rfl (hs ▸ .told _ _)
    · cases h

theorem step_raise? (h : s.raise? c = some t) : Step s (.raise c) t := by
  unfold raise? at h
  by_cases hbusy : s.hasCall c = true ∨ c = .worker ∧ s.inCallback = false
  · rw [if_pos hbusy] at h
    cases h
  · rw [if_neg hbusy] at h
    have hfree : s.hasCall c = false := Bool.eq_false_iff.2 fun hc => hbusy (Or.inl hc)
    by_cases hcancelled : s.cancelled = true
    · rw [if_pos hcancelled] at h
      by_cases hc : c = .worker
      · subst hc
        cases h
        exact .again hcancelled
      · rw [if_neg hc] at h
        obtain ⟨handle, hhandle, rfl⟩ := Option.map_eq_some_iff.1 h
        exact .late c handle hc hcancelled hhandle
    · rw [if_neg hcancelled] at h
      cases h
      exact .first c hfree (Bool.eq_false_iff.2 hcancelled)

theorem step_fire? (h : s.fire? c = some t) : Step s (.fire c) t := by
  unfold fire? at h
  by_cases hfiring : s.firing = some c
  · rw [if_neg (not_not_intro hfiring)] at h
    by_cases hc : c = .worker
    · subst hc
      cases h
      exact .fireInside hfiring
    · rw [if_neg hc] at h
      obtain ⟨handle, hhandle, rfl⟩ := Option.map_eq_some_iff.1 h
      exact .fire c handle hc hfiring hhandle
  · rw [if_pos hfiring] at h
    cases h

theorem step_of_step? (h : s.step? e = some t) : Step s e t := by
  cases e with
  | read r => exact step_read? h
  | check => exact step_check? h
  | call => exact step_call? h
  | finish outcome => exact step_finish? h
  | raise c => exact step_raise? h
  | fire c => exact step_fire? h
  | lock c =>
    obtain ⟨handle, hhandle, rfl⟩ := Option.map_eq_some_iff.1 h
    exact .lock c handle hhandle
  | join c =>
    obtain ⟨handle, hhandle, rfl⟩ := Option.map_eq_some_iff.1 h
    exact .join c handle hhandle

/-- The subscription after some steps, if each of them can be taken. -/
def run? : Subscription → List Event → Option Subscription
  | s, [] => some s
  | s, e :: es => (s.step? e).bind fun t => t.run? es

theorem run?_cons : s.run? (e :: es) = some t ↔ ∃ u, s.step? e = some u ∧ u.run? es = some t :=
  Option.bind_eq_some_iff

theorem run?_append (s : Subscription) (es later : List Event) :
    s.run? (es ++ later) = (s.run? es).bind fun t => t.run? later := by
  induction es generalizing s with
  | nil => rfl
  | cons e es ih => simp only [List.cons_append, run?, ih, Option.bind_assoc]

/-- What every step preserves a run preserves. -/
theorem run?_preserves {P : Subscription → Prop}
    (hstep : ∀ s e t, P s → Step s e t → P t) (hs : P s) (h : s.run? es = some t) : P t := by
  induction es generalizing s with
  | nil =>
    cases h
    exact hs
  | cons e es ih =>
    obtain ⟨u, hu, h⟩ := run?_cons.1 h
    exact ih (hstep s e u hs (step_of_step? hu)) h

/-- The callback that runs after a step and did not run before. -/
def begun? (s t : Subscription) : Option Notice :=
  if s.phase.callback? = none then t.phase.callback? else none

/-- The callbacks that begin in a run, in their order. -/
def told : Subscription → List Event → List Notice
  | _, [] => []
  | s, e :: es =>
    match s.step? e with
    | none => []
    | some t => (begun? s t).toList ++ t.told es

theorem told_cons (h : s.step? e = some t) :
    s.told (e :: es) = (begun? s t).toList ++ t.told es := by
  rw [told, h]

theorem told_append (h : s.run? es = some t) :
    s.told (es ++ later) = s.told es ++ t.told later := by
  induction es generalizing s with
  | nil =>
    cases h
    rfl
  | cons e es ih =>
    obtain ⟨u, hu, h⟩ := run?_cons.1 h
    rw [List.cons_append, told_cons hu, told_cons hu, ih h, List.append_assoc]

/-- Nothing is told from a state that all steps keep without beginning a callback. -/
theorem told_eq_nil {P : Subscription → Prop}
    (hstep : ∀ s e t, P s → Step s e t → P t ∧ begun? s t = none) (hs : P s) (es : List Event) :
    s.told es = [] := by
  induction es generalizing s with
  | nil => rfl
  | cons e es ih =>
    cases ht : s.step? e with
    | none => simp [told, ht]
    | some t =>
      obtain ⟨hnext, hnone⟩ := hstep s e t hs (step_of_step? ht)
      rw [told_cons ht, hnone, ih hnext]
      rfl

theorem begun?_of_phase_eq (h : t.phase = s.phase) : begun? s t = none := by
  unfold begun?
  split
  · rw [h]
    assumption
  · rfl

theorem begun?_of_callback?_eq_none (h : t.phase.callback? = none) : begun? s t = none := by
  simp [begun?, h]

theorem callback?_of_begun? {n : Notice} (h : begun? s t = some n) :
    t.phase.callback? = some n := by
  unfold begun? at h
  split at h
  · exact h
  · cases h

/-- A chunk of one column with the given numbers, in an envelope. -/
def chunkOf (numbers : List Int32) (metadata : Option (List UInt8)) : Chunk where
  columns := [.list false false [⟨0, numbers.length, true⟩]
    (.flat ⟨.int32, (numbers.map fun n => some (.int32 n)).toArray, by
      intro c hc v hv
      rw [List.mem_toArray, List.mem_map] at hc
      obtain ⟨n, -, rfl⟩ := hc
      cases hv
      rfl⟩)]
  rows := 1
  metadata := metadata
  size_eq_rows := by simp [Arrow.AnyArray.size]

end Subscription
end TickingTable
