import TickingTable.Proofs.Subscription.Cancellation

/-! Whatever is done to a session, its subscription takes steps of its own. -/

namespace TickingTable
namespace Subscription

variable {s t u : Subscription} {e : Event} {c : Caller}

/-- Some steps lead from one state to the other. -/
def Reaches (s t : Subscription) : Prop := ∃ es, s.run? es = some t

namespace Reaches

theorem refl (s : Subscription) : s.Reaches s := ⟨[], rfl⟩

theorem step (h : s.step? e = some t) : s.Reaches t := ⟨[e], run?_cons.2 ⟨t, h, rfl⟩⟩

theorem trans (hs : s.Reaches t) (ht : t.Reaches u) : s.Reaches u := by
  obtain ⟨es, hes⟩ := hs
  obtain ⟨more, hmore⟩ := ht
  exact ⟨es ++ more, by rw [run?_append, hes, Option.bind_some, hmore]⟩

/-- A step that cannot be taken changes nothing. -/
theorem getD (s : Subscription) (e : Event) : s.Reaches ((s.step? e).getD s) := by
  cases h : s.step? e with
  | none => exact refl s
  | some t => exact step h

theorem preserves {P : Subscription → Prop} (hstep : ∀ s e t, P s → Step s e t → P t) (hs : P s)
    (h : s.Reaches t) : P t := by
  obtain ⟨es, hes⟩ := h
  exact run?_preserves hstep hs hes

/-- What has finished stays so. -/
theorem hasFinished (h : s.Reaches t) (hs : s.hasFinished = true) : t.hasFinished = true := by
  refine h.preserves (P := fun s => s.hasFinished = true) (fun s e t hs h => ?_) hs
  rw [Subscription.hasFinished, h.phase_of_hasExited (hasExited_of_hasFinished hs)]
  exact hs

theorem cancelled (h : s.Reaches t) (hs : s.cancelled = true) : t.cancelled = true := by
  obtain ⟨es, hes⟩ := h
  rw [cancelled_run? hes, hs, Bool.true_or]

end Reaches

/-- Only a subscription that has been cancelled has calls. -/
def Marked (s : Subscription) : Prop := ∀ c, s.hasCall c = true → s.cancelled = true

theorem Marked.start (schema : Schema) : (start schema).Marked := by
  intro c hc
  simp [Subscription.start, hasCall, WorkerHandle.create, WorkerHandle.hasCall] at hc

theorem Marked.step (hs : s.Marked) (h : Step s e t) : t.Marked := by
  intro d hd
  cases h with
  | work decoder phase _ _ => exact hs d hd
  | again _ => exact hs d hd
  | first c _ _ => rfl
  | late c handle _ hcancelled _ => exact hcancelled
  | fireInside hfiring => exact hs _ (hasCall_iff.2 (Or.inl hfiring))
  | fire c handle _ hfiring _ => exact hs _ (hasCall_iff.2 (Or.inl hfiring))
  | lock c handle hhandle =>
    have hcall := (WorkerHandle.locks_of_lock? hhandle).1
    exact hs _ (hasCall_iff.2 (Or.inr (WorkerHandle.hasCall_iff.2 ⟨_, hcall⟩)))
  | join c handle hhandle =>
    have hcall := (WorkerHandle.join?_eq_some.1 hhandle).1.1
    exact hs _ (hasCall_iff.2 (Or.inr (WorkerHandle.hasCall_iff.2 ⟨_, hcall⟩)))

theorem Reaches.marked (h : s.Reaches t) (hs : s.Marked) : t.Marked :=
  h.preserves (fun _ _ _ => Marked.step) hs

/-- A thread other than the worker that makes no call can begin one. -/
theorem hasCall_of_raise?_eq_none (hc : c ≠ .worker) (h : s.raise? c = none) :
    s.hasCall c = true := by
  by_contra hfree
  rw [Bool.not_eq_true] at hfree
  have hhandle : s.handle.hasCall c = false := by
    rw [← Bool.not_eq_true]
    intro hcall
    rw [hasCall_iff.2 (Or.inr hcall)] at hfree
    cases hfree
  unfold raise? at h
  rw [if_neg (by simp [hfree, hc])] at h
  split at h
  · simp [WorkerHandle.enter?, hhandle] at h
  · cases h

end Subscription

namespace Session

open Subscription

variable {s t : Session} {c : Caller}

theorem reaches_beginCancel (s : Session) (c : Caller) :
    s.subscription.Reaches (s.beginCancel c).subscription := by
  unfold beginCancel
  split
  · exact .refl _
  · next t hraise =>
    have hraised : s.subscription.Reaches t := .step (e := .raise c) hraise
    split
    · exact hraised
    · next u hfire => exact hraised.trans (.step (e := .fire c) hfire)

theorem reaches_cancelInside (n : Nat) (s : Session) :
    s.subscription.Reaches (cancelInside n s).subscription := by
  induction n generalizing s with
  | zero => exact .refl _
  | succ n ih => exact (s.reaches_beginCancel .worker).trans (ih _)

theorem reaches_advance? (h : s.advance? = some t) : s.subscription.Reaches t.subscription := by
  unfold advance? at h
  simp only [Option.bind_eq_bind, Option.pure_def] at h
  split at h
  · obtain ⟨⟨r, x⟩, _, h⟩ := Option.bind_eq_some_iff.1 h
    obtain ⟨u, hu, h⟩ := Option.bind_eq_some_iff.1 h
    cases h
    exact .step (e := .read r) hu
  · obtain ⟨u, hu, h⟩ := Option.bind_eq_some_iff.1 h
    cases h
    exact .step (e := .check) hu
  · obtain ⟨u, hu, h⟩ := Option.bind_eq_some_iff.1 h
    cases h
    exact .step (e := .check) hu
  · obtain ⟨u, hu, h⟩ := Option.bind_eq_some_iff.1 h
    cases h
    exact .step (e := .call) hu
  · next u _ =>
    obtain ⟨v, hv, h⟩ := Option.bind_eq_some_iff.1 h
    cases h
    exact (reaches_cancelInside _ (s.tell (.tick u))).trans (.step (e := .finish _) hv)
  · obtain ⟨u, hu, h⟩ := Option.bind_eq_some_iff.1 h
    cases h
    exact .step (e := .finish _) hu
  · cases h
  · cases h

theorem reaches_runFor (n : Nat) (s : Session) :
    s.subscription.Reaches (runFor n s).subscription := by
  induction n generalizing s with
  | zero => exact .refl _
  | succ n ih =>
    rw [runFor]
    split
    · exact .refl _
    · next t ht => exact (reaches_advance? ht).trans (ih t)

theorem reaches_run (s : Session) : s.subscription.Reaches s.run.subscription :=
  reaches_runFor _ s

/-- What a cancel by another thread does after it has cancelled the subscription. -/
theorem reaches_cancel_of_beginCancel (s : Session) :
    (s.beginCancel (.other 0)).subscription.Reaches s.cancel.subscription :=
  ((reaches_run _).trans (.getD _ (.lock (.other 0)))).trans (.getD _ (.join (.other 0)))

theorem reaches_cancel (s : Session) : s.subscription.Reaches s.cancel.subscription :=
  (s.reaches_beginCancel (.other 0)).trans s.reaches_cancel_of_beginCancel

/-- A cancel by a thread other than the worker leaves the subscription cancelled. -/
theorem cancelled_beginCancel (hs : s.subscription.Marked) (hc : c ≠ .worker) :
    (s.beginCancel c).subscription.cancelled = true := by
  cases hraise : s.subscription.raise? c with
  | none =>
    rw [beginCancel, hraise]
    exact hs c (hasCall_of_raise?_eq_none hc hraise)
  | some t =>
    have ht : t.cancelled = true := by
      rw [(step_of_step? (e := .raise c) hraise).cancelled_eq]
      exact Bool.or_true _
    rw [beginCancel, hraise]
    dsimp only
    split
    · exact ht
    · next u hfire => exact (Reaches.step (e := .fire c) hfire).cancelled ht

theorem cancelled_cancel (hs : s.subscription.Marked) : s.cancel.subscription.cancelled = true :=
  s.reaches_cancel_of_beginCancel.cancelled (cancelled_beginCancel hs nofun)

end Session
end TickingTable
