import TickingTable.Executor
import TickingTable.Proofs.Joining

/-! What the worker of an executor and the threads that use it do step by step. -/

namespace TickingTable
namespace Executor

variable {τ : Type} {e f : Executor τ} {v : Event τ} {vs ws : List (Event τ)}

/-- The task that runs. -/
def running? (e : Executor τ) : Option τ :=
  match e.phase with
  | .running task => some task
  | _ => none

/-- All that a step can do. -/
inductive Step (e : Executor τ) : Event τ → Executor τ → Prop
  | submit (task : τ) : e.isOpen = true →
    Step e (.submit task) { e with queue := e.queue ++ [task] }
  | start (task : τ) (queue : List τ) : e.phase = .idle → e.queue = task :: queue →
    Step e .start { e with queue, phase := .running task }
  | finish (task : τ) (panicked : Bool) : e.phase = .running task →
    e.handle.hasCall .worker = false → Step e (.finish panicked) { e with phase := .idle }
  | exit : e.phase = .idle → e.queue = [] → e.isOpen = false → Step e .exit { e with phase := .exited }
  | close (c : Caller) (handle : WorkerHandle) : e.canCall c = true →
    e.handle.enter? c = some handle → Step e (.close c) { e with isOpen := false, handle }
  | lock (c : Caller) (handle : WorkerHandle) : e.handle.lock? c = some handle →
    Step e (.lock c) { e with handle }
  | join (c : Caller) (handle : WorkerHandle) : e.handle.join? c e.hasExited = some handle →
    Step e (.join c) { e with handle }

theorem submit_eq_ok {task : τ} : e.submit task = .ok f ↔
    e.isOpen = true ∧ f = { e with queue := e.queue ++ [task] } := by
  unfold Executor.submit
  cases hopen : e.isOpen with
  | true => simp [eq_comm]
  | false => simp

theorem submit_eq_error {task : τ} : e.submit task = .error .shutdown ↔ e.isOpen = false := by
  unfold Executor.submit
  cases hopen : e.isOpen with
  | true => simp
  | false => simp

theorem step_start? {task : τ} (h : e.start? = some (task, f)) : Step e .start f := by
  unfold start? at h
  split at h
  · next queue hphase hqueue =>
    cases h
    exact .start task queue hphase hqueue
  · cases h

theorem step_finish? (panicked : Bool) (h : e.finish? = some f) : Step e (.finish panicked) f := by
  unfold finish? at h
  split at h
  · next hfree =>
    cases h
    unfold isRunning at hfree
    split at hfree
    · next task hphase => exact .finish task panicked hphase hfree.2
    · simp at hfree
  · cases h

theorem step_exit? (h : e.exit? = some f) : Step e .exit f := by
  unfold exit? at h
  split at h
  · next hphase hqueue hopen =>
    cases h
    exact .exit hphase hqueue hopen
  · cases h

theorem step_of_step? (h : e.step? v = some f) : Step e v f := by
  cases v with
  | submit task =>
    cases hsubmit : e.submit task with
    | error _ => simp [step?, hsubmit, Except.toOption] at h
    | ok f =>
      rw [step?, hsubmit] at h
      cases h
      obtain ⟨hopen, rfl⟩ := submit_eq_ok.1 hsubmit
      exact .submit task hopen
  | start =>
    obtain ⟨⟨task, _⟩, hstart, rfl⟩ := Option.map_eq_some_iff.1 h
    exact step_start? hstart
  | finish panicked => exact step_finish? panicked h
  | exit => exact step_exit? h
  | close c =>
    obtain ⟨hcall, h⟩ := Option.ite_none_right_eq_some.1 h
    obtain ⟨handle, hhandle, rfl⟩ := Option.map_eq_some_iff.1 h
    exact .close c handle hcall hhandle
  | lock c =>
    obtain ⟨handle, hhandle, rfl⟩ := Option.map_eq_some_iff.1 h
    exact .lock c handle hhandle
  | join c =>
    obtain ⟨handle, hhandle, rfl⟩ := Option.map_eq_some_iff.1 h
    exact .join c handle hhandle

theorem attempt_nil (e : Executor τ) : e.attempt [] = e := rfl

theorem attempt_append (e : Executor τ) (vs ws : List (Event τ)) :
    e.attempt (vs ++ ws) = (e.attempt vs).attempt ws := List.foldl_append

theorem attempt_cons_of_step? (h : e.step? v = some f) (vs : List (Event τ)) :
    e.attempt (v :: vs) = f.attempt vs := by
  simp [attempt, h]

theorem attempt_cons_of_none (h : e.step? v = none) (vs : List (Event τ)) :
    e.attempt (v :: vs) = e.attempt vs := by
  simp [attempt, h]

/-- The steps that are taken, each with the executor as it was before. -/
abbrev Log (τ : Type) := List (Executor τ × Event τ)

/-- The log of the steps that can be taken, in their order, where the others are left out. -/
def taken : Executor τ → List (Event τ) → Log τ
  | _, [] => []
  | e, v :: vs =>
    match e.step? v with
    | none => taken e vs
    | some f => (e, v) :: taken f vs

theorem taken_cons_of_step? (h : e.step? v = some f) (vs : List (Event τ)) :
    e.taken (v :: vs) = (e, v) :: f.taken vs := by
  rw [taken, h]

theorem taken_cons_of_none (h : e.step? v = none) (vs : List (Event τ)) :
    e.taken (v :: vs) = e.taken vs := by
  rw [taken, h]

theorem taken_append (e : Executor τ) (vs ws : List (Event τ)) :
    e.taken (vs ++ ws) = e.taken vs ++ (e.attempt vs).taken ws := by
  induction vs generalizing e with
  | nil => rfl
  | cons v vs ih =>
    cases hv : e.step? v with
    | none => rw [List.cons_append, taken_cons_of_none hv, ih, taken_cons_of_none hv,
        attempt_cons_of_none hv]
    | some f => rw [List.cons_append, taken_cons_of_step? hv, ih, taken_cons_of_step? hv,
        attempt_cons_of_step? hv, List.cons_append]

/-- What every step that is taken makes of what holds before it holds after any steps. -/
theorem attempt_preserves {P : Executor τ → Log τ → Prop}
    (hstep : ∀ e log v f, P e log → Step e v f → P f (log ++ [(e, v)])) {log : Log τ}
    (he : P e log) (vs : List (Event τ)) : P (e.attempt vs) (log ++ e.taken vs) := by
  induction vs generalizing e log with
  | nil => rwa [taken, List.append_nil]
  | cons v vs ih =>
    cases hv : e.step? v with
    | none =>
      rw [attempt_cons_of_none hv, taken_cons_of_none hv]
      exact ih he
    | some f =>
      have hrest := ih (hstep e log v f he (step_of_step? hv))
      rw [attempt_cons_of_step? hv, taken_cons_of_step? hv]
      rwa [List.append_assoc] at hrest

end Executor
end TickingTable
