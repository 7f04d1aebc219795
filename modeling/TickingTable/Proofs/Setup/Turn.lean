import Mathlib.Data.List.Count
import TickingTable.Proofs.Executor.Deadlock
import TickingTable.Proofs.Setup.Call

/-! The turn of a setup: the worker of the executor comes to it after so many steps, whatever others
submit and whoever shuts the executor down. -/

namespace TickingTable
namespace Setup

variable {τ : Type} {e f : Executor (Job τ)} {v : Executor.Event τ} {pending : Bool}

/-- The steps of the worker until it begins the setup, which is two for each task before it, and one
more if a task runs. -/
def toStart (e : Executor (Job τ)) : Nat :=
  if runsSetup e then 0
  else 2 * e.queue.findIdx Job.isSetup + (if e.isRunning then 1 else 0) + 1

theorem toStart_of_runs (h : runsSetup e = true) : toStart e = 0 := if_pos h

theorem toStart_of_waits (h : runsSetup e = false) :
    toStart e = 2 * e.queue.findIdx Job.isSetup + (if e.isRunning then 1 else 0) + 1 :=
  if_neg (Bool.eq_false_iff.1 h)

/-- A setup that has yet to make its requests is in the queue once, unless it runs, and any other is
not. -/
def Queued (e : Executor (Job τ)) (pending : Bool) : Prop :=
  e.queue.countP Job.isSetup = if pending && !runsSetup e then 1 else 0

/-- A step that leaves the phase as it is, and adds at most a task of others to the queue. -/
theorem queued_of_append (h : Queued e pending) (hphase : f.phase = e.phase) (more : List τ)
    (hqueue : f.queue = e.queue ++ more.map .other) :
    Queued f pending ∧ (pending = true → toStart f = toStart e) := by
  have hruns : runsSetup f = runsSetup e := by rw [runsSetup, hphase, runsSetup]
  have hrunning : f.isRunning = e.isRunning := by
    rw [Executor.isRunning, hphase, Executor.isRunning]
  have hmore : (more.map Job.other).countP Job.isSetup = 0 := by simp
  refine ⟨?_, fun hpending => ?_⟩
  · rw [Queued, hqueue, List.countP_append, hmore, hruns]
    exact h
  · cases hstarted : runsSetup e with
    | true => rw [toStart_of_runs hstarted, toStart_of_runs (hruns.trans hstarted)]
    | false =>
      have hsome : e.queue.findIdx Job.isSetup < e.queue.length := by
        rw [List.findIdx_lt_length, ← List.countP_pos_iff, h, hpending, hstarted]
        decide
      rw [toStart_of_waits hstarted, toStart_of_waits (hruns.trans hstarted), hrunning, hqueue,
        List.findIdx_append, if_pos hsome]

theorem queued_start {task : Job τ} {queue : List (Job τ)} (h : Queued e pending)
    (hphase : e.phase = .idle) (hqueue : e.queue = task :: queue) :
    let f := { e with queue, phase := .running task }
    Queued f pending ∧ (pending = true → toStart f + 1 = toStart e) ∧
      (pending = false → runsSetup f = false) := by
  intro f
  have hidle : runsSetup e = false := by simp [runsSetup, hphase]
  rw [Queued, hqueue, hidle] at h
  cases task with
  | setup =>
    cases pending with
    | false => simp [Job.isSetup] at h
    | true =>
      rw [List.countP_cons_of_pos Job.isSetup_setup] at h
      refine ⟨Nat.succ.inj h, fun _ => ?_, by simp⟩
      rw [toStart_of_runs rfl, toStart_of_waits hidle, hqueue, List.findIdx_cons]
      simp [Executor.isRunning, hphase]
  | other task =>
    refine ⟨?_, fun _ => ?_, fun _ => rfl⟩
    · rwa [List.countP_cons_of_neg (by simp)] at h
    · rw [toStart_of_waits rfl, toStart_of_waits hidle, hqueue, List.findIdx_cons]
      simp only [f, Executor.isRunning, hphase, Job.isSetup_other, cond_false, if_true,
        Bool.false_eq_true, if_false]
      omega

theorem queued_finish {task : Job τ} (h : Queued e pending) (hphase : e.phase = .running task)
    (hother : pending = true → runsSetup e = false) :
    let f := { e with phase := .idle }
    Queued f pending ∧ (pending = true → toStart f + 1 = toStart e) := by
  intro f
  cases pending with
  | false => exact ⟨h, nofun⟩
  | true =>
    have hruns := hother rfl
    rw [Queued, hruns] at h
    refine ⟨h, fun _ => ?_⟩
    rw [toStart_of_waits rfl, toStart_of_waits hruns]
    simp [f, Executor.isRunning, hphase]

/-- Whatever others do with the executor, a setup that waits keeps its turn and comes nearer to it
with each step of the worker. -/
theorem Queued.step (h : Queued e pending) (hs : Executor.Step e (v.map .other) f)
    (hother : pending = true → ∀ panicked, v = .finish panicked → runsSetup e = false) :
    Queued f pending ∧ (pending = true → toStart f + (if v.isWork then 1 else 0) = toStart e) := by
  cases v with
  | submit task =>
    cases hs with
    | submit _ _ => exact queued_of_append h rfl [task] rfl
  | start =>
    cases hs with
    | start task queue hphase hqueue =>
      obtain ⟨hnext, hnearer, _⟩ := queued_start h hphase hqueue
      exact ⟨hnext, hnearer⟩
  | finish panicked =>
    cases hs with
    | finish task _ hphase _ =>
      exact queued_finish h hphase fun hpending => hother hpending panicked rfl
  | exit =>
    cases hs with
    | exit hphase hqueue _ =>
      rw [Queued, hqueue] at h
      cases pending with
      | false => exact ⟨hqueue ▸ rfl, nofun⟩
      | true => simp [runsSetup, hphase] at h
  | close c =>
    cases hs with
    | close _ handle _ _ => exact queued_of_append h rfl [] (by simp)
  | lock c =>
    cases hs with
    | lock _ handle _ => exact queued_of_append h rfl [] (by simp)
  | join c =>
    cases hs with
    | join _ handle _ => exact queued_of_append h rfl [] (by simp)

/-- The worker goes on with the setup until that is over. -/
theorem runsSetup_of_step (hs : Executor.Step e (v.map .other) f) (hruns : runsSetup e = true)
    (hv : ∀ panicked, v ≠ .finish panicked) : runsSetup f = true := by
  cases v with
  | start =>
    cases hs with
    | start _ _ hphase _ => simp [runsSetup, hphase] at hruns
  | finish panicked => exact absurd rfl (hv panicked)
  | exit =>
    cases hs with
    | exit hphase _ _ => simp [runsSetup, hphase] at hruns
  | _ =>
    cases hs
    exact hruns

/-- The worker comes to a setup only if one was submitted. -/
theorem runsSetup_eq_false_of_step (hs : Executor.Step e (v.map .other) f) (h : Queued e false)
    (hruns : runsSetup e = false) : runsSetup f = false := by
  cases v with
  | start =>
    cases hs with
    | start task queue hphase hqueue => exact (queued_start h hphase hqueue).2.2 rfl
  | finish panicked =>
    cases hs
    rfl
  | exit =>
    cases hs
    rfl
  | _ =>
    cases hs
    exact hruns

theorem queued_attempt (h : Queued e false) (hruns : runsSetup e = false)
    (vs : List (Executor.Event τ)) :
    Queued (e.attempt (vs.map (.map .other))) false ∧
      runsSetup (e.attempt (vs.map (.map .other))) = false := by
  induction vs generalizing e with
  | nil => exact ⟨h, hruns⟩
  | cons v vs ih =>
    rw [List.map_cons]
    cases hv : e.step? (v.map .other) with
    | none =>
      rw [Executor.attempt_cons_of_none hv]
      exact ih h hruns
    | some f =>
      rw [Executor.attempt_cons_of_step? hv]
      have hs := Executor.step_of_step? hv
      exact ih (h.step hs nofun).1 (runsSetup_eq_false_of_step hs h hruns)

/-- While a setup waits, the worker has a task to begin or one to end, unless that is inside a
shutdown. -/
theorem Queued.exists_step? (h : Queued e true) (hreached : e.Reached) (hruns : runsSetup e = false)
    (hfree : e.handle.hasCall .worker = false) :
    ∃ (v : Executor.Event τ) (f : Executor (Job τ)),
      v.isWork = true ∧ e.step? (v.map .other) = some f := by
  rw [Queued, hruns] at h
  cases hphase : e.phase with
  | idle =>
    cases hqueue : e.queue with
    | nil => simp [hqueue] at h
    | cons task queue =>
      refine ⟨.start, { e with queue, phase := .running task }, rfl, ?_⟩
      simp [Executor.Event.map, Executor.step?, Executor.start?, hphase, hqueue]
  | running task =>
    refine ⟨.finish false, { e with phase := .idle }, rfl, ?_⟩
    simp [Executor.Event.map, Executor.step?, Executor.finish?, Executor.isRunning, hphase, hfree]
  | exited =>
    have hqueue := (hreached.of_hasExited (by simp [Executor.hasExited, hphase])).1
    simp [hqueue] at h

end Setup
end TickingTable
