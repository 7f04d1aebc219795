import TickingTable.Proofs.Executor.Steps

/-! Tasks run one at a time and in the order in which they were accepted, whichever of them panic. -/

namespace TickingTable
namespace Executor

variable {τ : Type} {e f : Executor τ} {v : Event τ} {log : Log τ} {task : τ}

/-- The tasks that were accepted, in their order. -/
def accepted (log : Log τ) : List τ :=
  log.filterMap fun
    | (_, .submit task) => some task
    | _ => none

/-- The tasks that were begun, in their order. -/
def begun (log : Log τ) : List τ :=
  log.filterMap fun
    | (e, .start) => e.queue.head?
    | _ => none

/-- The tasks that returned or panicked, in their order. -/
def ended (log : Log τ) : List τ :=
  log.filterMap fun
    | (e, .finish _) => e.running?
    | _ => none

theorem accepted_append (log more : Log τ) :
    accepted (log ++ more) = accepted log ++ accepted more := List.filterMap_append

theorem begun_append (log more : Log τ) : begun (log ++ more) = begun log ++ begun more :=
  List.filterMap_append

theorem ended_append (log more : Log τ) : ended (log ++ more) = ended log ++ ended more :=
  List.filterMap_append

theorem running?_of_hasExited (hexit : e.hasExited = true) : e.running? = none := by
  unfold hasExited at hexit
  unfold running?
  split at hexit
  · next hphase => rw [hphase]
  · cases hexit

/-- What the log of all steps says of the state that they lead to. -/
structure Accounts (e : Executor τ) (log : Log τ) : Prop where
  accepted : accepted log = begun log ++ e.queue
  begun : begun log = ended log ++ e.running?.toList
  closed : e.isOpen = false ↔ ∃ d c, (d, .close c) ∈ log
  exited : e.hasExited = true → e.queue = [] ∧ e.isOpen = false

namespace Accounts

theorem create (name : String) : Accounts (create name : Executor τ) [] :=
  ⟨rfl, rfl, by simp [Executor.create], nofun⟩

theorem step (h : Accounts e log) (hs : Step e v f) : Accounts f (log ++ [(e, v)]) := by
  obtain ⟨haccepted, hbegun, hclosed, hexited⟩ := h
  constructor
  · rw [accepted_append, begun_append, haccepted]
    cases hs with
    | start task queue hphase hqueue => simp [Executor.accepted, Executor.begun, hqueue]
    | _ => simp [Executor.accepted, Executor.begun]
  · rw [begun_append, ended_append, hbegun]
    cases hs with
    | start task queue hphase hqueue =>
      simp [Executor.ended, Executor.begun, running?, hphase, hqueue]
    | finish task panicked hphase hfree => simp [Executor.ended, Executor.begun, running?, hphase]
    | exit hphase hqueue hopen => simp [Executor.ended, Executor.begun, running?, hphase]
    | _ => simp [Executor.ended, Executor.begun, running?]
  · cases hs with
    | close c handle hcall hhandle =>
      exact iff_of_true rfl ⟨e, c, List.mem_append_right _ List.mem_cons_self⟩
    | _ => simpa using hclosed
  · cases hs with
    | submit task hopen =>
      intro hexit
      exact absurd (hexited hexit).2 (by simp [hopen])
    | start task queue hphase hqueue => exact nofun
    | finish task panicked hphase hfree => exact nofun
    | exit hphase hqueue hopen => exact fun _ => ⟨hqueue, hopen⟩
    | close c handle hcall hhandle => exact fun hexit => ⟨(hexited hexit).1, rfl⟩
    | lock c handle hhandle => exact hexited
    | join c handle hhandle => exact hexited

theorem run (name : String) (vs : List (Event τ)) :
    Accounts ((Executor.create name).attempt vs) ((Executor.create name).taken vs) :=
  attempt_preserves (fun _ _ _ _ => step) (create name) vs

/-- A worker that has exited has ended every task that was accepted. -/
theorem ended_of_hasExited (h : Accounts e log) (hexit : e.hasExited = true) :
    ended log = Executor.accepted log := by
  rw [h.accepted, h.begun, (h.exited hexit).1, running?_of_hasExited hexit]
  simp

end Accounts

/-- The steps in which the worker ends what runs and all that waits, where `panics` says which of
the tasks panic. -/
def workLeft (panics : τ → Bool) (e : Executor τ) : List (Event τ) :=
  (e.running?.toList.map fun task => .finish (panics task)) ++
    e.queue.flatMap fun task => [.start, .finish (panics task)]

/-- No task keeps the worker from those that wait behind it, unless it waits in a call. -/
theorem ended_taken_waiting (panics : τ → Bool) (hphase : e.phase = .idle)
    (hfree : e.handle.hasCall .worker = false) :
    ended (e.taken (e.queue.flatMap fun task => [.start, .finish (panics task)])) = e.queue := by
  generalize hqueue : e.queue = tasks
  induction tasks generalizing e with
  | nil => rfl
  | cons task tasks ih =>
    have hstart : e.step? .start = some { e with queue := tasks, phase := .running task } := by
      simp [step?, start?, hphase, hqueue]
    have hfinish : { e with queue := tasks, phase := .running task }.step? (.finish (panics task)) =
        some { e with queue := tasks, phase := .idle } := by
      simp [step?, finish?, isRunning, hfree]
    rw [List.flatMap_cons, List.cons_append, taken_cons_of_step? hstart, List.cons_append,
      taken_cons_of_step? hfinish]
    have hrest := ih (e := { e with queue := tasks, phase := .idle }) rfl hfree rfl
    simpa [ended, running?, hphase] using hrest

theorem ended_taken_workLeft (panics : τ → Bool) (h : Accounts e log)
    (hfree : e.handle.hasCall .worker = false) :
    ended log ++ ended (e.taken (e.workLeft panics)) = accepted log := by
  rw [h.accepted, h.begun, List.append_assoc, List.append_cancel_left_eq]
  cases hphase : e.phase with
  | idle =>
    have hrunning : e.running? = none := by simp [running?, hphase]
    rw [workLeft, hrunning]
    exact ended_taken_waiting panics hphase hfree
  | running task =>
    have hrunning : e.running? = some task := by simp [running?, hphase]
    have hfinish : e.step? (.finish (panics task)) = some { e with phase := .idle } := by
      simp [step?, finish?, isRunning, hphase, hfree]
    have hrest := ended_taken_waiting (e := { e with phase := .idle }) panics rfl hfree
    rw [workLeft, hrunning, Option.toList_some, List.map_singleton, List.singleton_append,
      taken_cons_of_step? hfinish]
    simpa [ended, hrunning] using hrest
  | exited =>
    have hqueue := (h.exited (by simp [hasExited, hphase])).1
    simp [workLeft, running?, hphase, hqueue, taken, ended]

/-- Whatever threads and running tasks submit and whoever shuts down: each accepted task is begun
once and in its turn, and only when the one before it has ended. The worker exits when all have
ended, tasks are refused exactly from the first shutdown on, and no task that panics stands in the
way of those behind it. -/
theorem tasks_run_in_order (name : String) (vs : List (Event τ)) :
    let e := (create name).attempt vs
    let log := (create name).taken vs
    accepted log = begun log ++ e.queue ∧ begun log = ended log ++ e.running?.toList ∧
      (e.hasExited = true → ended log = accepted log) ∧
      (∀ task, e.submit task = .error .shutdown ↔ ∃ d c, (d, .close c) ∈ log) ∧
      ∀ panics, e.handle.hasCall .worker = false →
        ended ((create name).taken (vs ++ e.workLeft panics)) = accepted log := by
  intro e log
  have h : Accounts e log := .run name vs
  refine ⟨h.accepted, h.begun, h.ended_of_hasExited, ?_, ?_⟩
  · intro task
    rw [submit_eq_error, h.closed]
  · intro panics hfree
    rw [taken_append, ended_append]
    exact ended_taken_workLeft panics h hfree

end Executor
end TickingTable
