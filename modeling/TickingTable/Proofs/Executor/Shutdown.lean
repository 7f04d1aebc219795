import TickingTable.Proofs.Executor.Queue

/-! A shutdown waits for the worker, unless a task took the handle of the worker before. -/

namespace TickingTable
namespace Executor

variable {τ : Type} {e f : Executor τ} {v : Event τ} {log : Log τ} {c : Caller}

/-- A shutdown out of a running task has found the handle of the worker. -/
def TakenInside (log : Log τ) : Prop :=
  ∃ taken ∈ log, taken.2 = .lock .worker ∧ taken.1.handle.present = true

theorem TakenInside.append (h : TakenInside log) (more : Log τ) : TakenInside (log ++ more) := by
  obtain ⟨taken, hmem, htaken⟩ := h
  exact ⟨taken, List.mem_append_left _ hmem, htaken⟩

theorem Step.hasExited (h : Step e v f) (he : e.hasExited = true) : f.hasExited = true := by
  cases h with
  | start task queue hphase hqueue => simp [Executor.hasExited, hphase] at he
  | finish task panicked hphase hfree => simp [Executor.hasExited, hphase] at he
  | exit hphase hqueue hopen => rfl
  | _ => exact he

/-- While a shutdown goes on nothing can be submitted, and a handle that is gone was taken by one
that still waits, or by a task, or else the worker has exited. -/
structure Guarded (e : Executor τ) (log : Log τ) : Prop where
  closed : e.handle.calls = [] ∨ e.isOpen = false
  claimed : e.handle.Claimed (e.hasExited = true ∨ TakenInside log)

namespace Guarded

theorem create (name : String) : Guarded (create name : Executor τ) [] := ⟨Or.inl rfl, .create⟩

theorem isOpen_eq_false (h : Guarded e log) {call : Caller × JoinPhase}
    (hcall : call ∈ e.handle.calls) : e.isOpen = false :=
  h.closed.resolve_left (List.ne_nil_of_mem hcall)

theorem step (h : Guarded e log) (hs : Step e v f) : Guarded f (log ++ [(e, v)]) := by
  have hclaimed := h.claimed.mono (Or.imp hs.hasExited fun ht => ht.append [(e, v)])
  cases hs with
  | submit task _ => exact ⟨h.closed, hclaimed⟩
  | start task queue _ _ => exact ⟨h.closed, hclaimed⟩
  | finish task panicked _ _ => exact ⟨h.closed, hclaimed⟩
  | exit _ _ hopen => exact ⟨Or.inr hopen, hclaimed⟩
  | close c handle _ hhandle => exact ⟨Or.inr rfl, hclaimed.enter hhandle⟩
  | lock c handle hhandle =>
    refine ⟨Or.inr ?_, hclaimed.lock ?_ hhandle⟩
    · exact h.isOpen_eq_false (WorkerHandle.locks_of_lock? hhandle).1
    · rintro rfl hpresent
      exact Or.inr ⟨_, List.mem_append_right _ List.mem_cons_self, rfl, hpresent⟩
  | join c handle hhandle =>
    refine ⟨Or.inr ?_, hclaimed.join Or.inl hhandle⟩
    exact h.isOpen_eq_false (WorkerHandle.join?_eq_some.1 hhandle).1.1

theorem run (name : String) (vs : List (Event τ)) :
    Guarded ((Executor.create name).attempt vs) ((Executor.create name).taken vs) :=
  attempt_preserves (fun _ _ _ _ => step) (create name) vs

/-- A shutdown by another thread returns only once the worker has exited, or a task has taken the
handle. -/
theorem of_returns (h : Guarded e log) (hs : Step e v f) (hc : c ≠ .worker)
    (hcall : e.handle.hasCall c = true) (hreturn : f.handle.hasCall c = false) :
    f.hasExited = true ∨ TakenInside log := by
  cases hs with
  | close d handle _ hhandle =>
    rw [(WorkerHandle.hasCall_enter? hhandle).2 (Or.inr hcall)] at hreturn
    cases hreturn
  | lock d handle hhandle => exact h.claimed.of_returns hc hhandle hcall hreturn
  | join d handle hhandle => exact Or.inl (WorkerHandle.join?_eq_some.1 hhandle).1.2
  | _ =>
    rw [hcall] at hreturn
    cases hreturn

end Guarded

/-- All tasks that were accepted have ended, and none begins any more, whatever steps follow. -/
def Drained (e : Executor τ) (log : Log τ) : Prop :=
  ended log = accepted log ∧ ∀ later, begun (e.taken later) = []

/-- Nothing begins once nothing waits and nothing can be submitted. -/
theorem begun_taken_of_queue_eq_nil (hqueue : e.queue = []) (hopen : e.isOpen = false)
    (later : List (Event τ)) : begun (e.taken later) = [] := by
  have hstart : (e.queue = [] ∧ e.isOpen = false) ∧ begun ([] : Log τ) = [] :=
    ⟨⟨hqueue, hopen⟩, rfl⟩
  have hrun := attempt_preserves
    (P := fun e log => (e.queue = [] ∧ e.isOpen = false) ∧ begun log = []) ?_ hstart later
  · exact hrun.2
  · rintro e log v f ⟨⟨hqueue, hopen⟩, hlog⟩ hs
    rw [begun_append, hlog]
    cases hs with
    | submit task hsubmit =>
      rw [hopen] at hsubmit
      cases hsubmit
    | start task queue _ hstart =>
      rw [hqueue] at hstart
      cases hstart
    | _ => simp [begun, hqueue, hopen]

theorem Accounts.drained_iff (h : Accounts e log) (hopen : e.isOpen = false) :
    Drained e log ↔ e.queue = [] ∧ e.running? = none := by
  have hleft : ended log = Executor.accepted log ↔ e.running? = none ∧ e.queue = [] := by
    rw [h.accepted, h.begun, List.append_assoc]
    simp
  rw [Drained, hleft]
  constructor
  · rintro ⟨⟨hrunning, hqueue⟩, _⟩
    exact ⟨hqueue, hrunning⟩
  · rintro ⟨hqueue, hrunning⟩
    exact ⟨⟨hrunning, hqueue⟩, begun_taken_of_queue_eq_nil hqueue hopen⟩

/-- When a shutdown by a thread other than the worker returns, either the worker has exited, all
accepted tasks have ended and none begins any more, or a task that shut the executor down had taken
the handle before. Then the shutdown has not waited, and tasks may still run or wait. -/
theorem shutdown_drains (name : String) (vs : List (Event τ)) (v : Event τ) (f : Executor τ)
    (c : Caller) (hc : c ≠ .worker) (hv : ((create name).attempt vs).step? v = some f)
    (hcall : ((create name).attempt vs).handle.hasCall c = true)
    (hreturn : f.handle.hasCall c = false) :
    let log := (create name).taken (vs ++ [v])
    f.isOpen = false ∧ (Drained f log ↔ f.queue = [] ∧ f.running? = none) ∧
      (f.hasExited = true ∧ Drained f log ∨ TakenInside ((create name).taken vs)) := by
  intro log
  have hf : f = (create name).attempt (vs ++ [v]) := by
    rw [attempt_append, attempt_cons_of_step? hv, attempt_nil]
  have haccounts : Accounts f log := hf ▸ .run name (vs ++ [v])
  have hguarded := Guarded.run name vs
  have hstep := step_of_step? hv
  obtain ⟨phase, hmem⟩ := WorkerHandle.hasCall_iff.1 hcall
  have hopen : f.isOpen = false := by
    obtain ⟨d, closer, hclose⟩ := (Accounts.run name vs).closed.1 (hguarded.isOpen_eq_false hmem)
    refine haccounts.closed.2 ⟨d, closer, ?_⟩
    have hlog : log = (create name).taken vs ++ ((create name).attempt vs).taken [v] :=
      taken_append _ vs [v]
    exact hlog ▸ List.mem_append_left _ hclose
  have hdrained := haccounts.drained_iff hopen
  refine ⟨hopen, hdrained, (hguarded.of_returns hstep hc hcall hreturn).imp_left ?_⟩
  intro hexit
  exact ⟨hexit, hdrained.2 ⟨(haccounts.exited hexit).1, running?_of_hasExited hexit⟩⟩

/-- One task runs when another thread shuts the executor down, and that shutdown waits for it. -/
def shutDownOnce : List (Event Nat) :=
  [.submit 0, .start, .submit 1, .close (.other 0), .lock (.other 0), .finish true, .start,
    .finish false, .exit]

theorem shutdown_drains_once :
    ∃ f, ((create "queue").attempt shutDownOnce).step? (.join (.other 0)) = some f ∧
      ((create "queue").attempt shutDownOnce).handle.hasCall (.other 0) = true ∧
      f.handle.hasCall (.other 0) = false ∧ f.hasExited = true ∧
      Drained f ((create "queue").taken (shutDownOnce ++ [.join (.other 0)])) := by
  have h := shutdown_drains "queue" shutDownOnce (.join (.other 0))
    ⟨"queue", false, [], .exited, ⟨false, []⟩⟩ (.other 0) nofun (by decide) (by decide) (by decide)
  have hinside : ¬ TakenInside ((create "queue").taken shutDownOnce) := by
    unfold TakenInside
    decide
  obtain ⟨hexit, hdrained⟩ := h.2.2.resolve_right hinside
  exact ⟨_, by decide, by decide, by decide, hexit, hdrained⟩

/-- The running task shuts the executor down while a task waits behind it, then another thread shuts
it down as well. -/
def shutDownInside : List (Event Nat) :=
  [.submit 0, .submit 1, .start, .close .worker, .lock .worker, .close (.other 0)]

/-- The shutdown by the other thread returns while one task runs and another has yet to begin. -/
theorem shutdown_before_end :
    ∃ f, ((create "queue").attempt shutDownInside).step? (.lock (.other 0)) = some f ∧
      ((create "queue").attempt shutDownInside).handle.hasCall (.other 0) = true ∧
      f.handle.hasCall (.other 0) = false ∧ f.running? = some 0 ∧
      accepted ((create "queue").taken (shutDownInside ++ [.lock (.other 0)])) = [0, 1] ∧
      ended ((create "queue").taken (shutDownInside ++ [.lock (.other 0)])) = [] ∧
      begun (f.taken [.finish false, .start]) = [1] := by
  exact ⟨⟨"queue", false, [1], .running 0, ⟨false, []⟩⟩, by decide⟩

end Executor
end TickingTable
