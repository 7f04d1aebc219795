import TickingTable.Proofs.Executor.Shutdown

/-! A task that shuts its own executor down wants the lock on the handle of the worker. It gets the
lock, unless another thread has it and waits for the worker to exit: then both wait forever. -/

namespace TickingTable
namespace Executor

variable {τ : Type} {e f : Executor τ} {v : Event τ} {log : Log τ}

/-- The worker comes to be inside a shutdown only if the task that runs calls one. -/
theorem Step.hasCall_worker (h : Step e v f) (hv : v ≠ .close .worker)
    (he : e.handle.hasCall .worker = false) : f.handle.hasCall .worker = false := by
  cases h with
  | close c handle _ hhandle =>
    rw [Bool.eq_false_iff]
    intro hcall
    rcases (WorkerHandle.hasCall_enter? hhandle).1 hcall with rfl | hbefore
    · exact hv rfl
    · rw [hbefore] at he
      cases he
  | lock c handle hhandle =>
    exact Bool.eq_false_iff.2 fun hcall =>
      Bool.eq_false_iff.1 he (WorkerHandle.hasCall_of_lock? hhandle hcall)
  | join c handle hhandle =>
    exact Bool.eq_false_iff.2 fun hcall =>
      Bool.eq_false_iff.1 he (WorkerHandle.hasCall_of_join? hhandle hcall)
  | _ => exact he

theorem not_hasExited (hrunning : e.isRunning = true) : ¬ e.hasExited = true := by
  intro hexit
  unfold hasExited at hexit
  split at hexit
  · next hphase => simp [isRunning, hphase] at hrunning
  · cases hexit

/-- The worker wants the lock, and a thread that has it waits for the worker to exit. -/
def Deadlocked (e : Executor τ) : Prop :=
  (.worker, .locking) ∈ e.handle.calls ∧ ∃ c, (c, .joining) ∈ e.handle.calls

/-- A shutdown by a thread other than the worker has found the handle of the worker. -/
def TakenOutside (log : Log τ) : Prop :=
  ∃ taken ∈ log, taken.1.handle.present = true ∧ ∃ c, c ≠ .worker ∧ taken.2 = .lock c

theorem takenOutside_snoc : TakenOutside (log ++ [(e, v)]) ↔
    TakenOutside log ∨ e.handle.present = true ∧ ∃ c, c ≠ .worker ∧ v = .lock c := by
  simp [TakenOutside, or_and_right, exists_or]

/-- The worker calls out of a task that runs, and never waits for itself. Whoever has the lock has
taken the handle with it, and keeps the lock until the worker has exited. -/
structure Contended (e : Executor τ) (log : Log τ) : Prop where
  running : e.handle.hasCall .worker = true → e.isRunning = true
  apart : (.worker, .joining) ∉ e.handle.calls
  taken : e.handle.isLocked = true → TakenOutside log
  kept : TakenOutside log → e.handle.isLocked = true ∨ e.hasExited = true

namespace Contended

theorem create (name : String) : Contended (create name : Executor τ) [] :=
  ⟨nofun, nofun, nofun, by simp [TakenOutside]⟩

/-- A step that leaves the handle to whoever has it. -/
theorem of_handle_eq (h : Contended e log) (hs : Step e v f) (hhandle : f.handle = e.handle)
    (hv : ∀ c, v ≠ .lock c) (hrunning : e.handle.hasCall .worker = true → f.isRunning = true) :
    Contended f (log ++ [(e, v)]) := by
  have hsame : TakenOutside (log ++ [(e, v)]) ↔ TakenOutside log := by
    rw [takenOutside_snoc]
    refine or_iff_left ?_
    rintro ⟨_, c, _, hc⟩
    exact hv c hc
  refine ⟨hhandle ▸ hrunning, hhandle ▸ h.apart, hhandle ▸ fun hl => hsame.2 (h.taken hl), ?_⟩
  intro ht
  rw [hhandle]
  exact (h.kept (hsame.1 ht)).imp_right hs.hasExited

/-- A call that takes the lock keeps it just if it is the one that takes the handle. -/
theorem lock {c : Caller} {handle : WorkerHandle} (h : Contended e log)
    (hhandle : e.handle.lock? c = some handle) :
    Contended { e with handle } (log ++ [(e, .lock c)]) := by
  obtain ⟨_, hfree, hlocks⟩ := WorkerHandle.locks_of_lock? hhandle
  have hrunning (hcall : handle.hasCall .worker = true) : e.isRunning = true :=
    h.running (WorkerHandle.hasCall_of_lock? hhandle hcall)
  cases hlocks with
  | waits hpresent hc =>
    refine ⟨hrunning, ?_, ?_, ?_⟩
    · intro hmem
      rcases List.mem_cons.1 hmem with heq | hmem
      · exact hc (congrArg Prod.fst heq).symm
      · exact h.apart (List.mem_of_mem_erase hmem)
    · exact fun _ => takenOutside_snoc.2 (Or.inr ⟨hpresent, c, hc, rfl⟩)
    · exact fun _ => Or.inl (WorkerHandle.isLocked_iff.2 ⟨c, List.mem_cons_self⟩)
  | returns hgone =>
    have hnotLocked : ¬ e.handle.isLocked = true := by simp [hfree]
    refine ⟨hrunning, fun hmem => h.apart (List.mem_of_mem_erase hmem), ?_, ?_⟩
    · exact fun hl => absurd (WorkerHandle.isLocked_of_erase hl) hnotLocked
    · intro ht
      rcases takenOutside_snoc.1 ht with ht | ⟨hpresent, d, hd, heq⟩
      · exact Or.inr ((h.kept ht).resolve_left hnotLocked)
      · cases heq
        exact absurd (hgone.resolve_right hd) (by simp [hpresent])

/-- Whoever begins to shut the executor down wants the lock, and has not got it yet. -/
theorem close {c : Caller} {handle : WorkerHandle} (h : Contended e log) (hcan : e.canCall c = true)
    (hhandle : e.handle.enter? c = some handle) :
    Contended { e with isOpen := false, handle } (log ++ [(e, .close c)]) := by
  obtain ⟨_, rfl⟩ := WorkerHandle.enter?_eq_some.1 hhandle
  have hsame : TakenOutside (log ++ [(e, .close c)]) ↔ TakenOutside log := by
    rw [takenOutside_snoc]
    exact or_iff_left (by simp)
  have hlocked : (⟨e.handle.present, (c, .locking) :: e.handle.calls⟩ : WorkerHandle).isLocked =
      e.handle.isLocked := by simp [WorkerHandle.isLocked]
  have hinside : c = .worker → e.isRunning = true := by
    rintro rfl
    simpa [canCall] using hcan
  refine ⟨?_, ?_, ?_, ?_⟩
  · intro hcall
    exact ((WorkerHandle.hasCall_enter? hhandle).1 hcall).elim hinside h.running
  · intro hmem
    rcases List.mem_cons.1 hmem with heq | hmem
    · cases heq
    · exact h.apart hmem
  · exact fun hl => hsame.2 (h.taken (hlocked ▸ hl))
  · exact fun ht => (h.kept (hsame.1 ht)).imp_left fun hl => hlocked ▸ hl

theorem step (h : Contended e log) (hs : Step e v f) : Contended f (log ++ [(e, v)]) := by
  cases hs with
  | submit task hopen =>
    exact h.of_handle_eq (.submit task hopen) rfl (by simp) h.running
  | start task queue hphase hqueue =>
    exact h.of_handle_eq (.start task queue hphase hqueue) rfl (by simp) fun _ => rfl
  | finish task panicked hphase hfree =>
    refine h.of_handle_eq (.finish task panicked hphase hfree) rfl (by simp) fun hcall => ?_
    rw [hfree] at hcall
    cases hcall
  | exit hphase hqueue hopen =>
    refine h.of_handle_eq (.exit hphase hqueue hopen) rfl (by simp) fun hcall => ?_
    have hrunning := h.running hcall
    simp [isRunning, hphase] at hrunning
  | close c handle hcan hhandle => exact h.close hcan hhandle
  | lock c handle hhandle => exact h.lock hhandle
  | join c handle hhandle =>
    obtain ⟨⟨_, hexited⟩, rfl⟩ := WorkerHandle.join?_eq_some.1 hhandle
    refine ⟨?_, fun hmem => h.apart (List.mem_of_mem_erase hmem), ?_, fun _ => Or.inr hexited⟩
    · exact fun hcall => h.running (WorkerHandle.hasCall_of_join? hhandle hcall)
    · exact fun hl => takenOutside_snoc.2 (Or.inl (h.taken (WorkerHandle.isLocked_of_erase hl)))

theorem run (name : String) (vs : List (Event τ)) :
    Contended ((Executor.create name).attempt vs) ((Executor.create name).taken vs) :=
  attempt_preserves (fun _ _ _ _ => step) (create name) vs

/-- While the worker is inside a shutdown it has not exited, and so whoever took the handle has the
lock. -/
theorem deadlocked_iff (h : Contended e log) :
    Deadlocked e ↔ e.handle.hasCall .worker = true ∧ TakenOutside log := by
  constructor
  · rintro ⟨hworker, hjoining⟩
    exact ⟨WorkerHandle.hasCall_iff.2 ⟨_, hworker⟩, h.taken (WorkerHandle.isLocked_iff.2 hjoining)⟩
  · rintro ⟨hcall, ht⟩
    have hlocked := (h.kept ht).resolve_right (not_hasExited (h.running hcall))
    obtain ⟨phase, hworker⟩ := WorkerHandle.hasCall_iff.1 hcall
    refine ⟨?_, WorkerHandle.isLocked_iff.1 hlocked⟩
    cases phase with
    | locking => exact hworker
    | joining => exact absurd hworker h.apart

end Contended

/-- Some steps have led to the executor. -/
def Reached (e : Executor τ) : Prop := ∃ log, Accounts e log ∧ Guarded e log ∧ Contended e log

namespace Reached

theorem run (name : String) (vs : List (Event τ)) : ((create name).attempt vs).Reached :=
  ⟨_, .run name vs, .run name vs, .run name vs⟩

theorem step (h : e.Reached) (hs : Step e v f) : f.Reached := by
  obtain ⟨log, haccounts, hguarded, hcontended⟩ := h
  exact ⟨_, haccounts.step hs, hguarded.step hs, hcontended.step hs⟩

theorem of_hasExited (h : e.Reached) (hexit : e.hasExited = true) :
    e.queue = [] ∧ e.isOpen = false := by
  obtain ⟨log, haccounts, _, _⟩ := h
  exact haccounts.exited hexit

/-- Nobody is inside a shutdown of an executor that is open. -/
theorem hasCall_of_isOpen (h : e.Reached) (hopen : e.isOpen = true) (c : Caller) :
    e.handle.hasCall c = false := by
  obtain ⟨log, _, hguarded, _⟩ := h
  rw [Bool.eq_false_iff]
  intro hcall
  obtain ⟨phase, hmem⟩ := WorkerHandle.hasCall_iff.1 hcall
  rw [hguarded.isOpen_eq_false hmem] at hopen
  cases hopen

/-- Inside a shutdown the worker runs a task and waits for the lock. -/
theorem of_hasCall (h : e.Reached) (hcall : e.handle.hasCall .worker = true) :
    e.isRunning = true ∧ e.isOpen = false ∧ (.worker, .locking) ∈ e.handle.calls := by
  obtain ⟨log, _, hguarded, hcontended⟩ := h
  obtain ⟨phase, hmem⟩ := WorkerHandle.hasCall_iff.1 hcall
  refine ⟨hcontended.running hcall, hguarded.isOpen_eq_false hmem, ?_⟩
  cases phase with
  | locking => exact hmem
  | joining => exact absurd hmem hcontended.apart

/-- A task that shuts its executor down goes on unless that is a deadlock. -/
theorem lock_worker (h : e.Reached) (hcall : e.handle.hasCall .worker = true)
    (hnot : ¬ Deadlocked e) :
    ∃ f, e.step? (.lock .worker) = some f ∧ f.handle.hasCall .worker = false := by
  obtain ⟨_, _, hlocking⟩ := h.of_hasCall hcall
  have hfree : e.handle.isLocked = false := by
    rw [Bool.eq_false_iff]
    exact fun hlocked => hnot ⟨hlocking, WorkerHandle.isLocked_iff.1 hlocked⟩
  obtain ⟨log, _, hguarded, _⟩ := h
  refine ⟨{ e with handle := ⟨false, e.handle.calls.erase (.worker, .locking)⟩ }, ?_, ?_⟩
  · simp [step?, lock?, WorkerHandle.lock?, hlocking, hfree]
  · rw [Bool.eq_false_iff]
    intro hagain
    obtain ⟨phase, hagain⟩ := WorkerHandle.hasCall_iff.1 hagain
    exact ((hguarded.claimed.distinct.mem_erase hlocking).1 hagain).1 rfl

end Reached

/-- After a deadlock the worker has not moved, no call has returned, and nothing has been done but
that further threads have begun to shut the executor down. -/
structure Stuck (e f : Executor τ) (log : Log τ) : Prop where
  deadlocked : Deadlocked f
  phase : f.phase = e.phase
  calls : e.handle.calls ⊆ f.handle.calls
  closes : ∀ taken ∈ log, ∃ c, taken.2 = .close c

/-- The worker neither ends its task nor exits, and the lock stays with the thread that has it. -/
theorem Deadlocked.exists_close (h : Deadlocked e) (hreached : e.Reached) (hs : Step e v f) :
    ∃ c, v = .close c ∧
      f = { e with handle := ⟨e.handle.present, (c, .locking) :: e.handle.calls⟩ } := by
  have hcall : e.handle.hasCall .worker = true := WorkerHandle.hasCall_iff.2 ⟨_, h.1⟩
  obtain ⟨hrunning, hopen, _⟩ := hreached.of_hasCall hcall
  cases hs with
  | submit task hsubmit =>
    rw [hopen] at hsubmit
    cases hsubmit
  | start task queue hphase hqueue => simp [isRunning, hphase] at hrunning
  | finish task panicked hphase hfree =>
    rw [hcall] at hfree
    cases hfree
  | exit hphase hqueue hclosed => simp [isRunning, hphase] at hrunning
  | close c handle hcan hhandle =>
    obtain ⟨_, rfl⟩ := WorkerHandle.enter?_eq_some.1 hhandle
    exact ⟨c, rfl, by rw [← hopen]⟩
  | lock c handle hhandle =>
    have hfree := (WorkerHandle.locks_of_lock? hhandle).2.1
    rw [WorkerHandle.isLocked_iff.2 h.2] at hfree
    cases hfree
  | join c handle hhandle =>
    exact absurd (WorkerHandle.join?_eq_some.1 hhandle).1.2 (not_hasExited hrunning)

theorem Deadlocked.step (h : Deadlocked e) (hreached : e.Reached) (hs : Step e v f) :
    Deadlocked f := by
  obtain ⟨c, _, rfl⟩ := h.exists_close hreached hs
  obtain ⟨d, hd⟩ := h.2
  exact ⟨List.mem_cons_of_mem _ h.1, d, List.mem_cons_of_mem _ hd⟩

theorem Deadlocked.stuck (h : Deadlocked e) (hreached : e.Reached) (later : List (Event τ)) :
    Stuck e (e.attempt later) (e.taken later) := by
  have hstart : Stuck e e [] ∧ e.Reached := ⟨⟨h, rfl, List.Subset.refl _, nofun⟩, hreached⟩
  have hrun := attempt_preserves (P := fun f log => Stuck e f log ∧ f.Reached) ?_ hstart later
  · exact hrun.1
  · rintro f log v g ⟨hf, hreached⟩ hs
    refine ⟨?_, hreached.step hs⟩
    have hnext := hf.deadlocked.step hreached hs
    obtain ⟨c, rfl, rfl⟩ := hf.deadlocked.exists_close hreached hs
    refine ⟨hnext, hf.phase, List.subset_cons_of_subset _ hf.calls, ?_⟩
    intro taken htaken
    rcases List.mem_append.1 htaken with hbefore | hlast
    · exact hf.closes taken hbefore
    · obtain rfl := List.mem_singleton.1 hlast
      exact ⟨c, rfl⟩

/-- The worker is blocked on a lock that is with a thread that waits for it just if a task is inside
a shutdown of its own executor and another thread's shutdown has taken the handle, whichever of the
two came first. Then nothing gets on any more, whatever steps are tried. In every other state the
worker gets out of its shutdown by its own next step. -/
theorem deadlocks_on_overlap (name : String) (vs : List (Event τ)) :
    let e := (create name).attempt vs
    let log := (create name).taken vs
    (Deadlocked e ↔ e.handle.hasCall .worker = true ∧ TakenOutside log) ∧
      (Deadlocked e → ∀ later, Stuck e (e.attempt later) (e.taken later)) ∧
      (¬ Deadlocked e → e.handle.hasCall .worker = true →
        ∃ f, e.step? (.lock .worker) = some f ∧ f.handle.hasCall .worker = false) := by
  intro e log
  have h : Contended e log := .run name vs
  have hreached : e.Reached := .run name vs
  exact ⟨h.deadlocked_iff, fun hdead later => hdead.stuck hreached later,
    fun hnot hcall => hreached.lock_worker hcall hnot⟩

/-- A thread shuts the executor down and waits for the task that runs, which then shuts it down as
well. -/
def shutDownTwice : List (Event Nat) :=
  [.submit 0, .start, .close (.other 0), .lock (.other 0), .close .worker]

/-- Neither the task nor the two shutdowns can go on. -/
theorem shutdown_deadlocks :
    let e := (create "queue").attempt shutDownTwice
    Deadlocked e ∧ e.running? = some 0 ∧ e.step? (.lock .worker) = none ∧
      e.step? (.join (.other 0)) = none ∧ ∀ panicked, e.step? (.finish panicked) = none := by
  exact ⟨⟨by decide, .other 0, by decide⟩, by decide⟩

end Executor
end TickingTable
