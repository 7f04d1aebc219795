import Mathlib.Data.List.Nodup
import TickingTable.Joining

/-! What the calls that wait for a worker thread do to its handle. -/

namespace TickingTable
namespace WorkerHandle

variable {h h' : WorkerHandle} {c d : Caller} {phase : JoinPhase} {exited : Bool}

theorem hasCall_iff : h.hasCall c = true ↔ ∃ phase, (c, phase) ∈ h.calls := by
  simp only [hasCall, List.any_eq_true, decide_eq_true_eq, Prod.exists]
  constructor
  · rintro ⟨c', phase, hmem, rfl⟩
    exact ⟨phase, hmem⟩
  · rintro ⟨phase, hmem⟩
    exact ⟨c, phase, hmem, rfl⟩

theorem isLocked_iff : h.isLocked = true ↔ ∃ c, (c, .joining) ∈ h.calls := by
  simp only [isLocked, List.any_eq_true, decide_eq_true_eq, Prod.exists]
  constructor
  · rintro ⟨c, phase, hmem, rfl⟩
    exact ⟨c, hmem⟩
  · rintro ⟨c, hmem⟩
    exact ⟨c, .joining, hmem, rfl⟩

/-- The end of a call leaves the lock to nobody new. -/
theorem isLocked_of_erase {call : Caller × JoinPhase} {present : Bool}
    (hl : (⟨present, h.calls.erase call⟩ : WorkerHandle).isLocked = true) : h.isLocked = true := by
  obtain ⟨c, hc⟩ := isLocked_iff.1 hl
  exact isLocked_iff.2 ⟨c, List.mem_of_mem_erase hc⟩

theorem enter?_eq_some : h.enter? c = some h' ↔
    h.hasCall c = false ∧ h' = { h with calls := (c, .locking) :: h.calls } := by
  unfold enter?
  cases hc : h.hasCall c with
  | true => simp
  | false => simp [eq_comm]

/-- What becomes of a call that takes the lock. -/
inductive Locks (h : WorkerHandle) (c : Caller) : WorkerHandle → Prop
  | waits : h.present = true → c ≠ .worker →
    Locks h c ⟨false, (c, .joining) :: h.calls.erase (c, .locking)⟩
  | returns : h.present = false ∨ c = .worker → Locks h c ⟨false, h.calls.erase (c, .locking)⟩

theorem locks_of_lock? (hl : h.lock? c = some h') :
    (c, .locking) ∈ h.calls ∧ h.isLocked = false ∧ Locks h c h' := by
  unfold lock? at hl
  by_cases hfree : (c, .locking) ∈ h.calls ∧ h.isLocked = false
  · rw [if_pos hfree] at hl
    dsimp only at hl
    refine ⟨hfree.1, hfree.2, ?_⟩
    by_cases htake : h.present = true ∧ c ≠ .worker
    · rw [if_pos htake] at hl
      cases hl
      exact .waits htake.1 htake.2
    · rw [if_neg htake] at hl
      cases hl
      refine .returns ?_
      by_cases hw : c = .worker
      · exact Or.inr hw
      · exact Or.inl (Bool.eq_false_iff.2 fun hp => htake ⟨hp, hw⟩)
  · rw [if_neg hfree] at hl
    cases hl

theorem join?_eq_some : h.join? c exited = some h' ↔
    ((c, .joining) ∈ h.calls ∧ exited = true) ∧
      h' = { h with calls := h.calls.erase (c, .joining) } := by
  unfold join?
  by_cases hj : (c, .joining) ∈ h.calls ∧ exited = true
  · simp [hj, eq_comm]
  · simp [hj]

/-- Each thread makes one call at a time. -/
def Distinct (h : WorkerHandle) : Prop := (h.calls.map Prod.fst).Nodup

theorem Distinct.mem_erase {call : Caller × JoinPhase} (hd : h.Distinct)
    (hc : (c, phase) ∈ h.calls) :
    call ∈ h.calls.erase (c, phase) ↔ call.1 ≠ c ∧ call ∈ h.calls := by
  rw [List.Nodup.mem_erase_iff (List.Nodup.of_map _ hd)]
  constructor
  · rintro ⟨hne, hmem⟩
    refine ⟨?_, hmem⟩
    intro he
    exact hne (List.inj_on_of_nodup_map hd hmem hc he)
  · rintro ⟨hne, hmem⟩
    refine ⟨?_, hmem⟩
    rintro rfl
    exact hne rfl

theorem Distinct.erase (hd : h.Distinct) (call : Caller × JoinPhase) :
    ((h.calls.erase call).map Prod.fst).Nodup :=
  hd.sublist ((List.erase_sublist).map _)

/-- A handle that is gone was taken by a call that still has the lock, or else `p` holds. -/
structure Claimed (h : WorkerHandle) (p : Prop) : Prop where
  distinct : h.Distinct
  taken : h.present = false → h.isLocked = true ∨ p

namespace Claimed

variable {p q : Prop}

theorem create : Claimed .create p := ⟨List.nodup_nil, nofun⟩

theorem mono (ha : h.Claimed p) (hpq : p → q) : h.Claimed q :=
  ⟨ha.distinct, fun hp => (ha.taken hp).imp_right hpq⟩

theorem enter (ha : h.Claimed p) (he : h.enter? c = some h') : h'.Claimed p := by
  obtain ⟨hnew, rfl⟩ := enter?_eq_some.1 he
  refine ⟨?_, ?_⟩
  · refine List.nodup_cons.2 ⟨?_, ha.distinct⟩
    intro hmem
    obtain ⟨⟨c', phase⟩, hcall, rfl⟩ := List.mem_map.1 hmem
    rw [hasCall_iff.2 ⟨phase, hcall⟩] at hnew
    cases hnew
  · intro hp
    refine (ha.taken hp).imp_left ?_
    intro hlocked
    obtain ⟨d, hd⟩ := isLocked_iff.1 hlocked
    exact isLocked_iff.2 ⟨d, List.mem_cons_of_mem _ hd⟩

/-- A call by another thread that returns on taking the lock has found no handle. -/
theorem of_lock (ha : h.Claimed p) (hw : c = .worker → h.present = true → p)
    (hl : h.lock? c = some h') (hr : h'.hasCall c = false) : p := by
  obtain ⟨hmem, hfree, hlocks⟩ := locks_of_lock? hl
  cases hlocks with
  | waits _ _ =>
    rw [hasCall_iff.2 ⟨.joining, List.mem_cons_self⟩] at hr
    cases hr
  | returns hgone =>
    cases hpresent : h.present with
    | true => exact hw (hgone.resolve_left (by simp [hpresent])) hpresent
    | false =>
      refine (ha.taken hpresent).resolve_left ?_
      simp [hfree]

theorem lock (ha : h.Claimed p) (hw : c = .worker → h.present = true → p)
    (hl : h.lock? c = some h') : h'.Claimed p := by
  obtain ⟨hmem, _, hlocks⟩ := locks_of_lock? hl
  have hrest : ∀ call ∈ h.calls.erase (c, .locking), call.1 ≠ c := fun call hcall =>
    ((ha.distinct.mem_erase hmem).1 hcall).1
  cases hlocks with
  | waits _ _ =>
    refine ⟨?_, fun _ => Or.inl (isLocked_iff.2 ⟨c, List.mem_cons_self⟩)⟩
    refine List.nodup_cons.2 ⟨?_, ha.distinct.erase _⟩
    intro hagain
    obtain ⟨call, hcall, he⟩ := List.mem_map.1 hagain
    exact hrest call hcall he
  | returns _ =>
    refine ⟨ha.distinct.erase _, fun _ => Or.inr (ha.of_lock hw hl ?_)⟩
    rw [Bool.eq_false_iff]
    intro hcall
    obtain ⟨phase, hcall⟩ := hasCall_iff.1 hcall
    exact hrest _ hcall rfl

theorem join (ha : h.Claimed p) (hp : exited = true → p) (hj : h.join? c exited = some h') :
    h'.Claimed p := by
  obtain ⟨⟨_, hexited⟩, rfl⟩ := join?_eq_some.1 hj
  exact ⟨ha.distinct.erase _, fun _ => Or.inr (hp hexited)⟩

end Claimed

/-- Calls wait for the lock or, having it, for the worker: a handle that is gone was taken by a call
that still has the lock, unless the worker has exited. The worker itself makes no such call. -/
structure Awaits (h : WorkerHandle) (exited : Prop) : Prop where
  distinct : h.Distinct
  others : ∀ call ∈ h.calls, call.1 ≠ .worker
  taken : h.present = false → h.isLocked = true ∨ exited

namespace Awaits

variable {p q : Prop}

theorem of_claimed (hc : h.Claimed p) (ho : ∀ call ∈ h.calls, call.1 ≠ .worker) : h.Awaits p :=
  ⟨hc.distinct, ho, hc.taken⟩

theorem claimed (ha : h.Awaits p) : h.Claimed p := ⟨ha.distinct, ha.taken⟩

theorem create : Awaits .create p := .of_claimed .create (by simp [WorkerHandle.create])

theorem mono (ha : h.Awaits p) (hpq : p → q) : h.Awaits q :=
  .of_claimed (ha.claimed.mono hpq) ha.others

theorem enter (ha : h.Awaits p) (hc : c ≠ .worker) (he : h.enter? c = some h') : h'.Awaits p := by
  refine .of_claimed (ha.claimed.enter he) ?_
  obtain ⟨_, rfl⟩ := enter?_eq_some.1 he
  intro call hcall
  rcases List.mem_cons.1 hcall with rfl | hcall
  · exact hc
  · exact ha.others call hcall

theorem ne_worker_of_lock (ha : h.Awaits p) (hl : h.lock? c = some h') : c ≠ .worker :=
  ha.others _ (locks_of_lock? hl).1

theorem lock (ha : h.Awaits p) (hl : h.lock? c = some h') : h'.Awaits p := by
  have hc := ha.ne_worker_of_lock hl
  refine .of_claimed (ha.claimed.lock (fun hw => absurd hw hc) hl) ?_
  have hrest : ∀ call ∈ h.calls.erase (c, .locking), call.1 ≠ .worker := fun call hcall =>
    ha.others call (List.mem_of_mem_erase hcall)
  cases (locks_of_lock? hl).2.2 with
  | waits _ _ =>
    intro call hcall
    rcases List.mem_cons.1 hcall with rfl | hcall
    · exact hc
    · exact hrest call hcall
  | returns _ => exact hrest

theorem join (ha : h.Awaits (exited = true)) (hj : h.join? c exited = some h') :
    h'.Awaits (exited = true) := by
  refine .of_claimed (ha.claimed.join id hj) ?_
  obtain ⟨_, rfl⟩ := join?_eq_some.1 hj
  exact fun call hcall => ha.others call (List.mem_of_mem_erase hcall)

end Awaits

theorem hasCall_enter? (he : h.enter? c = some h') :
    h'.hasCall d = true ↔ c = d ∨ h.hasCall d = true := by
  obtain ⟨_, rfl⟩ := enter?_eq_some.1 he
  simp only [hasCall, List.any_cons, Bool.or_eq_true, decide_eq_true_eq]

/-- Taking the lock ends no call of another thread. -/
theorem hasCall_lock? (hl : h.lock? c = some h') (hd : d ≠ c) (hcall : h.hasCall d = true) :
    h'.hasCall d = true := by
  obtain ⟨phase, hmem⟩ := hasCall_iff.1 hcall
  have hkept : (d, phase) ∈ h.calls.erase (c, .locking) := by
    refine (List.mem_erase_of_ne ?_).2 hmem
    rintro he
    exact hd (congrArg Prod.fst he)
  cases (locks_of_lock? hl).2.2 with
  | waits _ _ => exact hasCall_iff.2 ⟨phase, List.mem_cons_of_mem _ hkept⟩
  | returns _ => exact hasCall_iff.2 ⟨phase, hkept⟩

/-- Taking the lock begins no call. -/
theorem hasCall_of_lock? (hl : h.lock? c = some h') (hcall : h'.hasCall d = true) :
    h.hasCall d = true := by
  obtain ⟨hmem, _, hlocks⟩ := locks_of_lock? hl
  obtain ⟨phase, hcall⟩ := hasCall_iff.1 hcall
  cases hlocks with
  | waits _ _ =>
    rcases List.mem_cons.1 hcall with hsame | hrest
    · obtain rfl : d = c := congrArg Prod.fst hsame
      exact hasCall_iff.2 ⟨_, hmem⟩
    · exact hasCall_iff.2 ⟨phase, List.mem_of_mem_erase hrest⟩
  | returns _ => exact hasCall_iff.2 ⟨phase, List.mem_of_mem_erase hcall⟩

/-- Returning from a call begins none. -/
theorem hasCall_of_join? (hj : h.join? c exited = some h') (hcall : h'.hasCall d = true) :
    h.hasCall d = true := by
  obtain ⟨_, rfl⟩ := join?_eq_some.1 hj
  obtain ⟨phase, hcall⟩ := hasCall_iff.1 hcall
  exact hasCall_iff.2 ⟨phase, List.mem_of_mem_erase hcall⟩

/-- Only its own step ends a call: if a call by a thread other than the worker is over after some
call has taken the lock, it has found no handle. -/
theorem Claimed.of_returns {p : Prop} (ha : h.Claimed p) (hd : d ≠ .worker)
    (hl : h.lock? c = some h') (hcall : h.hasCall d = true) (hr : h'.hasCall d = false) : p := by
  by_cases hsame : d = c
  · subst hsame
    exact ha.of_lock (fun hw => absurd hw hd) hl hr
  · rw [hasCall_lock? hl hsame hcall] at hr
    cases hr

end WorkerHandle
end TickingTable
