import TickingTable.Proofs.RowSet.Composition

/-! A builder makes the set of all keys that it is asked for, in whatever order it is asked. -/

namespace TickingTable

/-- Intervals that start in ascending order coalesce to the same ones, however those with the same
start are arranged. -/
theorem Interval.coalesce_eq_of_perm {l m : List Interval} (hn : ∀ i ∈ l, i.lo < i.hi)
    (hl : l.Pairwise fun i j => i.lo ≤ j.lo) (hm : m.Pairwise fun i j => i.lo ≤ j.lo)
    (hperm : l.Perm m) : coalesce l = coalesce m := by
  have hn' : ∀ i ∈ m, i.lo < i.hi := fun i hi => hn i (hperm.mem_iff.2 hi)
  apply (canonical_coalesce hn hl).eq_of_covers_iff (canonical_coalesce hn' hm)
  intro k
  rw [covers_coalesce hl, covers_coalesce hm]
  exact covers_of_forall fun _ => hperm.mem_iff

namespace RowSet

theorem union_comm (r s : RowSet) : r.union s = s.union r := by
  rw [eq_iff_mem]
  intro k
  rw [mem_union, mem_union, or_comm]

namespace Builder

variable {b : Builder} {calls calls' : List Call}

theorem build_eq_of_perm (hfits : ∀ call ∈ calls, call.Fits) (hperm : calls'.Perm calls) :
    (empty.takeAll calls').build = (empty.takeAll calls).build := by
  rw [eq_iff_mem]
  intro k
  have hfits' : ∀ call ∈ calls', call.Fits := fun call hcall => hfits call (hperm.mem_iff.1 hcall)
  rw [mem_build_takeAll hfits, mem_build_takeAll hfits']
  simp only [hperm.mem_iff]

/-- A sort may arrange intervals with the same start in any way. -/
theorem coalesce_eq_intervals_build {l : List Interval} (hperm : l.Perm b.latestFirst)
    (hl : l.Pairwise fun i j => i.lo ≤ j.lo) : Interval.coalesce l = b.build.intervals := by
  have hsorted : (Interval.sort b.latestFirst.reverse).Perm b.latestFirst :=
    (Interval.sort_perm _).trans (List.reverse_perm _)
  apply Interval.coalesce_eq_of_perm _ hl (Interval.pairwise_sort _) (hperm.trans hsorted.symm)
  intro i hi
  exact b.nonempty i (hperm.mem_iff.1 hi)

/-- A builder makes the set of the keys that any call names, without the reserved key. Neither the
order of the calls nor the way in which intervals with the same start are sorted makes a
difference. So the union of two sets has the members of both, whichever comes first. -/
theorem build_collects (calls : List Call) (hfits : ∀ call ∈ calls, call.Fits) :
    (∀ k, k ∈ (empty.takeAll calls).build ↔ k < reservedKey ∧ ∃ call ∈ calls, call.Names k) ∧
    (∀ calls', calls'.Perm calls →
      (empty.takeAll calls').build = (empty.takeAll calls).build) ∧
    (∀ l, l.Perm (empty.takeAll calls).latestFirst → (l.Pairwise fun i j => i.lo ≤ j.lo) →
      Interval.coalesce l = (empty.takeAll calls).build.intervals) ∧
    (∀ keys k, k ∈ ofKeys keys ↔ k < reservedKey ∧ k ∈ keys) ∧
    ∀ r s : RowSet, (∀ k, k ∈ r.union s ↔ k ∈ r ∨ k ∈ s) ∧ r.union s = s.union r :=
  ⟨fun _ => mem_build_takeAll hfits, fun _ hperm => build_eq_of_perm hfits hperm,
    fun _ hperm hl => coalesce_eq_intervals_build hperm hl, fun _ _ => mem_ofKeys,
    fun r s => ⟨fun _ => mem_union, union_comm r s⟩⟩

/-- Nested and touching intervals, one without keys, one the wrong way round, and the reserved
key. -/
theorem build_collects_nested :
    let calls : List Call := [.interval 5 9, .interval 1 7, .key reservedKey, .interval 4 4,
      .key 9, .interval 8 2, .interval 2 3]
    (∀ call ∈ calls, call.Fits) ∧ (empty.takeAll calls.reverse).build = .ofInterval 1 10 := by
  intro calls
  have hfits : ∀ call ∈ calls, call.Fits := by
    simp [calls, Call.Fits, reservedKey]
  obtain ⟨hmem, hperm, -, -⟩ := build_collects calls hfits
  refine ⟨hfits, (hperm _ (List.reverse_perm _)).trans ?_⟩
  rw [eq_iff_mem]
  intro k
  rw [hmem, ofInterval, mem_ofIntervals]
  simp only [calls, reservedKey, Call.Names, List.mem_cons, List.not_mem_nil, or_false,
    exists_eq_or_imp, exists_eq_left, Interval.covers_cons, Interval.covers_nil]
  omega

end Builder
end RowSet
end TickingTable
