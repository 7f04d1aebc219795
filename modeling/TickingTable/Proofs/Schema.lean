import Mathlib.Data.List.Nodup
import TickingTable.Schema

/-! Which lists of names and types make a schema, and that its index finds each name at its place. -/

namespace TickingTable
namespace Schema

variable {names entered : List String} {types : List ElementType} {s : Schema} {name : String}
  {index : Std.HashMap String Nat} {i : Nat} {strict : Bool} {e e' : SchemaError}

/-- Place `i` is the first whose name also stands at a place before it. -/
structure FirstRepeat (names : List String) (i : Nat) (name : String) : Prop where
  here : names[i]? = some name
  repeats : name ∈ names.take i
  first : (names.take i).Nodup

/-- A front that reaches beyond a place that repeats a name has a repeat. -/
theorem FirstRepeat.not_nodup_take (h : FirstRepeat names i name) {n : Nat} (hn : i < n) :
    ¬ (names.take n).Nodup := by
  intro hnodup
  have hfront : (names.take (i + 1)).Nodup := hnodup.sublist (List.take_sublist_take_left hn)
  rw [List.take_add_one, h.here, Option.toList_some] at hfront
  exact (List.nodup_append.1 hfront).2.2 name h.repeats name (List.mem_singleton_self name) rfl

theorem FirstRepeat.not_nodup (h : FirstRepeat names i name) : ¬ names.Nodup := by
  have hall := h.not_nodup_take (List.getElem?_eq_some_iff.1 h.here).1
  rwa [List.take_length] at hall

theorem FirstRepeat.le {j : Nat} {other : String} (h : FirstRepeat names i name)
    (h' : FirstRepeat names j other) : i ≤ j := by
  by_contra hlt
  exact h'.not_nodup_take (Nat.lt_of_not_le hlt) h.first

theorem FirstRepeat.unique {j : Nat} {other : String} (h : FirstRepeat names i name)
    (h' : FirstRepeat names j other) : name = other := by
  obtain rfl : i = j := Nat.le_antisymm (h.le h') (h'.le h)
  exact Option.some.inj (h.here.symm.trans h'.here)

/-- The index takes each of the names to its place, and nothing else to any. -/
def Indexes (index : Std.HashMap String Nat) (names : List String) : Prop :=
  ∀ (name : String) (i : Nat), index[name]? = some i ↔ names[i]? = some name

namespace Indexes

theorem empty : Indexes ∅ [] := by
  intro name i
  simp

theorem mem_iff (h : Indexes index names) : name ∈ index ↔ name ∈ names := by
  rw [Std.HashMap.mem_iff_isSome_getElem?, Option.isSome_iff_exists, List.mem_iff_getElem?]
  exact exists_congr (h name)

/-- A name has one place only, since the index has room for one. -/
theorem nodup (h : Indexes index names) : names.Nodup := by
  rw [List.nodup_iff_injective_get]
  intro i j hsame
  have hi : index[names.get i]? = some i.val := (h _ _).2 (by simp)
  have hj : index[names.get j]? = some j.val := (h _ _).2 (by simp)
  rw [hsame, hj] at hi
  exact Fin.ext (Option.some.inj hi).symm

/-- What one turn of the loop keeps: a name that is new is entered at the next place. -/
theorem insert (h : Indexes index entered) (hnew : name ∉ entered) :
    Indexes (index.insert name entered.length) (entered ++ [name]) := by
  intro other i
  rw [Std.HashMap.getElem?_insert]
  by_cases hsame : name = other
  · subst hsame
    rw [if_pos (beq_self_eq_true _), List.getElem?_append]
    split
    · next hi =>
      -- the name stands at none of the places before
      have hne : entered[i]? ≠ some name := fun hi => hnew (List.mem_of_getElem? hi)
      simp only [hne, iff_false, Option.some.injEq]
      omega
    · next hi =>
      rw [List.getElem?_singleton, Option.some.injEq]
      split
      · next hzero => exact iff_of_true (by omega) rfl
      · next hpos => exact iff_of_false (by omega) nofun
  · rw [if_neg (by simpa using hsame), h other i, List.getElem?_append]
    split
    · exact Iff.rfl
    · next hi =>
      rw [List.getElem?_eq_none (Nat.le_of_not_lt hi), List.getElem?_singleton]
      refine iff_of_false nofun ?_
      split
      · exact fun h => hsame (Option.some.inj h)
      · nofun

end Indexes

theorem fillIndex_cons : fillIndex index i (name :: names) =
    if name ∈ index then .error (.duplicateColumn name)
    else fillIndex (index.insert name i) (i + 1) names := by
  simp only [fillIndex, ← Std.HashMap.containsThenInsert_snd, Std.HashMap.mem_iff_contains,
    ← Std.HashMap.containsThenInsert_fst (k := name) (v := i)]

/-- What the loop does to names behind those that are entered: it stops at the first repeat of all,
if there is one, and otherwise all names are entered. -/
theorem fillIndex_indexes (names : List String) (h : Indexes index entered) :
    match fillIndex index entered.length names with
    | .ok next => Indexes next (entered ++ names)
    | .error e => ∃ i name, e = .duplicateColumn name ∧ FirstRepeat (entered ++ names) i name := by
  induction names generalizing index entered with
  | nil => simpa [fillIndex] using h
  | cons name names ih =>
    rw [fillIndex_cons]
    by_cases hrepeat : name ∈ entered
    · rw [if_pos (h.mem_iff.2 hrepeat)]
      refine ⟨entered.length, name, rfl, ?_, ?_, ?_⟩
      · simp
      · simpa using hrepeat
      · simpa using h.nodup
    · rw [if_neg fun hin => hrepeat (h.mem_iff.1 hin)]
      have hnext := ih (h.insert hrepeat)
      simpa only [List.length_append, List.length_singleton, List.append_assoc,
        List.singleton_append] using hnext

theorem indexes_of_fillIndex (h : fillIndex ∅ 0 names = .ok index) : Indexes index names := by
  have hall := fillIndex_indexes names Indexes.empty
  rw [List.length_nil, h] at hall
  exact hall

theorem firstRepeat_of_fillIndex (h : fillIndex ∅ 0 names = .error e) :
    ∃ i name, e = .duplicateColumn name ∧ FirstRepeat names i name := by
  have hall := fillIndex_indexes names Indexes.empty
  rw [List.length_nil, h] at hall
  exact hall

theorem indexes (s : Schema) : Indexes s.index s.names := indexes_of_fillIndex s.indexed

/-- Why names and types make no schema: their numbers differ, or else a name repeats, and of those
names the first that does. -/
inductive Refused (names : List String) (types : List ElementType) : SchemaError → Prop
  | lengthMismatch (h : names.length ≠ types.length) :
    Refused names types (.lengthMismatch names.length types.length)
  | duplicateColumn {i : Nat} {name : String} (hl : names.length = types.length)
    (h : FirstRepeat names i name) : Refused names types (.duplicateColumn name)

theorem Refused.not_nodup (h : Refused names types e) (hl : names.length = types.length) :
    ¬ names.Nodup := by
  cases h with
  | lengthMismatch hne => exact absurd hl hne
  | duplicateColumn _ hi => exact hi.not_nodup

theorem Refused.unique (h : Refused names types e) (h' : Refused names types e') : e = e' := by
  cases h with
  | lengthMismatch hne => cases h' with
    | lengthMismatch => rfl
    | duplicateColumn hl => exact absurd hl hne
  | duplicateColumn hl hi => cases h' with
    | lengthMismatch hne => exact absurd hl hne
    | duplicateColumn _ hj => rw [hi.unique hj]

theorem of_create (h : create names types = .ok s) : s.names = names ∧ s.types = types := by
  unfold create at h
  split at h
  · split at h
    · cases h
    · cases h
      exact ⟨rfl, rfl⟩
  · cases h

theorem refused_of_create (h : create names types = .error e) : Refused names types e := by
  unfold create at h
  split at h
  · next hl =>
    split at h
    · next e' hfill =>
      cases h
      obtain ⟨i, name, rfl, hi⟩ := firstRepeat_of_fillIndex hfill
      exact .duplicateColumn hl hi
    · cases h
  · next hne =>
    cases h
    exact .lengthMismatch hne

theorem exists_create_iff :
    (∃ s, create names types = .ok s) ↔ names.length = types.length ∧ names.Nodup := by
  constructor
  · rintro ⟨s, hs⟩
    obtain ⟨rfl, rfl⟩ := of_create hs
    exact ⟨s.length_eq, s.indexes.nodup⟩
  · rintro ⟨hl, hnodup⟩
    cases hres : create names types with
    | ok s => exact ⟨s, rfl⟩
    | error e => exact absurd hnodup ((refused_of_create hres).not_nodup hl)

theorem create_eq_error : create names types = .error e ↔ Refused names types e := by
  constructor
  · exact refused_of_create
  · intro h
    cases hres : create names types with
    | ok s =>
      obtain ⟨hl, hnodup⟩ := exists_create_iff.1 ⟨s, hres⟩
      exact absurd hnodup (h.not_nodup hl)
    | error e' => rw [h.unique (refused_of_create hres)]

theorem columnIndex?_eq_some :
    s.columnIndex? name strict = .ok (some i) ↔ s.names[i]? = some name := by
  rw [← s.indexes name i]
  unfold columnIndex?
  cases s.index[name]? with
  | some j => simp
  | none => cases strict <;> simp

theorem columnIndex?_of_not_mem (h : name ∉ s.names) (strict : Bool) :
    s.columnIndex? name strict =
      if strict then .error (.columnNotFound name) else .ok none := by
  have hnone : s.index[name]? = none :=
    Std.HashMap.getElem?_eq_none fun hin => h (s.indexes.mem_iff.1 hin)
  rw [columnIndex?, hnone]

/-- Names and as many types make a schema just if the names are distinct, and otherwise the error
is the first thing wrong. The index of a schema takes each name to its place and finds no other. -/
theorem create_indexes (names : List String) (types : List ElementType) :
    ((∃ s, create names types = .ok s) ↔ names.length = types.length ∧ names.Nodup) ∧
    (∀ e, create names types = .error e ↔ Refused names types e) ∧
    ∀ s, create names types = .ok s → s.names = names ∧ s.types = types ∧
      (∀ name strict i, s.columnIndex? name strict = .ok (some i) ↔ names[i]? = some name) ∧
      ∀ name, name ∉ names → s.columnIndex? name false = .ok none ∧
        s.columnIndex? name true = .error (.columnNotFound name) := by
  refine ⟨exists_create_iff, fun e => create_eq_error, ?_⟩
  intro s hs
  obtain ⟨rfl, rfl⟩ := of_create hs
  refine ⟨rfl, rfl, fun name strict i => columnIndex?_eq_some, fun name hname => ?_⟩
  exact ⟨columnIndex?_of_not_mem hname false, columnIndex?_of_not_mem hname true⟩

/-- Of two repeated names the one that repeats first is reported, and in a schema made without it
the last column is found. -/
theorem create_indexes_twoRepeats :
    create ["bid", "ask", "ask", "bid"] [.int64, .int64, .int32, .int32] =
        .error (.duplicateColumn "ask") ∧
      ∃ s, create ["bid", "ask", "size"] [.int64, .int64, .int32] = .ok s ∧
        s.columnIndex? "size" true = .ok (some 2) ∧ s.columnIndex? "Bid" false = .ok none := by
  obtain ⟨_, herror, _⟩ :=
    create_indexes ["bid", "ask", "ask", "bid"] [.int64, .int64, .int32, .int32]
  obtain ⟨hok, _, hindex⟩ := create_indexes ["bid", "ask", "size"] [.int64, .int64, .int32]
  refine ⟨(herror _).2 (.duplicateColumn (i := 2) rfl ⟨rfl, by decide, by decide⟩), ?_⟩
  obtain ⟨s, hs⟩ := hok.2 ⟨rfl, by decide⟩
  obtain ⟨_, _, hfound, hmissing⟩ := hindex s hs
  exact ⟨s, hs, (hfound "size" true 2).2 rfl, (hmissing "Bid" (by decide)).1⟩

end Schema
end TickingTable
