import Mathlib.Algebra.Order.Ring.Nat
import TickingTable.Table.Basic

/-! Which columns make a table, and what is wrong with others. -/

namespace TickingTable
namespace Table

variable {schema : Schema} {columns : List Column} {types : List ElementType} {rows i : Nat}
  {c : Column} {type : ElementType} {e e' : TableError} {t : Table}

theorem length_columns (t : Table) : t.columns.length = t.schema.size := by
  rw [Schema.size, t.schema.length_eq, ← t.types_eq, List.length_map]

/-- What is asked of column `i`: the type that the schema says and the number of rows. -/
def Fits (schema : Schema) (rows i : Nat) (c : Column) : Prop :=
  schema.types[i]? = some c.type ∧ c.size = rows

/-- One column for each of the schema, and each as it is asked. -/
def AllFit (schema : Schema) (columns : List Column) (rows : Nat) : Prop :=
  columns.length = schema.size ∧ ∀ i c, columns[i]? = some c → Fits schema rows i c

/-- What is wrong with a column at place `i`, its type before its size. -/
inductive Misfit (rows i : Nat) (type : ElementType) (c : Column) : TableError → Prop
  | type (h : c.type ≠ type) : Misfit rows i type c (.columnType i type c.type)
  | size (ht : c.type = type) (h : c.size ≠ rows) :
    Misfit rows i type c (.columnLength i rows c.size)

/-- Why columns make no table: their number is wrong, or else the first that does not fit. -/
inductive Refused (schema : Schema) (columns : List Column) (rows : Nat) : TableError → Prop
  | columnCount (h : columns.length ≠ schema.size) :
    Refused schema columns rows (.columnCount schema.size columns.length)
  | column {i : Nat} {c : Column} {type : ElementType} {e : TableError}
    (hl : columns.length = schema.size) (hc : columns[i]? = some c)
    (ht : schema.types[i]? = some type) (h : Misfit rows i type c e)
    (hfirst : ∀ j < i, ∀ d, columns[j]? = some d → Fits schema rows j d) :
    Refused schema columns rows e

theorem allFit_iff : AllFit schema columns rows ↔
    columns.map Column.type = schema.types ∧ ∀ c ∈ columns, c.size = rows := by
  constructor
  · rintro ⟨hl, hfit⟩
    constructor
    · apply List.ext_getElem?
      intro i
      rw [List.getElem?_map]
      cases hc : columns[i]? with
      | some c => exact (hfit i c hc).1.symm
      | none =>
        have hi := List.getElem?_eq_none_iff.1 hc
        rw [hl, Schema.size, schema.length_eq] at hi
        exact (List.getElem?_eq_none_iff.2 hi).symm
    · intro c hc
      obtain ⟨i, hi⟩ := List.mem_iff_getElem?.1 hc
      exact (hfit i c hi).2
  · rintro ⟨htypes, hsizes⟩
    refine ⟨?_, fun i c hc => ⟨?_, hsizes c (List.mem_of_getElem? hc)⟩⟩
    · rw [Schema.size, schema.length_eq, ← htypes, List.length_map]
    · rw [← htypes, List.getElem?_map, hc, Option.map_some]

theorem Misfit.unique (h : Misfit rows i type c e) (h' : Misfit rows i type c e') : e = e' := by
  cases h with
  | type hne => cases h' with
    | type => rfl
    | size ht => exact absurd ht hne
  | size ht hne => cases h' with
    | type hne' => exact absurd ht hne'
    | size => rfl

theorem Misfit.not_fits (h : Misfit rows i type c e) (ht : schema.types[i]? = some type) :
    ¬ Fits schema rows i c := by
  rintro ⟨htype, hsize⟩
  have hsame : c.type = type := Option.some.inj (htype.symm.trans ht)
  cases h with
  | type hne => exact hne hsame
  | size _ hne => exact hne hsize

theorem Refused.not_allFit (h : Refused schema columns rows e) : ¬ AllFit schema columns rows := by
  rintro ⟨hl, hfit⟩
  cases h with
  | columnCount hne => exact hne hl
  | column _ hc ht hmisfit _ => exact hmisfit.not_fits ht (hfit _ _ hc)

theorem Refused.unique (h : Refused schema columns rows e) (h' : Refused schema columns rows e') :
    e = e' := by
  cases h with
  | columnCount hne => cases h' with
    | columnCount => rfl
    | column hl => exact absurd hl hne
  | @column i c type _ hl hc ht hmisfit hfirst => cases h' with
    | columnCount hne => exact absurd hl hne
    | @column j d type' _ _ hd ht' hmisfit' hfirst' =>
      rcases Nat.lt_trichotomy i j with hlt | rfl | hlt
      · exact absurd (hfirst' i hlt c hc) (hmisfit.not_fits ht)
      · obtain rfl : c = d := Option.some.inj (hc.symm.trans hd)
        obtain rfl : type = type' := Option.some.inj (ht.symm.trans ht')
        exact hmisfit.unique hmisfit'
      · exact absurd (hfirst j hlt d hd) (hmisfit'.not_fits ht')

/-- The search stops at the first column that does not fit its type and the number of rows. -/
theorem misfit?_eq_some {index : Nat} (hl : columns.length = types.length)
    (h : misfit? rows index columns types = some e) :
    ∃ i c type, columns[i]? = some c ∧ types[i]? = some type ∧ Misfit rows (index + i) type c e ∧
      ∀ j < i, ∀ d, columns[j]? = some d → types[j]? = some d.type ∧ d.size = rows := by
  induction columns generalizing index types with
  | nil => cases h
  | cons c columns ih =>
    obtain ⟨type, types, rfl⟩ := List.exists_cons_of_length_eq_add_one hl.symm
    rw [misfit?] at h
    by_cases htype : c.type = type
    · rw [if_neg (not_not.2 htype)] at h
      by_cases hsize : c.size = rows
      · rw [if_neg (not_not.2 hsize)] at h
        obtain ⟨i, d, type', hd, ht, hmisfit, hbefore⟩ := ih (Nat.succ.inj hl) h
        rw [Nat.add_right_comm, Nat.add_assoc] at hmisfit
        refine ⟨i + 1, d, type', hd, ht, hmisfit, ?_⟩
        intro j hj d hd
        cases j with
        | zero =>
          obtain rfl : c = d := by simpa using hd
          exact ⟨by simp [htype], hsize⟩
        | succ j => exact hbefore j (by omega) d hd
      · rw [if_pos hsize] at h
        obtain rfl := Option.some.inj h
        exact ⟨0, c, type, rfl, rfl, .size htype hsize, fun j hj => absurd hj (Nat.not_lt_zero j)⟩
    · rw [if_pos htype] at h
      obtain rfl := Option.some.inj h
      exact ⟨0, c, type, rfl, rfl, .type htype, fun j hj => absurd hj (Nat.not_lt_zero j)⟩

theorem refused_of_ofColumns (h : ofColumns schema columns rows = .error e) :
    Refused schema columns rows e := by
  unfold ofColumns at h
  by_cases hl : columns.length = schema.types.length
  · have hsize : columns.length = schema.size := hl.trans schema.length_eq.symm
    rw [dif_pos hl] at h
    split at h
    · next hfound =>
      cases h
      obtain ⟨i, c, type, hc, ht, hmisfit, hfirst⟩ := misfit?_eq_some hl hfound
      rw [Nat.zero_add] at hmisfit
      exact .column hsize hc ht hmisfit hfirst
    · cases h
  · rw [dif_neg hl] at h
    cases h
    exact .columnCount fun hsize => hl (hsize.trans schema.length_eq)

theorem of_ofColumns (h : ofColumns schema columns rows = .ok t) :
    t.schema = schema ∧ t.columns = columns ∧ t.rows = rows := by
  unfold ofColumns at h
  split at h
  · split at h
    · cases h
    · cases h
      exact ⟨rfl, rfl, rfl⟩
  · cases h

theorem exists_ofColumns_iff :
    (∃ t, ofColumns schema columns rows = .ok t) ↔ AllFit schema columns rows := by
  constructor
  · rintro ⟨t, ht⟩
    obtain ⟨rfl, rfl, rfl⟩ := of_ofColumns ht
    exact allFit_iff.2 ⟨t.types_eq, t.sizes_eq⟩
  · intro hfit
    cases hres : ofColumns schema columns rows with
    | ok t => exact ⟨t, rfl⟩
    | error e => exact absurd hfit (refused_of_ofColumns hres).not_allFit

theorem ofColumns_eq_error :
    ofColumns schema columns rows = .error e ↔ Refused schema columns rows e := by
  constructor
  · exact refused_of_ofColumns
  · intro h
    cases hres : ofColumns schema columns rows with
    | ok t => exact absurd (exists_ofColumns_iff.1 ⟨t, hres⟩) h.not_allFit
    | error e' => rw [h.unique (refused_of_ofColumns hres)]

end Table
end TickingTable
