import TickingTable.Proofs.Envelope
import TickingTable.Proofs.Schema
import TickingTable.Proofs.Table

/-! All of a table can be reached: its cells, its columns by their names, and everything together as
a batch. -/

namespace TickingTable

open Arrow

namespace Arrow

/-- The type without its time zone. -/
def DataType.zoneless : DataType → DataType
  | .timestamp unit _ => .timestamp unit none
  | type => type

theorem DataType.ofDataType?_zoneless (type : DataType) :
    ElementType.ofDataType? type.zoneless = ElementType.ofDataType? type := by
  cases type with
  | timestamp unit zone => cases unit <;> rfl
  | _ => rfl

/-- The arrays of a table have the types of the arrays it was made of, but for time zones. -/
theorem DataType.dataType_eq_zoneless {type : DataType} {element : ElementType}
    (h : ElementType.ofDataType? type = some element) : element.dataType = type.zoneless := by
  unfold ElementType.ofDataType? at h
  split at h <;> cases h <;> rfl

def FlatArray.zoneless (a : FlatArray) : FlatArray :=
  ⟨a.type.zoneless, a.cells, by
    intro c hc v hv
    rw [DataType.ofDataType?_zoneless]
    exact a.typed c hc v hv⟩

def AnyArray.zoneless : AnyArray → AnyArray
  | .flat a => .flat a.zoneless
  | a => a

end Arrow

namespace Column

variable {c : Column}

theorem toFlat_of_ofArray {a : AnyArray} (h : ofArray a = .ok c) :
    .flat c.toFlat = a.zoneless := by
  cases a with
  | flat a =>
    obtain ⟨htype, hcells⟩ := of_ofFlat h
    simp only [AnyArray.zoneless, FlatArray.zoneless, toFlat, DataType.dataType_eq_zoneless htype,
      hcells]
  | blank type size => cases h
  | list large masked elements values => cases h

theorem ofArray_toFlat (c : Column) : ofArray (.flat c.toFlat) = .ok c := by
  have hflat : c.toFlat.type = c.type.dataType := rfl
  obtain ⟨d, hd, htype, hcells⟩ := ofFlat_of_type hflat
  rw [ofArray, hd, ext_cells htype (congrArg Array.toList hcells)]

end Column

namespace Table

variable {t : Table} {i : Nat}

/-- The batch has the rows of the table, its columns in their order under their names, each of the
type that the schema says, and these columns can be read back from it. If the columns came as
arrays then the batch has these arrays without their time zones. -/
structure Conveys (t : Table) (b : RecordBatch) : Prop where
  rows : b.rows = t.rows
  fields : b.fields = t.schema.names.zip (t.schema.types.map ElementType.dataType)
  columns : b.columns.mapM Column.ofArray = .ok t.columns
  arrays : ∀ arrays : List AnyArray, arrays.mapM Column.ofArray = .ok t.columns →
    b.columns = arrays.map AnyArray.zoneless

theorem map_toFlat_of_mapM {arrays : List AnyArray} {columns : List Column}
    (h : arrays.mapM Column.ofArray = .ok columns) :
    columns.map (fun c => .flat c.toFlat) = arrays.map AnyArray.zoneless := by
  have hcolumn : ∀ a ∈ arrays, ∃ c, Column.ofArray a = .ok c ∧ .flat c.toFlat = a.zoneless := by
    intro a ha
    have hmem : Column.ofArray a ∈ columns.map Except.ok :=
      mapM_eq_ok.1 h ▸ List.mem_map_of_mem ha
    obtain ⟨c, _, hc⟩ := List.mem_map.1 hmem
    exact ⟨c, hc.symm, Column.toFlat_of_ofArray hc.symm⟩
  obtain ⟨found, hfound, hmap⟩ := exists_mapM_eq_ok hcolumn
  obtain rfl := Except.ok.inj (hfound.symm.trans h)
  exact hmap

/-- A table is told to others without fail, whatever library makes the batch. -/
theorem exists_batch (k : Kernels) (t : Table) :
    ∃ b, k.batch (List.zipWith (fun name (type : ElementType) => (name, type.dataType))
      t.schema.names t.schema.types) (t.columns.map fun c => .flat c.toFlat) t.rows = .ok b ∧
        t.Conveys b := by
  have hfields : List.zipWith (fun name (type : ElementType) => (name, type.dataType))
      t.schema.names t.schema.types =
        t.schema.names.zip (t.schema.types.map ElementType.dataType) := by
    rw [List.zip_eq_zipWith, List.zipWith_map_right]
  have htypes : (t.columns.map fun c => AnyArray.flat c.toFlat).map AnyArray.type =
      (t.schema.names.zip (t.schema.types.map ElementType.dataType)).map Prod.snd := by
    rw [List.map_snd_zip (by simp [t.schema.length_eq]), List.map_map, ← t.types_eq, List.map_map]
    rfl
  have hsizes : ∀ a ∈ t.columns.map (fun c => AnyArray.flat c.toFlat), a.size = t.rows := by
    intro a ha
    obtain ⟨c, hc, rfl⟩ := List.mem_map.1 ha
    exact t.sizes_eq c hc
  refine ⟨⟨_, t.columns.map fun c => .flat c.toFlat, t.rows⟩, ?_, rfl, rfl, ?_, ?_⟩
  · rw [hfields]
    exact (k.batched _ _ _ _).2 ⟨htypes, hsizes, rfl⟩
  · rw [mapM_eq_ok, List.map_map]
    exact List.map_congr_left fun c _ => Column.ofArray_toFlat c
  · intro arrays harrays
    exact map_toFlat_of_mapM harrays

theorem exists_toBatch (t : Table) : ∃ b, t.toBatch = .ok b ∧ t.Conveys b :=
  t.exists_batch kernels

theorem exists_cell_iff {row column : Nat} :
    (∃ cell, t.cell row column = .ok cell) ↔ row < t.rows ∧ column < t.columns.length := by
  unfold cell
  by_cases hcolumn : column < t.columns.length
  · have hrows := t.sizes_eq _ (List.getElem_mem hcolumn)
    rw [← hrows]
    by_cases hrow : row < t.columns[column].size
    · simp [hcolumn, Column.cell, hrow]
    · simp [hcolumn, Column.cell, hrow]
  · simp [hcolumn]

theorem columnNamed?_of_name {name : String} (h : t.schema.names[i]? = some name) (strict : Bool) :
    ∃ c, t.columns[i]? = some c ∧ t.columnNamed? name strict = .ok (some c) := by
  have hi : i < t.columns.length := by
    rw [t.length_columns]
    exact (List.getElem?_eq_some_iff.1 h).1
  refine ⟨t.columns[i], List.getElem?_eq_getElem hi, ?_⟩
  rw [columnNamed?, Schema.columnIndex?_eq_some.2 h]
  simp [bind, Except.bind, pure, Except.pure, column?, hi]

theorem columnNamed?_of_not_mem {name : String} (h : name ∉ t.schema.names) (strict : Bool) :
    t.columnNamed? name strict =
      if strict then .error (.columnNotFound name) else .ok none := by
  rw [columnNamed?, Schema.columnIndex?_of_not_mem h]
  cases strict <;> rfl

/-- Columns make a table just if there is one for each of the schema and all have the type that it
says and the given number of rows; otherwise the error is the first thing wrong. The cells of a
table are those of its rows and columns, its columns are found by their names, and it always makes
a batch that has all of it. -/
theorem ofColumns_rectangular (schema : Schema) (columns : List Column) (rows : Nat) :
    ((∃ t, ofColumns schema columns rows = .ok t) ↔ AllFit schema columns rows) ∧
    (∀ e, ofColumns schema columns rows = .error e ↔ Refused schema columns rows e) ∧
    ∀ t, ofColumns schema columns rows = .ok t →
      (t.schema = schema ∧ t.columns = columns ∧ t.rows = rows) ∧
      (∀ row column, (∃ cell, t.cell row column = .ok cell) ↔
        row < rows ∧ column < columns.length) ∧
      (∀ (i : Nat) (name : String) (strict : Bool), schema.names[i]? = some name →
        ∃ c, columns[i]? = some c ∧ t.columnNamed? name strict = .ok (some c)) ∧
      (∀ name, name ∉ schema.names → t.columnNamed? name false = .ok none ∧
        t.columnNamed? name true = .error (.columnNotFound name)) ∧
      ∃ b, t.toBatch = .ok b ∧ t.Conveys b := by
  refine ⟨exists_ofColumns_iff, fun e => ofColumns_eq_error, ?_⟩
  intro t ht
  obtain ⟨rfl, rfl, rfl⟩ := of_ofColumns ht
  refine ⟨⟨rfl, rfl, rfl⟩, fun row column => exists_cell_iff, ?_, ?_, t.exists_toBatch⟩
  · intro i name strict hname
    exact columnNamed?_of_name hname strict
  · intro name hname
    exact ⟨columnNamed?_of_not_mem hname false, columnNamed?_of_not_mem hname true⟩

def oneTime : Schema :=
  ⟨["when"], [.timestamp], (∅ : Std.HashMap String Nat).insert "when" 0, rfl,
    by simp [Schema.fillIndex]⟩

def zonedTimes : FlatArray :=
  ⟨.timestamp .nanosecond (some "UTC"), #[some (.timestamp 5), none], by decide⟩

/-- Times that arrived with a zone are told without it, rows are kept where there is no column, and
a wrong type comes before a wrong size. -/
theorem ofColumns_rectangular_zoned :
    (∃ c t b, Column.ofArray (.flat zonedTimes) = .ok c ∧ ofColumns oneTime [c] 2 = .ok t ∧
      t.toBatch = .ok b ∧ b.columns = [.flat zonedTimes.zoneless] ∧
      zonedTimes.zoneless.type = .timestamp .nanosecond none ∧
      t.columnNamed? "when" true = .ok (some c)) ∧
    (∃ t b, ofColumns Schema.empty [] 3 = .ok t ∧ t.toBatch = .ok b ∧ b.rows = 3) ∧
    ofColumns oneTime [Column.empty .string] 1 = .error (.columnType 0 .timestamp .string) := by
  obtain ⟨c, hc, htype, hcells⟩ : ∃ c, Column.ofArray (.flat zonedTimes) = .ok c ∧
      c.type = .timestamp ∧ c.size = 2 := ⟨_, rfl, rfl, rfl⟩
  refine ⟨?_, ?_, ?_⟩
  · obtain ⟨hok, _, hmade⟩ := ofColumns_rectangular oneTime [c] 2
    obtain ⟨t, ht⟩ := hok.2 (allFit_iff.2 ⟨by simp [htype, oneTime], by simp [hcells]⟩)
    obtain ⟨⟨_, hcolumns, _⟩, _, hnamed, _, b, hb, hconveys⟩ := hmade t ht
    refine ⟨c, t, b, hc, ht, hb, hconveys.arrays [.flat zonedTimes] ?_, rfl, ?_⟩
    · rw [hcolumns, mapM_eq_ok]
      simp [hc]
    · obtain ⟨d, hd, hfound⟩ := hnamed 0 "when" true rfl
      obtain rfl : c = d := by simpa using hd
      exact hfound
  · obtain ⟨hok, _, hmade⟩ := ofColumns_rectangular Schema.empty [] 3
    obtain ⟨t, ht⟩ := hok.2 ⟨rfl, by simp⟩
    obtain ⟨⟨_, _, hrows⟩, _, _, _, b, hb, hconveys⟩ := hmade t ht
    exact ⟨t, b, ht, hb, hconveys.rows.trans hrows⟩
  · obtain ⟨_, herror, _⟩ := ofColumns_rectangular oneTime [Column.empty .string] 1
    refine (herror _).2 (.column (i := 0) rfl rfl rfl (.type (by decide)) ?_)
    intro j hj
    exact absurd hj (Nat.not_lt_zero j)

end Table
end TickingTable
