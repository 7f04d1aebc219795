import Mathlib.Algebra.Order.Ring.Nat
import TickingTable.Proofs.Batch
import TickingTable.Proofs.Decoder.Invariant
import TickingTable.Proofs.Schema

/-! A table whose fields make a schema is one whose frames can be read, and the other way round. -/

namespace TickingTable

open Arrow

namespace Arrow.RecordBatch

variable {fields : List (String × DataType)} {b : RecordBatch}

/-- A batch of one row, in which no column is null, whose arrays are what their types say. -/
structure Envelopes (fields : List (String × DataType)) (b : RecordBatch) : Prop where
  made : create fields b.columns 1 = .ok b
  proper : ∀ a ∈ b.columns, a.Proper
  noNull : ∀ a ∈ b.columns, a.NoNull

theorem Envelopes.types (h : Envelopes fields b) :
    b.columns.map AnyArray.type = fields.map Prod.snd := (create_eq_ok.1 h.made).1

theorem Envelopes.isEnvelope (h : Envelopes fields b) (hlists : ∀ field ∈ fields, field.2.IsList)
    {a : AnyArray} (ha : a ∈ b.columns) : a.IsEnvelope := by
  have htype : a.type ∈ fields.map Prod.snd := h.types ▸ List.mem_map_of_mem ha
  obtain ⟨field, hfield, ht⟩ := List.mem_map.1 htype
  exact ⟨h.proper a ha, ht ▸ hlists field hfield, (create_eq_ok.1 h.made).2.1 a ha, h.noNull a ha⟩

/-- The column that belongs to a field. -/
theorem Envelopes.column (h : Envelopes fields b) {i : Nat} {field : String × DataType}
    (hi : fields[i]? = some field) : ∃ a, b.columns[i]? = some a ∧ a.type = field.2 := by
  have htypes : (b.columns.map AnyArray.type)[i]? = some field.2 := by
    rw [h.types, List.getElem?_map, hi]
    rfl
  rw [List.getElem?_map] at htypes
  simpa using htypes

/-- A list of an empty array. -/
def emptyEnvelope : DataType → AnyArray
  | .list item => .list false false [⟨0, 0, true⟩] (.nulls item 0)
  | .largeList item => .list true false [⟨0, 0, true⟩] (.nulls item 0)
  | type => .blank type 1

theorem type_emptyEnvelope (type : DataType) : (emptyEnvelope type).type = type := by
  cases type with
  | list item => rw [emptyEnvelope, AnyArray.type, AnyArray.type_nulls]
  | largeList item => rw [emptyEnvelope, AnyArray.type, AnyArray.type_nulls]
  | _ => rfl

theorem isEnvelope_emptyEnvelope {type : DataType} (h : type.IsList) :
    (emptyEnvelope type).IsEnvelope := by
  have htype := type_emptyEnvelope type
  cases type with
  | list item =>
    refine ⟨AnyArray.proper_nulls item 0, htype ▸ h, rfl, fun e he => ?_⟩
    rw [List.mem_singleton.1 he]
  | largeList item =>
    refine ⟨AnyArray.proper_nulls item 0, htype ▸ h, rfl, fun e he => ?_⟩
    rw [List.mem_singleton.1 he]
  | _ => cases h

theorem exists_envelopes (hlists : ∀ field ∈ fields, field.2.IsList) :
    ∃ b, Envelopes fields b := by
  have hall : ∀ a ∈ fields.map (fun field => emptyEnvelope field.2), a.IsEnvelope := by
    intro a ha
    obtain ⟨field, hfield, rfl⟩ := List.mem_map.1 ha
    exact isEnvelope_emptyEnvelope (hlists field hfield)
  refine ⟨⟨fields, fields.map fun field => emptyEnvelope field.2, 1⟩, ?_,
    fun a ha => (hall a ha).proper, fun a ha => (hall a ha).noNull⟩
  refine create_eq_ok.2 ⟨?_, fun a ha => (hall a ha).size, rfl⟩
  rw [List.map_map]
  exact List.map_congr_left fun field _ => type_emptyEnvelope field.2

end Arrow.RecordBatch

namespace Schema

open Arrow.RecordBatch

variable {fields : List (String × DataType)} {schema : Schema} {types : List ElementType}
  {b : RecordBatch} {name : String} {type : DataType} {e : SchemaError}

/-- The type of the cells that a field announces. -/
def announced? (type : DataType) : Option ElementType :=
  ElementType.ofDataType? (payloadType type)

theorem fieldType_eq_ok {t : ElementType} :
    fieldType name type = .ok t ↔ announced? type = some t := by
  unfold fieldType announced?
  cases ElementType.ofDataType? (payloadType type) <;> simp

theorem fieldType_eq_error :
    fieldType name type = .error e ↔
      announced? type = none ∧ e = .unsupportedFieldType name type := by
  unfold fieldType announced?
  cases ElementType.ofDataType? (payloadType type) <;> simp [eq_comm]

theorem mapM_fieldType_eq_ok :
    (fields.mapM fun (name, type) => fieldType name type) = .ok types ↔
      fields.map (fun field => announced? field.2) = types.map some := by
  rw [mapM_eq_ok]
  induction fields generalizing types with
  | nil => simp
  | cons field fields ih =>
    cases types with
    | nil => simp
    | cons t types => simp [ih, fieldType_eq_ok]

/-- Distinct names leave only the types to object to. -/
theorem ofFields_eq_ok (hnames : (fields.map Prod.fst).Nodup) :
    (∃ schema, ofFields fields = .ok schema ∧ schema.types = types) ↔
      fields.map (fun field => announced? field.2) = types.map some := by
  rw [← mapM_fieldType_eq_ok]
  unfold ofFields
  cases hm : (fields.mapM fun (name, type) => fieldType name type) with
  | error e => simp [bind, Except.bind]
  | ok found =>
    have hl : (fields.map Prod.fst).length = found.length := by
      simpa using congrArg List.length (mapM_fieldType_eq_ok.1 hm)
    obtain ⟨schema, hcreate⟩ := exists_create_iff.2 ⟨hl, hnames⟩
    obtain ⟨_, htypes⟩ := of_create hcreate
    simp [bind, Except.bind, hcreate, htypes]

/-- What a field announces decides whether its envelopes can be unwrapped. -/
theorem ofEnvelope_announced {a : AnyArray} (ha : a.IsEnvelope) {t : ElementType}
    (ht : announced? a.type = some t) : ∃ c, Column.ofEnvelope a = .ok c ∧ c.type = t := by
  obtain ⟨payload, hpayload, hproper, htype⟩ := Column.ofEnvelope_eq_ofArray ha
  rw [hpayload]
  exact Column.exists_ofArray hproper (htype ▸ ht)

theorem ofEnvelope_unannounced {a : AnyArray} (ha : a.IsEnvelope) (h : announced? a.type = none) :
    Column.ofEnvelope a = .error (.unsupportedType (payloadType a.type)) := by
  obtain ⟨payload, hpayload, _, htype⟩ := Column.ofEnvelope_eq_ofArray ha
  rw [hpayload, ← htype]
  exact Column.ofArray_eq_error (htype ▸ h)

/-- The columns of a batch have the types that the fields announce. -/
theorem exists_columns (h : Envelopes fields b) (hlists : ∀ field ∈ fields, field.2.IsList)
    (ht : fields.map (fun field => announced? field.2) = types.map some) :
    ∃ columns, b.columns.mapM Column.ofEnvelope = .ok columns ∧
      columns.map Column.type = types := by
  have htypes : b.columns.map (fun a => announced? a.type) = types.map some := by
    have hmap := congrArg (List.map announced?) h.types
    rw [List.map_map, List.map_map] at hmap
    exact hmap.trans ht
  have hcolumn : ∀ a ∈ b.columns, ∃ c, Column.ofEnvelope a = .ok c ∧
      some c.type = announced? a.type := by
    intro a ha
    have hsome : announced? a.type ∈ types.map some := htypes ▸ List.mem_map_of_mem ha
    obtain ⟨t, _, hann⟩ := List.mem_map.1 hsome
    obtain ⟨c, hc, hct⟩ := ofEnvelope_announced (h.isEnvelope hlists ha) hann.symm
    exact ⟨c, hc, hct ▸ hann⟩
  obtain ⟨columns, hcolumns, hmap⟩ := exists_mapM_eq_ok hcolumn
  refine ⟨columns, hcolumns, ?_⟩
  have hsome : (columns.map Column.type).map some = types.map some := by
    rw [List.map_map, ← htypes]
    exact hmap
  exact List.map_injective_iff.2 (Option.some_injective _) hsome

/-- An error names the first field that announces no type of cells. -/
theorem ofFields_eq_error (hnames : (fields.map Prod.fst).Nodup) (h : ofFields fields = .error e) :
    ∃ (i : Nat) (field : String × DataType), fields[i]? = some field ∧
      e = .unsupportedFieldType field.1 field.2 ∧ announced? field.2 = none ∧
      ∀ j < i, ∀ other, fields[j]? = some other → (announced? other.2).isSome = true := by
  cases hm : (fields.mapM fun (name, type) => fieldType name type) with
  | ok types =>
    obtain ⟨schema, hschema, _⟩ := (ofFields_eq_ok hnames).2 (mapM_fieldType_eq_ok.1 hm)
    rw [hschema] at h
    cases h
  | error e' =>
    obtain ⟨i, field, hi, hfield, hbefore⟩ := mapM_eq_error hm
    unfold ofFields at h
    rw [hm] at h
    cases h
    obtain ⟨hnone, he⟩ := fieldType_eq_error.1 hfield
    refine ⟨i, field, hi, he, hnone, ?_⟩
    intro j hj other hother
    obtain ⟨t, ht⟩ := hbefore j hj other hother
    rw [fieldType_eq_ok.1 ht]
    rfl

/-- The columns of a frame that have the types of the schema pass its check as they are. -/
theorem checkFrame_whole {d : Decoder} {columns : List Column}
    (h : columns.map Column.type = d.schema.types) (metadata : Option (List UInt8)) :
    d.checkFrame ⟨columns, columns.map Column.size, metadata⟩ = .ok columns := by
  have hzip : columns.zip (columns.map Column.size) = columns.map fun c => (c, c.size) := by
    rw [List.zip_eq_zipWith, List.zipWith_map_right, List.zipWith_self]
  refine Decoder.checkFrame_eq_ok.2 ⟨⟨h, by simp, ?_⟩, ?_⟩
  · intro x hx
    rw [hzip] at hx
    obtain ⟨c, _, rfl⟩ := List.mem_map.1 hx
    exact Nat.le_refl _
  · rw [Frame.trimmed, List.zipWith_map_right, List.zipWith_self]
    simp [Column.trim_size]

/-- Column `i` is the first of a batch that cannot be read, and this type is why. -/
structure FirstUnreadable (b : RecordBatch) (i : Nat) (type : DataType) : Prop where
  refused : ∃ a, b.columns[i]? = some a ∧ Column.ofEnvelope a = .error (.unsupportedType type)
  readable : ∀ j < i, ∀ a, b.columns[j]? = some a → ∃ c, Column.ofEnvelope a = .ok c

theorem FirstUnreadable.not_ok {i : Nat} (h : FirstUnreadable b i type) (columns : List Column) :
    b.columns.mapM Column.ofEnvelope ≠ .ok columns := by
  intro hok
  obtain ⟨a, ha, hfail⟩ := h.refused
  have hi := congrArg (·[i]?) (mapM_eq_ok.1 hok)
  simp only [List.getElem?_map, ha, Option.map_some, hfail] at hi
  obtain ⟨c, _, hc⟩ := Option.map_eq_some_iff.1 hi.symm
  cases hc

/-- Every batch fails at the first field that announces no type of cells. -/
theorem firstUnreadable (hb : Envelopes fields b) (hlists : ∀ field ∈ fields, field.2.IsList)
    {i : Nat} {field : String × DataType} (hi : fields[i]? = some field)
    (hnone : announced? field.2 = none)
    (hbefore : ∀ j < i, ∀ other, fields[j]? = some other → (announced? other.2).isSome = true) :
    FirstUnreadable b i (payloadType field.2) := by
  constructor
  · obtain ⟨a, ha, htype⟩ := hb.column hi
    rw [← htype] at hnone ⊢
    exact ⟨a, ha, ofEnvelope_unannounced (hb.isEnvelope hlists (List.mem_of_getElem? ha)) hnone⟩
  · intro j hj a ha
    have hlt : j < fields.length := Nat.lt_trans hj (List.getElem?_eq_some_iff.1 hi).1
    have hother := List.getElem?_eq_getElem hlt
    obtain ⟨a', ha', htype⟩ := hb.column hother
    obtain rfl : a = a' := Option.some.inj (ha.symm.trans ha')
    obtain ⟨t, ht⟩ := Option.isSome_iff_exists.1 (hbefore j hj _ hother)
    have henvelope := hb.isEnvelope hlists (List.mem_of_getElem? ha)
    obtain ⟨c, hc, _⟩ := ofEnvelope_announced henvelope (htype ▸ ht)
    exact ⟨c, hc⟩

/-- A table whose fields are lists with distinct names has a schema just if its frames can be
read, and the decoder of that schema accepts the shape of each of them. If the table has no
schema then the error names the first column that cannot be read in any frame. -/
theorem ofFields_agrees (hlists : ∀ field ∈ fields, field.2.IsList)
    (hnames : (fields.map Prod.fst).Nodup) :
    ((∃ schema, ofFields fields = .ok schema) ↔
      ∀ b, Envelopes fields b → ∃ columns, b.columns.mapM Column.ofEnvelope = .ok columns) ∧
    (∀ schema, ofFields fields = .ok schema → ∀ b columns, Envelopes fields b →
      b.columns.mapM Column.ofEnvelope = .ok columns → ∀ fs metadata,
        ((Decoder.start schema).feed fs).checkFrame
          ⟨columns, columns.map Column.size, metadata⟩ = .ok columns) ∧
    ∀ e, ofFields fields = .error e →
      ∃ (i : Nat) (field : String × DataType), fields[i]? = some field ∧
        e = .unsupportedFieldType field.1 field.2 ∧
        ∀ b, Envelopes fields b → FirstUnreadable b i (payloadType field.2) := by
  have hok : ∀ schema, ofFields fields = .ok schema →
      fields.map (fun field => announced? field.2) = schema.types.map some := fun schema h =>
    (ofFields_eq_ok hnames).1 ⟨schema, h, rfl⟩
  refine ⟨⟨?_, ?_⟩, ?_, ?_⟩
  · rintro ⟨schema, hschema⟩ b hb
    obtain ⟨columns, hcolumns, _⟩ := exists_columns hb hlists (hok schema hschema)
    exact ⟨columns, hcolumns⟩
  · intro hall
    cases he : ofFields fields with
    | ok schema => exact ⟨schema, rfl⟩
    | error e =>
      -- The claim about all batches says something since there are some.
      obtain ⟨b, hb⟩ := exists_envelopes hlists
      obtain ⟨columns, hcolumns⟩ := hall b hb
      obtain ⟨i, field, hi, _, hnone, hbefore⟩ := ofFields_eq_error hnames he
      exact absurd hcolumns ((firstUnreadable hb hlists hi hnone hbefore).not_ok columns)
  · intro schema hschema b columns hb hcolumns fs metadata
    obtain ⟨columns', hcolumns', htypes⟩ := exists_columns hb hlists (hok schema hschema)
    obtain rfl : columns = columns' := Except.ok.inj (hcolumns.symm.trans hcolumns')
    apply checkFrame_whole
    rw [htypes, Decoder.schema_feed]
    rfl
  · intro e he
    obtain ⟨i, field, hi, he, hnone, hbefore⟩ := ofFields_eq_error hnames he
    exact ⟨i, field, hi, he, fun b hb => firstUnreadable hb hlists hi hnone hbefore⟩

/-- Times with a zone can be read, and lists within lists cannot. -/
theorem ofFields_agrees_nested :
    (∀ b, Envelopes [("when", .list (.timestamp .nanosecond (some "UTC")))] b →
      ∃ columns, b.columns.mapM Column.ofEnvelope = .ok columns) ∧
    ∀ b, Envelopes [("when", .list (.timestamp .nanosecond (some "UTC"))),
        ("deep", .list (.largeList .int32))] b →
      FirstUnreadable b 1 (.largeList .int32) := by
  constructor
  · have hmade : ∃ schema, create ["when"] [.timestamp] = .ok schema :=
      exists_create_iff.2 ⟨rfl, by decide⟩
    exact (ofFields_agrees (by simp [DataType.IsList]) (by decide)).1.1 hmade
  · have herror : ofFields [("when", .list (.timestamp .nanosecond (some "UTC"))),
        ("deep", .list (.largeList .int32))] =
          .error (.unsupportedFieldType "deep" (.list (.largeList .int32))) := rfl
    obtain ⟨i, field, hi, hname, hall⟩ :=
      (ofFields_agrees (by simp [DataType.IsList]) (by decide)).2.2 _ herror
    match i, hi with
    | 0, hi =>
      obtain rfl := Option.some.inj hi
      exact absurd (SchemaError.unsupportedFieldType.inj hname).1 (by decide)
    | 1, hi =>
      obtain rfl := Option.some.inj hi
      exact hall

end Schema
end TickingTable
