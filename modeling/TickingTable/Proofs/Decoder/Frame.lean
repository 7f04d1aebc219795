import Mathlib.Data.List.Forall2
import TickingTable.Proofs.Column
import TickingTable.Decoder.Basic

/-! A frame passes the check of a decoder just if it has the shape of the schema. -/

namespace TickingTable

/-- The cells of a frame that count, column by column. -/
def Frame.cells (f : Frame) : List (List Cell) :=
  List.zipWith (fun c n => c.cells.toList.take n) f.columns f.sizes

/-- The columns of a frame, cut to their sizes. -/
def Frame.trimmed (f : Frame) : List Column := List.zipWith Column.trim f.columns f.sizes

/-- There is a size for each column, which has as many rows. -/
def Frame.SizesFit (f : Frame) : Prop :=
  List.Forall₂ (fun c n => n ≤ Column.size c) f.columns f.sizes

/-- The message that a frame starts, if its metadata can be read. -/
def Frame.update? (f : Frame) : Option UpdateMetadata :=
  f.metadata.bind fun input => (UpdateMetadata.decode input).toOption

/-- The columns have the types of the schema and no size exceeds its column. -/
structure Frame.Conforms (f : Frame) (schema : Schema) : Prop where
  types : f.columns.map Column.type = schema.types
  count : f.sizes.length = f.columns.length
  sizes : ∀ x ∈ f.columns.zip f.sizes, x.2 ≤ x.1.size

/-- What an error finds fault with: the columns of a frame, the message with its rows, or the
columns and tables that the decoder puts together. -/
inductive Blame where
  | frame
  | message
  | assembly
deriving DecidableEq

def ProtocolError.blame : ProtocolError → Blame
  | .columnCountMismatch _ _ | .columnTypeMismatch _ _ _ | .sizeMismatch _ _ _ => .frame
  | .column _ | .table _ | .array _ => .assembly
  | _ => .message

namespace Decoder

variable {d : Decoder} {f : Frame} {columns trimmed : List Column} {sizes : List Nat}
  {types : List ElementType} {index : Nat} {e : ProtocolError}

theorem trimColumns_cons (index : Nat) (c : Column) (columns : List Column) (n : Nat)
    (sizes : List Nat) (type : ElementType) (types : List ElementType) :
    trimColumns index (c :: columns) (n :: sizes) (type :: types) =
      if c.type ≠ type then .error (.columnTypeMismatch index type c.type)
      else if c.size < n then .error (.sizeMismatch index n c.size)
      else (trimColumns (index + 1) columns sizes types).map (c.trim n :: ·) := by
  rw [trimColumns]
  by_cases ht : c.type = type
  · by_cases hn : c.size < n
    · simp [ht, hn, throw, throwThe, MonadExceptOf.throw, bind, Except.bind]
    · simp only [ht, hn, ne_eq, not_true_eq_false, if_false, pure_bind]
      split
      · next h =>
        rw [h, c.trim_size]
        cases trimColumns (index + 1) columns sizes types <;> rfl
      · rw [c.ofFlat_extract]
        cases trimColumns (index + 1) columns sizes types <;> rfl
  · simp [ht, throw, throwThe, MonadExceptOf.throw, bind, Except.bind]

theorem trimColumns_eq_ok (hl : columns.length = types.length)
    (hs : sizes.length = columns.length) :
    trimColumns index columns sizes types = .ok trimmed ↔
      (columns.map Column.type = types ∧ ∀ x ∈ columns.zip sizes, x.2 ≤ x.1.size) ∧
        trimmed = List.zipWith Column.trim columns sizes := by
  induction columns generalizing index sizes types trimmed with
  | nil =>
    obtain rfl : types = [] := by simpa using hl.symm
    obtain rfl : sizes = [] := by simpa using hs
    simp [trimColumns, eq_comm, pure, Except.pure]
  | cons c columns ih =>
    obtain ⟨type, types, rfl⟩ := List.exists_cons_of_length_eq_add_one hl.symm
    obtain ⟨n, sizes, rfl⟩ := List.exists_cons_of_length_eq_add_one hs
    have ih' := fun trimmed => @ih trimmed sizes types (index + 1) (by simpa using hl)
      (by simpa using hs)
    rw [trimColumns_cons]
    split
    · next ht => simp [ht]
    · next ht =>
      split
      · next hn => simp [Nat.not_le_of_lt hn]
      · next hn =>
        simp only [ne_eq, not_not] at ht
        cases hr : trimColumns (index + 1) columns sizes types with
        | error e =>
          have hno := fun h => hr.symm.trans ((ih' _).2 ⟨h, rfl⟩)
          simp only [Except.map, List.map_cons, ht, List.cons.injEq, true_and, List.zip_cons_cons,
            List.mem_cons, forall_eq_or_imp, reduceCtorEq, false_iff, not_and, and_imp]
          intro h _ h'
          exact absurd (hno ⟨h, h'⟩) (by simp)
        | ok rest =>
          obtain ⟨hfit, rfl⟩ := (ih' _).1 hr
          simp only [Except.map, Except.ok.injEq, List.map_cons, ht, List.zip_cons_cons,
            List.mem_cons, forall_eq_or_imp, List.zipWith_cons_cons, hfit.1]
          constructor
          · rintro rfl
            exact ⟨⟨trivial, Nat.not_lt.1 hn, hfit.2⟩, rfl⟩
          · rintro ⟨_, rfl⟩
            rfl

theorem trimColumns_error (h : trimColumns index columns sizes types = .error e) :
    e.blame = .frame := by
  induction columns generalizing index sizes types with
  | nil => simp [trimColumns, pure, Except.pure] at h
  | cons c columns ih =>
    cases sizes with
    | nil => simp [trimColumns, pure, Except.pure] at h
    | cons n sizes =>
      cases types with
      | nil => simp [trimColumns, pure, Except.pure] at h
      | cons type types =>
        rw [trimColumns_cons] at h
        split at h
        · obtain rfl := Except.error.inj h
          rfl
        · split at h
          · obtain rfl := Except.error.inj h
            rfl
          · cases hr : trimColumns (index + 1) columns sizes types with
            | error e' =>
              rw [hr] at h
              obtain rfl := Except.error.inj h
              exact ih hr
            | ok rest => simp [hr, Except.map] at h

theorem checkFrame_eq_ok :
    d.checkFrame f = .ok columns ↔
      f.Conforms d.schema ∧ columns = f.trimmed := by
  have hsize : d.schema.size = d.schema.types.length := d.schema.length_eq
  unfold checkFrame
  split
  · next hne =>
    simp only [reduceCtorEq, false_iff, not_and]
    intro hc
    exact absurd (by rw [hsize, ← hc.types, List.length_map]) hne
  · next hlen =>
    split
    · next hne =>
      simp only [reduceCtorEq, false_iff, not_and]
      intro hc
      exact absurd hc.count hne
    · next hcount =>
      rw [trimColumns_eq_ok (by omega) (by omega)]
      apply and_congr_left
      intro _
      exact ⟨fun h => ⟨h.1, by omega, h.2⟩, fun h => ⟨h.types, h.sizes⟩⟩

theorem checkFrame_error (h : d.checkFrame f = .error e) : e.blame = .frame := by
  unfold checkFrame at h
  split at h
  · obtain rfl := Except.error.inj h
    rfl
  · split at h
    · obtain rfl := Except.error.inj h
      rfl
    · exact trimColumns_error h

end Decoder

namespace Frame.SizesFit

variable {f : Frame}

theorem map_type_trimmed (h : f.SizesFit) :
    f.trimmed.map Column.type = f.columns.map Column.type := by
  obtain ⟨columns, sizes, _⟩ := f
  simp only [Frame.SizesFit] at h
  simp only [Frame.trimmed]
  induction h with
  | nil => rfl
  | cons _ _ ih => simp only [List.zipWith_cons_cons, List.map_cons, Column.type_trim, ih]

theorem map_size_trimmed (h : f.SizesFit) : f.trimmed.map Column.size = f.sizes := by
  obtain ⟨columns, sizes, _⟩ := f
  simp only [Frame.SizesFit] at h
  simp only [Frame.trimmed]
  induction h with
  | nil => rfl
  | cons hle _ ih =>
    simp only [List.zipWith_cons_cons, List.map_cons, Column.size_trim_of_le hle, ih]

end Frame.SizesFit

namespace Frame.Conforms

variable {f : Frame} {schema : Schema}

theorem sizesFit (h : f.Conforms schema) : f.SizesFit :=
  List.forall₂_iff_zip.2 ⟨h.count.symm, fun hx => h.sizes _ hx⟩

theorem length_columns (h : f.Conforms schema) : f.columns.length = schema.size := by
  rw [Schema.size, schema.length_eq, ← h.types, List.length_map]

theorem types_trimmed (h : f.Conforms schema) : f.trimmed.map Column.type = schema.types := by
  rw [h.sizesFit.map_type_trimmed, h.types]

theorem length_trimmed (h : f.Conforms schema) : f.trimmed.length = schema.size := by
  simp [Frame.trimmed, h.count, h.length_columns]

theorem length_cells (h : f.Conforms schema) : f.cells.length = schema.size := by
  simp [Frame.cells, h.count, h.length_columns]

end Frame.Conforms

theorem Frame.map_cells_trimmed (f : Frame) :
    f.trimmed.map (fun c => c.cells.toList) = f.cells := by
  rw [Frame.trimmed, List.map_zipWith, Frame.cells]
  simp only [Column.toList_trim]

end TickingTable
