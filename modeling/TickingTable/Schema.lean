import Std.Data.HashMap
import TickingTable.ElementType

/-! The columns of a table: distinct names with their types. -/

namespace TickingTable

inductive SchemaError where
  | lengthMismatch (names types : Nat)
  | duplicateColumn (name : String)
  | columnNotFound (name : String)
  | unsupportedFieldType (column : String) (type : Arrow.DataType)

def SchemaError.message : SchemaError → String
  | .lengthMismatch names types =>
    "sizes differ: " ++ toString names ++ " column names vs " ++ toString types ++ " column types"
  | .duplicateColumn name => "duplicate column name: '" ++ name ++ "'"
  | .columnNotFound name => "column name '" ++ name ++ "' not found"
  | .unsupportedFieldType column type =>
    "column '" ++ column ++ "' has unsupported type " ++ type.text

/-- Enters names into an index, the first at place `i`. A name that is there already is entered at its
new place before it is reported. -/
def Schema.fillIndex (index : Std.HashMap String Nat) (i : Nat) :
    List String → Except SchemaError (Std.HashMap String Nat)
  | [] => .ok index
  | name :: names =>
    let (repeated, index) := index.containsThenInsert name i
    if repeated then .error (.duplicateColumn name) else fillIndex index (i + 1) names

/-- The index tells the place of each name. -/
structure Schema where
  names : List String
  types : List ElementType
  index : Std.HashMap String Nat
  length_eq : names.length = types.length
  indexed : Schema.fillIndex ∅ 0 names = .ok index

namespace Schema

open Arrow

theorem eq_of_columns {s t : Schema} (hnames : s.names = t.names) (htypes : s.types = t.types) :
    s = t := by
  obtain ⟨names, types, index, hlength, hindexed⟩ := s
  obtain ⟨_, _, index', _, hindexed'⟩ := t
  subst hnames htypes
  obtain rfl : index = index' := Except.ok.inj (hindexed.symm.trans hindexed')
  rfl

/-- Names and types tell schemas apart, since the index goes by the names. -/
instance : DecidableEq Schema := fun s t =>
  decidable_of_iff (s.names = t.names ∧ s.types = t.types)
    ⟨fun h => eq_of_columns h.1 h.2, fun h => h ▸ ⟨rfl, rfl⟩⟩

def empty : Schema := ⟨[], [], ∅, rfl, rfl⟩

def create (names : List String) (types : List ElementType) : Except SchemaError Schema :=
  if hl : names.length = types.length then
    match hi : fillIndex ∅ 0 names with
    | .error e => .error e
    | .ok index => .ok ⟨names, types, index, hl, hi⟩
  else .error (.lengthMismatch names.length types.length)

/-- The type of the values in a field, which a stream sends in lists of one element. -/
def payloadType : DataType → DataType
  | .list item => item
  | .largeList item => item
  | type => type

def fieldType (name : String) (type : DataType) : Except SchemaError ElementType :=
  match ElementType.ofDataType? (payloadType type) with
  | some element => .ok element
  | none => .error (.unsupportedFieldType name type)

/-- The schema of a table whose server announces these names and array types. -/
def ofFields (fields : List (String × DataType)) : Except SchemaError Schema := do
  let types ← fields.mapM fun (name, type) => fieldType name type
  create (fields.map Prod.fst) types

def size (s : Schema) : Nat := s.names.length

/-- The place of a column. A strict search for a missing column is an error. -/
def columnIndex? (s : Schema) (name : String) (strict : Bool) : Except SchemaError (Option Nat) :=
  match s.index[name]? with
  | some i => .ok (some i)
  | none => if strict then .error (.columnNotFound name) else .ok none

end Schema
end TickingTable
