import ClassMap.Error

/-!
The physical schema: tables with their columns, foreign keys and indices, in the order in which
they first appear. Names are looked up without regard to the case of `A` to `Z`.
-/

set_option autoImplicit false
set_option relaxedAutoImplicit false

namespace ClassMap

structure Column where
  name : String
  jdbcType : JdbcType
  size : Option String := none
  primaryKey : Bool := false
  required : Bool := false
  autoIncrement : Bool := false
  defaultValue : Option String := none
  description : Option String := none
deriving DecidableEq, Repr

def Column.type (c : Column) : ColumnType :=
  ⟨c.jdbcType, c.size⟩

/-- A constraint of the table that holds it; the pairs are the local and the foreign column. -/
structure ForeignKey where
  foreignTable : String
  references : List (String × String)
deriving DecidableEq, Repr

structure Index where
  name : String
  unique : Bool
  columns : List String
deriving DecidableEq, Repr

structure Table where
  name : String
  columns : List Column := []
  foreignKeys : List ForeignKey := []
  indices : List Index := []
  description : Option String := none
deriving DecidableEq, Repr

def Table.column? (t : Table) (name : String) : Option Column :=
  let key := Text.foldLatin name
  t.columns.find? fun c ↦ Text.foldLatin c.name == key

structure Schema where
  databaseName : String
  tables : List Table
deriving DecidableEq, Repr

def Schema.table? (s : Schema) (name : String) : Option Table :=
  let key := Text.foldLatin name
  s.tables.find? fun t ↦ Text.foldLatin t.name == key

end ClassMap
