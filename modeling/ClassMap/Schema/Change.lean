import ClassMap.Schema.Basic

/-!
Changes that classes make to the schema. Classes may share a table: its columns are merged, and a
column that is declared twice has to agree on type and size. A table is found by the small form
of its name.
-/

set_option autoImplicit false
set_option relaxedAutoImplicit false

namespace ClassMap

namespace Column

/-- A second declaration of a column of the same type only ever adds to it. -/
def merge (present added : Column) : Column :=
  { present with
    primaryKey := present.primaryKey || added.primaryKey
    required := present.required || added.required
    autoIncrement := present.autoIncrement || added.autoIncrement
    defaultValue := present.defaultValue <|> added.defaultValue
    description := present.description <|> added.description }

end Column

namespace Table

/-- The first description given for a table stays. -/
def describe (t : Table) (description : Option String) : Table :=
  { t with description := t.description <|> description }

/-- The columns with the first one of that name replaced. -/
def mergeColumn (added : Column) : List Column → List Column
  | [] => []
  | c :: rest =>
    if Text.sameName c.name added.name then c.merge added :: rest else c :: mergeColumn added rest

def addColumn (t : Table) (added : Column) (owner : String) : Except MappingError Table :=
  match t.column? added.name with
  | none => .ok { t with columns := t.columns ++ [added] }
  | some present =>
    if present.type = added.type then .ok { t with columns := mergeColumn added t.columns }
    else .error ⟨owner, .columnClash added.name t.name present.type added.type⟩

/-- Whether two constraints say the same. -/
def sameConstraint (a b : ForeignKey) : Bool :=
  Text.sameName a.foreignTable b.foreignTable && a.references == b.references

def addForeignKey (t : Table) (added : ForeignKey) : Table :=
  if t.foreignKeys.any (sameConstraint · added) then t
  else { t with foreignKeys := t.foreignKeys ++ [added] }

/-- A second index of a name has to be the same index. -/
def addIndex (t : Table) (added : Index) (owner : String) : Except MappingError Table :=
  match t.indices.find? fun i ↦ Text.sameName i.name added.name with
  | none => .ok { t with indices := t.indices ++ [added] }
  | some present =>
    if present = added then .ok t else .error ⟨owner, .indexClash added.name t.name⟩

end Table

/-- One change to the schema; what can clash names the class it is made for. -/
inductive SchemaChange where
  | table (name : String) (description : Option String)
  | column (table : String) (column : Column) (owner : String)
  | foreignKey (table : String) (foreignKey : ForeignKey)
  | index (table : String) (index : Index) (owner : String)
deriving DecidableEq, Repr

namespace SchemaChange

def tableName : SchemaChange → String
  | table name _ => name
  | column name .. => name
  | foreignKey name _ => name
  | index name .. => name

def applyTo (t : Table) : SchemaChange → Except MappingError Table
  | table _ description => .ok (t.describe description)
  | column _ added owner => t.addColumn added owner
  | foreignKey _ added => .ok (t.addForeignKey added)
  | index _ added owner => t.addIndex added owner

/-- Changes the table of that name, which is added at the end if there is none. -/
def changeTable (name : String) (change : Table → Except MappingError Table) :
    List Table → Except MappingError (List Table)
  | [] => do return [← change { name }]
  | t :: rest =>
    if Text.lower t.name == Text.lower name then do return (← change t) :: rest
    else do return t :: (← changeTable name change rest)

def apply (tables : List Table) (c : SchemaChange) : Except MappingError (List Table) :=
  changeTable c.tableName c.applyTo tables

/-- Makes the changes one after the other, up to the first clash. -/
def applyAll (tables : List Table) (changes : List SchemaChange) :
    Except MappingError (List Table) :=
  changes.foldlM apply tables

end SchemaChange

end ClassMap
