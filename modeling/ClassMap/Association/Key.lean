import ClassMap.Schema.Change
import ClassMap.Scope

/-!
Keys of associations: lists of fields or columns that are matched, one by one, with the primary
key they lead to.
-/

set_option autoImplicit false
set_option relaxedAutoImplicit false

namespace ClassMap

/-- A key has as many entries as the primary key. -/
def checkArity (className member : String) (keys : KeyList) (count primaryKeys : Nat) :
    Except MappingError Unit :=
  if count = primaryKeys then .ok ()
  else .error ⟨className, .arity member keys count primaryKeys⟩

/-- Entries that are matched have the same column type. -/
def checkKeyTypes (className member : String) (matched : List (FieldDescriptor × FieldDescriptor)) :
    Except MappingError Unit :=
  matched.forM fun (key, primaryKey) ↦
    if key.jdbcType = primaryKey.jdbcType then .ok ()
    else .error ⟨className, .keyType member key.name key.jdbcType primaryKey.name
      primaryKey.declaredIn primaryKey.jdbcType⟩

def checkKeyMatch (className member : String) (keys primaryKeys : List FieldDescriptor) :
    Except MappingError Unit := do
  checkArity className member .foreignKey keys.length primaryKeys.length
  checkKeyTypes className member (keys.zip primaryKeys)

/-- The constraint that fields of one table refer to the primary key of another. -/
def ForeignKey.ofFields (foreignTable : String) (keys primaryKeys : List FieldDescriptor) :
    ForeignKey where
  foreignTable := foreignTable
  references := (keys.zip primaryKeys).map fun (key, primaryKey) ↦ (key.column, primaryKey.column)

/-- The constraint that columns of a join table refer to the primary key of another table. -/
def ForeignKey.ofColumns (foreignTable : String) (columns : List String)
    (primaryKeys : List FieldDescriptor) : ForeignKey where
  foreignTable := foreignTable
  references := (columns.zip primaryKeys).map fun (column, primaryKey) ↦
    (column, primaryKey.column)

/-- A column of a join table, with the type of the primary key it leads to. -/
def FieldDescriptor.joinColumn (primaryKey : FieldDescriptor) (name : String) (isKey : Bool) :
    Column where
  name := name
  jdbcType := primaryKey.jdbcType
  size := primaryKey.columnSize
  primaryKey := isKey
  required := isKey

end ClassMap
