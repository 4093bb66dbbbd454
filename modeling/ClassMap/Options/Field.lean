import ClassMap.Options.Reader

/-!
Options of the tag that maps a member to a column.
-/

set_option autoImplicit false
set_option relaxedAutoImplicit false

namespace ClassMap

structure FieldOptions where
  column : Option String := none
  jdbcType : Option JdbcType := none
  primaryKey : Bool := false
  nullable : Bool := true
  autoincrement : AutoIncrement := .none
  sequenceName : Option String := none
  locking : Bool := false
  updateLock : Bool := true
  defaultFetch : Bool := false
  conversion : Option String := none
  length : Option UInt32 := none
  precision : Option UInt32 := none
  scale : Option UInt32 := none
  access : Option AccessMode := none
  id : Option Int32 := none
  indexed : Bool := false
  defaultValue : Option String := none
  documentation : Option String := none
  columnDocumentation : Option String := none
deriving DecidableEq, Repr

namespace FieldOptions

def keys : List String :=
  ["name", "column", "jdbc-type", "primarykey", "nullable", "autoincrement", "sequence-name",
    "locking", "update-lock", "default-fetch", "conversion", "length", "precision", "scale",
    "access", "id", "indexed", "default-value", "documentation", "column-documentation"]

def parse (className : String) (tag : Tag) : Except MappingError FieldOptions := do
  let r : TagReader := ⟨className, tag⟩
  return {
    column := r.text? "column"
    jdbcType := ← r.parsed? "jdbc-type" TagReader.parseJdbcType
    primaryKey := ← r.flag "primarykey" false
    nullable := ← r.flag "nullable" true
    autoincrement := (← r.parsed? "autoincrement" AutoIncrement.parse).getD .none
    sequenceName := r.text? "sequence-name"
    locking := ← r.flag "locking" false
    updateLock := ← r.flag "update-lock" true
    defaultFetch := ← r.flag "default-fetch" false
    conversion := r.text? "conversion"
    length := ← r.unsigned? "length"
    precision := ← r.unsigned? "precision"
    scale := ← r.unsigned? "scale"
    access := ← r.parsed? "access" AccessMode.parse
    id := ← r.signed? "id"
    indexed := ← r.flag "indexed" false
    defaultValue := r.text? "default-value"
    documentation := r.text? "documentation"
    columnDocumentation := r.text? "column-documentation" }

end FieldOptions

end ClassMap
