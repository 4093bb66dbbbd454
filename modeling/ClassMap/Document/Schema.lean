import ClassMap.Document.Descriptor

/-!
The schema document: the tables with their columns, foreign keys and indices.
-/

set_option autoImplicit false
set_option relaxedAutoImplicit false

namespace ClassMap

open Attributes

def Column.element (c : Column) : Xml.Element :=
  .empty "column"
    (text "name" c.name ++
      text "type" c.jdbcType.name ++
      text? "size" c.size ++
      flag "primaryKey" c.primaryKey false ++
      flag "required" c.required false ++
      flag "autoIncrement" c.autoIncrement false ++
      text? "default" c.defaultValue ++
      text? "description" c.description)

def ForeignKey.element (k : ForeignKey) : Xml.Element :=
  .block "foreign-key" (text "foreignTable" k.foreignTable)
    (k.references.map fun (localColumn, foreignColumn) ↦
      .empty "reference" (text "local" localColumn ++ text "foreign" foreignColumn))

def Index.element (i : Index) : Xml.Element :=
  let (name, columnName) :=
    if i.unique then ("unique", "unique-column") else ("index", "index-column")
  .block name (text "name" i.name)
    (i.columns.map fun column ↦ .empty columnName (text "name" column))

def Table.element (t : Table) : Xml.Element :=
  .withChildren "table" (text "name" t.name ++ text? "description" t.description)
    (t.columns.map (·.element) ++ t.foreignKeys.map (·.element) ++ t.indices.map (·.element))

def Schema.document (s : Schema) : String :=
  Xml.Element.document (.block "database"
    (text "name" s.databaseName ++ text "defaultIdMethod" "none") (s.tables.map (·.element)))

end ClassMap
