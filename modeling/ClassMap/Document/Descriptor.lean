import ClassMap.Descriptor
import ClassMap.Xml.Writer

/-!
The descriptor document. It is sparse: an option that has its default value is left out, so the
attributes of an element are options from which the same descriptor can be read again.
-/

set_option autoImplicit false
set_option relaxedAutoImplicit false

namespace ClassMap

namespace Attributes

def text (key value : String) : List (String × String) :=
  [(key, value)]

def text? (key : String) : Option String → List (String × String)
  | some value => [(key, value)]
  | none => []

/-- A flag is written only if it differs from its default. -/
def flag (key : String) (value default : Bool) : List (String × String) :=
  if value = default then [] else [(key, if value then "true" else "false")]

def unsigned? (key : String) : Option UInt32 → List (String × String)
  | some n => [(key, n.toNat.repr)]
  | none => []

def signed? (key : String) : Option Int32 → List (String × String)
  | some n => [(key, n.toInt.repr)]
  | none => []

end Attributes

open Attributes

def documentationElements (documentation : Option String) : List Xml.Element :=
  documentation.toList.map (Xml.Element.line "documentation")

/-- What an update or deletion does is written only if it does anything. -/
def CascadeMode.attribute (mode : CascadeMode) (key : String) : List (String × String) :=
  match mode with
  | .none => []
  | mode => [(key, mode.text)]

namespace FieldDescriptor

def attributes (f : FieldDescriptor) : List (String × String) :=
  text "name" f.name ++
  text "column" f.column ++
  text "jdbc-type" f.jdbcType.name ++
  flag "primarykey" f.primaryKey false ++
  flag "nullable" f.nullable true ++
  flag "indexed" f.indexed false ++
  (if f.autoincrement = .none then [] else text "autoincrement" "true") ++
  text? "sequence-name" f.sequenceName ++
  flag "locking" f.locking false ++
  flag "update-lock" f.updateLock true ++
  flag "default-fetch" f.defaultFetch false ++
  text? "conversion" f.conversion ++
  unsigned? "length" f.length ++
  unsigned? "precision" f.precision ++
  unsigned? "scale" f.scale ++
  (if f.access = .readWrite then [] else text "access" f.access.text) ++
  signed? "id" f.id ++
  text? "default-value" f.defaultValue

def element (f : FieldDescriptor) : Xml.Element :=
  .withChildren "field-descriptor" f.attributes (documentationElements f.documentation)

end FieldDescriptor

namespace ReferenceDescriptor

def attributes (r : ReferenceDescriptor) : List (String × String) :=
  text "name" r.name ++
  text "class-ref" r.classRef ++
  flag "proxy" r.proxy false ++
  unsigned? "proxy-prefetching-limit" r.proxyPrefetchingLimit ++
  flag "refresh" r.refresh false ++
  flag "auto-retrieve" r.autoRetrieve true ++
  r.autoUpdate.attribute "auto-update" ++
  r.autoDelete.attribute "auto-delete" ++
  flag "otm-dependent" r.otmDependent false ++
  (if r.anonymous then text "access" AccessMode.anonymous.text else [])

def element (r : ReferenceDescriptor) : Xml.Element :=
  .block "reference-descriptor" r.attributes
    (documentationElements r.documentation ++
      r.foreignKeys.map fun key ↦ .empty "foreignkey" (text "field-ref" key))

end ReferenceDescriptor

namespace CollectionDescriptor

def attributes (c : CollectionDescriptor) : List (String × String) :=
  text "name" c.name ++
  text? "collection-class" c.collectionClass ++
  text "element-class-ref" c.elementClassRef ++
  text? "indirection-table" c.indirectionTable ++
  flag "proxy" c.proxy false ++
  unsigned? "proxy-prefetching-limit" c.proxyPrefetchingLimit ++
  flag "refresh" c.refresh false ++
  flag "auto-retrieve" c.autoRetrieve true ++
  c.autoUpdate.attribute "auto-update" ++
  c.autoDelete.attribute "auto-delete" ++
  flag "otm-dependent" c.otmDependent false

def keyElements (c : CollectionDescriptor) : List Xml.Element :=
  if c.isManyToMany then
    (c.foreignKeys.map fun key ↦ .empty "fk-pointing-to-this-class" (text "column" key)) ++
    (c.remoteForeignKeys.map fun key ↦
      .empty "fk-pointing-to-element-class" (text "column" key))
  else c.foreignKeys.map fun key ↦ .empty "inverse-foreignkey" (text "field-ref" key)

def element (c : CollectionDescriptor) : Xml.Element :=
  .block "collection-descriptor" c.attributes
    (documentationElements c.documentation ++
      (c.orderBy.map fun entry ↦ .empty "orderby"
        (text "name" entry.field ++ text "sort" (if entry.descending then "DESC" else "ASC"))) ++
      c.keyElements ++
      c.queryCustomizer.toList.map fun customizer ↦
        .empty "query-customizer" (text "class" customizer))

end CollectionDescriptor

def Association.element : Association → Xml.Element
  | reference d => d.element
  | collection d => d.element

def ArgumentValue.element : ArgumentValue → Xml.Element
  | runtime fieldRef isReturn =>
    .empty "runtime-argument" (text? "field-ref" fieldRef ++ flag "return" isReturn false)
  | constant value => .empty "constant-argument" (text "value" value)

namespace ProcedureDescriptor

def attributes (p : ProcedureDescriptor) : List (String × String) :=
  text "name" p.name ++
  text? "return-field-ref" p.returnFieldRef ++
  match p.kind with
  | .insert | .update => flag "include-all-fields" p.includeAllFields false
  | .delete => flag "include-pk-only" p.includePkOnly false

def element (p : ProcedureDescriptor) : Xml.Element :=
  .withChildren p.kind.elementName p.attributes
    (documentationElements p.documentation ++ p.arguments.map (·.element))

end ProcedureDescriptor

namespace ClassDescriptor

def attributes (c : ClassDescriptor) : List (String × String) :=
  text "class" c.name ++
  text? "table" c.table ++
  text? "row-reader" c.rowReader ++
  text? "proxy" c.proxy ++
  unsigned? "proxy-prefetching-limit" c.proxyPrefetchingLimit ++
  text? "isolation-level" (c.isolationLevel.map (·.text)) ++
  flag "refresh" c.refresh false

def element (c : ClassDescriptor) : Xml.Element :=
  .withChildren "class-descriptor" c.attributes
    (documentationElements c.documentation ++
      (c.extents.map fun extent ↦ .empty "extent-class" (text "class-ref" extent)) ++
      c.fields.map (·.element) ++
      c.associations.map (·.element) ++
      c.procedures.map (·.element))

end ClassDescriptor

def Repository.descriptorDocument (r : Repository) : String :=
  Xml.Element.document (.block "descriptor-repository" [] (r.classes.map (·.element)))

end ClassMap
