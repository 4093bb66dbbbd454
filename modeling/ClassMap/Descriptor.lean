import ClassMap.Options.Table
import ClassMap.Schema.Basic

/-!
The resolved mapping: a descriptor of each persistent class, and the schema of the tables they
are stored in.
-/

set_option autoImplicit false
set_option relaxedAutoImplicit false

namespace ClassMap

structure FieldDescriptor where
  name : String
  /-- The class whose declaration made the field. -/
  declaredIn : String
  column : String
  jdbcType : JdbcType
  primaryKey : Bool
  nullable : Bool
  autoincrement : AutoIncrement
  sequenceName : Option String
  locking : Bool
  updateLock : Bool
  defaultFetch : Bool
  conversion : Option String
  length : Option UInt32
  precision : Option UInt32
  scale : Option UInt32
  access : AccessMode
  id : Option Int32
  indexed : Bool
  defaultValue : Option String
  documentation : Option String
  columnDocumentation : Option String
deriving DecidableEq, Repr

def FieldDescriptor.isAnonymous (f : FieldDescriptor) : Bool :=
  f.access == .anonymous

structure ReferenceDescriptor where
  name : String
  declaredIn : String
  classRef : String
  foreignKeys : List String
  databaseForeignKey : Bool
  anonymous : Bool
  autoRetrieve : Bool
  autoUpdate : CascadeMode
  autoDelete : CascadeMode
  otmDependent : Bool
  proxy : Bool
  proxyPrefetchingLimit : Option UInt32
  refresh : Bool
  documentation : Option String
deriving DecidableEq, Repr

structure CollectionDescriptor where
  name : String
  declaredIn : String
  elementClassRef : String
  collectionClass : Option String
  /-- Fields of the element class, or columns of the join table that lead to the owner. -/
  foreignKeys : List String
  /-- Columns of the join table that lead to the elements. -/
  remoteForeignKeys : List String
  indirectionTable : Option String
  orderBy : List OrderBy
  queryCustomizer : Option String
  databaseForeignKey : Bool
  autoRetrieve : Bool
  autoUpdate : CascadeMode
  autoDelete : CascadeMode
  otmDependent : Bool
  proxy : Bool
  proxyPrefetchingLimit : Option UInt32
  refresh : Bool
  documentation : Option String
deriving DecidableEq, Repr

def CollectionDescriptor.isManyToMany (c : CollectionDescriptor) : Bool :=
  c.indirectionTable.isSome

inductive Association where
  | reference (descriptor : ReferenceDescriptor)
  | collection (descriptor : CollectionDescriptor)
deriving DecidableEq, Repr

namespace Association

def name : Association → String
  | reference d => d.name
  | collection d => d.name

def reference? : Association → Option ReferenceDescriptor
  | reference d => some d
  | collection _ => none

def collection? : Association → Option CollectionDescriptor
  | reference _ => none
  | collection d => some d

end Association

inductive ProcedureKind where
  | insert
  | update
  | delete
deriving DecidableEq, Repr

namespace ProcedureKind

def elementName : ProcedureKind → String
  | insert => "insert-procedure"
  | update => "update-procedure"
  | delete => "delete-procedure"

def ofTagName? (name : String) : Option ProcedureKind :=
  if name = TagName.insertProcedure then some .insert
  else if name = TagName.updateProcedure then some .update
  else if name = TagName.deleteProcedure then some .delete
  else none

end ProcedureKind

structure ProcedureDescriptor where
  kind : ProcedureKind
  name : String
  returnFieldRef : Option String
  includeAllFields : Bool
  includePkOnly : Bool
  arguments : List ArgumentValue
  documentation : Option String
deriving DecidableEq, Repr

structure ClassDescriptor where
  name : String
  isInterface : Bool
  /-- A class without table information has none. -/
  table : Option String
  extents : List String
  fields : List FieldDescriptor
  associations : List Association
  procedures : List ProcedureDescriptor
  documentation : Option String
  tableDocumentation : Option String
  rowReader : Option String
  refresh : Bool
  isolationLevel : Option IsolationLevel
  proxy : Option String
  proxyPrefetchingLimit : Option UInt32
deriving DecidableEq, Repr

namespace ClassDescriptor

def field? (c : ClassDescriptor) (name : String) : Option FieldDescriptor :=
  c.fields.find? (·.name == name)

def primaryKeys (c : ClassDescriptor) : List FieldDescriptor :=
  c.fields.filter (·.primaryKey)

def references (c : ClassDescriptor) : List ReferenceDescriptor :=
  c.associations.filterMap Association.reference?

def collections (c : ClassDescriptor) : List CollectionDescriptor :=
  c.associations.filterMap Association.collection?

def reference? (c : ClassDescriptor) (name : String) : Option ReferenceDescriptor :=
  c.references.find? (·.name == name)

def collection? (c : ClassDescriptor) (name : String) : Option CollectionDescriptor :=
  c.collections.find? (·.name == name)

end ClassDescriptor

/-- Everything there is to know about the mapping of a set of classes. -/
structure Repository where
  classes : List ClassDescriptor
  schema : Schema
deriving DecidableEq, Repr

def Repository.find? (r : Repository) (name : String) : Option ClassDescriptor :=
  r.classes.find? (·.name == name)

end ClassMap
