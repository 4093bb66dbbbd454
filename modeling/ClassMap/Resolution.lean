import ClassMap.Association.Collection
import ClassMap.Procedure

/-!
Resolution of a set of class declarations: the persistent classes and their extents, the effective
members of every class, the fields and tables of the persistent ones, and last their associations
and procedures. The first error ends it, and then there is no result at all.
-/

set_option autoImplicit false
set_option relaxedAutoImplicit false

namespace ClassMap

namespace Scope

/-- Everything associations can look at, with the fields of each persistent class built. -/
def build (h : Hierarchy) (checks : ChecksMode) : Except MappingError Scope := do
  let classes ← h.persistentClasses
  let members ← h.memberTable
  let fields ← classes.mapM fun p ↦ do
    let effective := (members.lookup p.decl.name).getD {}
    return (p.decl.name, ← effective.fields.mapM (FieldDescriptor.build p.decl.name))
  return { hierarchy := h, checks, classes, members, fields }

/-- The column of a field, followed by its index if it has one. -/
def fieldChanges (className table : String) (f : FieldDescriptor) : List SchemaChange :=
  .column table f.toColumn className ::
    if f.indexed then
      [.index table ⟨table ++ "_" ++ f.column ++ "_IDX", false, [f.column]⟩ className]
    else []

/-- The index that a tag declares. -/
def index (s : Scope) (c : ClassDecl) (tag : Tag) : Except MappingError Index := do
  let options ← IndexOptions.parse c.name tag
  let columns ← options.fields.mapM fun name ↦ do
    return (← s.field c name (.indexed options.name)).column
  return { name := options.name, unique := options.unique, columns }

/-- Adds the index of a tag to the table of its class. -/
def addIndex (s : Scope) (c : ClassDecl) (table : String) (tables : List Table) (tag : Tag) :
    Except MappingError (List Table) := do
  SchemaChange.apply tables (.index table (← s.index c tag) c.name)

/-- The table of a class with the columns of its fields, as far as they can be had without its
index tags. -/
def columnChanges (s : Scope) (c : ClassDecl) (table : String) : List SchemaChange :=
  .table table c.options.tableDocumentation ::
    (s.fieldsOf c).flatMap (fieldChanges c.name table)

/-- Adds the table of a class, if it has one. -/
def addTable (s : Scope) (tables : List Table) (p : PersistentClass) :
    Except MappingError (List Table) :=
  match s.tableOf p.decl with
  | none => .ok tables
  | some table => do
    let tables ← SchemaChange.applyAll tables (s.columnChanges p.decl table)
    (p.decl.tagsNamed TagName.index).foldlM (s.addIndex p.decl table) tables

/-- An association and the schema with what it adds. -/
def resolveAssociation (s : Scope) (c : ClassDecl) (tables : List Table)
    (a : EffectiveAssociation) : Except MappingError (Association × List Table) :=
  if a.isCollection then do
    let (descriptor, tables) ← s.resolveCollection tables c a
    return (.collection descriptor, tables)
  else do
    let (descriptor, changes) ← s.resolveReference c a
    return (.reference descriptor, ← SchemaChange.applyAll tables changes)

/-- The associations of a class, one after the other. -/
def resolveAssociations (s : Scope) (c : ClassDecl) :
    List Table → List EffectiveAssociation → Except MappingError (List Association × List Table)
  | tables, [] => .ok ([], tables)
  | tables, a :: rest => do
    let (first, tables) ← s.resolveAssociation c tables a
    let (others, tables) ← s.resolveAssociations c tables rest
    return (first :: others, tables)

def describe (s : Scope) (p : PersistentClass) (associations : List Association)
    (procedures : List ProcedureDescriptor) : ClassDescriptor :=
  let c := p.decl
  let options := c.options
  { name := c.name
    isInterface := c.isInterface
    table := s.tableOf c
    extents := p.extents.map (·.name)
    fields := s.fieldsOf c
    associations
    procedures
    documentation := options.documentation
    tableDocumentation := options.tableDocumentation
    rowReader := options.rowReader
    refresh := options.refresh
    isolationLevel := options.isolationLevel
    proxy := options.proxy
    proxyPrefetchingLimit := options.proxyPrefetchingLimit }

def resolveClass (s : Scope) (tables : List Table) (p : PersistentClass) :
    Except MappingError (ClassDescriptor × List Table) := do
  let (associations, tables) ←
    s.resolveAssociations p.decl tables (s.membersOf p.decl).associations
  let procedures ← s.procedures p.decl
  return (s.describe p associations procedures, tables)

def resolveClasses (s : Scope) :
    List Table → List PersistentClass → Except MappingError (List ClassDescriptor × List Table)
  | tables, [] => .ok ([], tables)
  | tables, p :: rest => do
    let (first, tables) ← s.resolveClass tables p
    let (others, tables) ← s.resolveClasses tables rest
    return (first :: others, tables)

end Scope

/-- The mapping of a hierarchy. -/
def Hierarchy.resolve (h : Hierarchy) (checks : ChecksMode) (databaseName : String) :
    Except MappingError Repository := do
  let s ← Scope.build h checks
  let tables ← s.classes.foldlM s.addTable []
  let (classes, tables) ← s.resolveClasses tables s.classes
  return { classes, schema := { databaseName, tables } }

/-- The mapping of a list of declarations. -/
def resolveDeclarations (decls : List ClassDecl) (checks : ChecksMode) (databaseName : String) :
    Except MappingError Repository := do
  (← Hierarchy.ofDeclarations decls).resolve checks databaseName

end ClassMap
