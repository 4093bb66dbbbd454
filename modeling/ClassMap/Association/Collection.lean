import ClassMap.Association.Reference
import ClassMap.Container

/-!
Collections. Without an indirection table, fields of the element class lead back to the owner;
with one, a join table has columns for the primary keys of both sides, and two classes that share
it have to agree on its columns.
-/

set_option autoImplicit false
set_option relaxedAutoImplicit false

namespace ClassMap

/-- Whether two lists name the same columns in the same order. -/
def sameColumns (a b : List String) : Bool :=
  a.length == b.length && (a.zip b).all fun (x, y) ↦ Text.sameName x y

/-- The class name of the elements that a declared type speaks of. -/
def EffectiveAssociation.elementType? (a : EffectiveAssociation) : Option String :=
  a.type.bind fun type ↦ (MemberType.parse type).elementType?

namespace Scope

def elementName (c : ClassDecl) (a : EffectiveAssociation) (options : CollectionOptions) :
    Except MappingError String :=
  match options.elementClassRef <|> a.elementType? with
  | some name => .ok name
  | none => .error ⟨c.name, .unresolvedElement a.name⟩

/-- An element class that is given has to fit the declared element type. -/
def checkElement (s : Scope) (c : ClassDecl) (a : EffectiveAssociation)
    (options : CollectionOptions) : Except MappingError Unit :=
  match s.checks, options.elementClassRef, a.elementType? with
  | .strict, some element, some declared =>
    if s.hierarchy.areCompatible element declared then .ok ()
    else .error ⟨c.name, .incompatibleElement a.name element declared⟩
  | _, _, _ => .ok ()

/-- The declared container has to fit the class that holds the elements. -/
def checkContainer (s : Scope) (c : ClassDecl) (a : EffectiveAssociation)
    (options : CollectionOptions) : Except MappingError Unit :=
  match s.checks, a.type with
  | .strict, some type =>
    s.hierarchy.checkContainer c.name a.name type options.collectionClass
  | _, _ => .ok ()

/-- The element class of a collection, its types checked. -/
def elementClass (s : Scope) (c : ClassDecl) (a : EffectiveAssociation)
    (options : CollectionOptions) : Except MappingError ClassDecl := do
  let name ← elementName c a options
  let element ← s.persistentClass c.name name (.element a.name)
  s.checkElement c a options
  s.checkContainer c a options
  return element

/-- The constraint of a collection whose elements lead back to their owner. -/
def inverseKeys (s : Scope) (c element : ClassDecl) (a : EffectiveAssociation)
    (options : CollectionOptions) : Except MappingError (List SchemaChange) := do
  let keys ← options.foreignKeys.mapM fun key ↦ s.field element key (.inverseKey a.name c.name)
  let primaryKeys := s.primaryKeys c
  checkKeyMatch c.name a.name keys primaryKeys
  return match options.databaseForeignKey && s.ownsConstraints c a, s.tableOf element,
      s.uniformTable c with
    | true, some table, some foreign => [.foreignKey table (.ofFields foreign keys primaryKeys)]
    | _, _, _ => []

/-- The collections of the element class that may be the other side of `a`: all but `a` itself,
which the element class may have inherited. -/
def counterparts (s : Scope) (element : ClassDecl) (a : EffectiveAssociation) :
    List EffectiveAssociation :=
  (s.membersOf element).associations.filter fun other ↦
    other.isCollection && !(other.name == a.name && other.declaredIn == a.declaredIn)

/-- The first of some collections that uses the join table, if all before it can be read. -/
def findSharing (className joinTable : String) :
    List EffectiveAssociation → Except MappingError (Option CollectionOptions)
  | [] => .ok none
  | other :: rest => do
    let options ← CollectionOptions.parse className other.tag
    match options.indirectionTable with
    | some table =>
      if Text.sameName table joinTable then return some options
      else findSharing className joinTable rest
    | none => findSharing className joinTable rest

/-- The other side of a collection over a join table. -/
def findReciprocal (s : Scope) (element : ClassDecl) (a : EffectiveAssociation)
    (joinTable : String) : Except MappingError (Option CollectionOptions) :=
  findSharing element.name joinTable (s.counterparts element a)

/-- Whether the two sides name different columns for the same key. -/
def disagrees (options other : CollectionOptions) : Bool :=
  (!other.remoteForeignKeys.isEmpty && !sameColumns other.remoteForeignKeys options.foreignKeys) ||
    (!options.remoteForeignKeys.isEmpty &&
      !sameColumns options.remoteForeignKeys other.foreignKeys)

/-- The columns that lead to the elements: those given, or else those of the other side. -/
def remoteKeys (c element : ClassDecl) (a : EffectiveAssociation) (options : CollectionOptions)
    (joinTable : String) (reciprocal : Option CollectionOptions) :
    Except MappingError (List String) :=
  if !options.remoteForeignKeys.isEmpty then .ok options.remoteForeignKeys
  else match reciprocal with
    | some other => .ok other.foreignKeys
    | none => .error ⟨c.name, .unresolvedRemoteKeys joinTable a.name element.name⟩

def checkAgreement (c element : ClassDecl) (a : EffectiveAssociation)
    (options : CollectionOptions) (joinTable : String) :
    Option CollectionOptions → Except MappingError Unit
  | some other =>
    if disagrees options other then
      .error ⟨c.name, .joinColumnsDisagree a.name element.name joinTable⟩
    else .ok ()
  | none => .ok ()

/-- No column leads to both sides. -/
def checkDisjoint (c : ClassDecl) (a : EffectiveAssociation) (joinTable : String)
    (foreignKeys remoteForeignKeys : List String) : Except MappingError Unit :=
  match foreignKeys.find? fun key ↦ remoteForeignKeys.any (Text.sameName · key) with
  | some shared => .error ⟨c.name, .joinColumnShared shared joinTable a.name⟩
  | none => .ok ()

/-- The join table with its columns for the keys of both sides. -/
def joinTableChanges (c : ClassDecl) (options : CollectionOptions) (joinTable : String)
    (keys : List (String × FieldDescriptor)) : List SchemaChange :=
  .table joinTable options.indirectionTableDocumentation ::
    keys.map fun (column, primaryKey) ↦
      .column joinTable (primaryKey.joinColumn column options.indirectionTablePrimaryKeys) c.name

/-- The columns that lead to the elements, and what the join table adds to the schema. -/
def joinKeys (s : Scope) (c element : ClassDecl) (a : EffectiveAssociation)
    (options : CollectionOptions) (joinTable : String) :
    Except MappingError (List String × List SchemaChange) := do
  let reciprocal ← s.findReciprocal element a joinTable
  let remote ← remoteKeys c element a options joinTable reciprocal
  checkAgreement c element a options joinTable reciprocal
  checkDisjoint c a joinTable options.foreignKeys remote
  let ownerKeys := s.primaryKeys c
  let elementKeys := s.primaryKeys element
  checkArity c.name a.name .foreignKey options.foreignKeys.length ownerKeys.length
  checkArity c.name a.name .remoteForeignKey remote.length elementKeys.length
  let columns := joinTableChanges c options joinTable
    (options.foreignKeys.zip ownerKeys ++ remote.zip elementKeys)
  let constraints :=
    if options.databaseForeignKey && s.ownsConstraints c a then
      ((s.uniformTable c).toList.map fun table ↦
        .foreignKey joinTable (.ofColumns table options.foreignKeys ownerKeys)) ++
      ((s.uniformTable element).toList.map fun table ↦
        .foreignKey joinTable (.ofColumns table remote elementKeys))
    else []
  return (remote, columns ++ constraints)

/-- The keys of a collection: the columns that lead to the elements and the schema changes. -/
def collectionKeys (s : Scope) (c element : ClassDecl) (a : EffectiveAssociation)
    (options : CollectionOptions) : Except MappingError (List String × List SchemaChange) :=
  match options.indirectionTable with
  | none => do return ([], ← s.inverseKeys c element a options)
  | some joinTable => s.joinKeys c element a options joinTable

/-- Elements are ordered by fields they have. -/
def checkOrder (s : Scope) (element : ClassDecl) (a : EffectiveAssociation)
    (orderBy : List OrderBy) : Except MappingError Unit :=
  orderBy.forM fun entry ↦ discard (s.field element entry.field (.ordering a.name))

def collectionDescriptor (a : EffectiveAssociation) (options : CollectionOptions)
    (element : String) (remote : List String) : CollectionDescriptor where
  name := a.name
  declaredIn := a.declaredIn
  elementClassRef := element
  collectionClass := options.collectionClass
  foreignKeys := options.foreignKeys
  remoteForeignKeys := remote
  indirectionTable := options.indirectionTable
  orderBy := options.orderBy
  queryCustomizer := options.queryCustomizer
  databaseForeignKey := options.databaseForeignKey
  autoRetrieve := options.autoRetrieve
  autoUpdate := options.autoUpdate
  autoDelete := options.autoDelete
  otmDependent := options.otmDependent
  proxy := options.proxy
  proxyPrefetchingLimit := options.proxyPrefetchingLimit
  refresh := options.refresh
  documentation := options.documentation

/-- A collection and the schema with what it adds. The ordering is checked last, so a clash in
the schema is found before a bad ordering. -/
def resolveCollection (s : Scope) (tables : List Table) (c : ClassDecl)
    (a : EffectiveAssociation) : Except MappingError (CollectionDescriptor × List Table) := do
  let options ← CollectionOptions.parse c.name a.tag
  let element ← s.elementClass c a options
  let (remote, changes) ← s.collectionKeys c element a options
  let tables ← SchemaChange.applyAll tables changes
  s.checkOrder element a options.orderBy
  let name ← elementName c a options
  return (collectionDescriptor a options name remote, tables)

end Scope

end ClassMap
