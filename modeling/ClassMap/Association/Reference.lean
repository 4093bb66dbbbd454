import ClassMap.Association.Key
import ClassMap.Hierarchy.Assignable
import ClassMap.Options.Association

/-!
References: fields of the owner lead to the primary key of one other class.
-/

set_option autoImplicit false
set_option relaxedAutoImplicit false

namespace ClassMap

/-- The class name a declared type comes down to. -/
def EffectiveAssociation.rawType? (a : EffectiveAssociation) : Option String :=
  a.type.map fun type ↦ (MemberType.parse type).rawName

namespace Scope

/-- The name of the class a reference leads to: the one given, or else the declared type. -/
def targetName (c : ClassDecl) (a : EffectiveAssociation) (options : ReferenceOptions) :
    Except MappingError String :=
  match options.classRef <|> a.rawType? with
  | some name => .ok name
  | none => .error ⟨c.name, .invalidOption a.tag.name "class-ref" "" (.untargetedReference a.name)⟩

/-- A target that is given has to fit the declared type. -/
def checkTarget (s : Scope) (c : ClassDecl) (a : EffectiveAssociation)
    (options : ReferenceOptions) : Except MappingError Unit :=
  match s.checks, options.classRef, a.rawType? with
  | .strict, some target, some declared =>
    if s.hierarchy.areCompatible target declared then .ok ()
    else .error ⟨c.name, .incompatibleTarget a.name target declared⟩
  | _, _, _ => .ok ()

/-- A reference with what it adds to the schema. -/
def resolveReference (s : Scope) (c : ClassDecl) (a : EffectiveAssociation) :
    Except MappingError (ReferenceDescriptor × List SchemaChange) := do
  let options ← ReferenceOptions.parse c.name a.tag
  let name ← targetName c a options
  let target ← s.persistentClass c.name name (.target a.name)
  s.checkTarget c a options
  let keys ← options.foreignKeys.mapM fun key ↦ s.field c key (.referenceKey a.name)
  let primaryKeys := s.primaryKeys target
  checkKeyMatch c.name a.name keys primaryKeys
  let changes := match options.databaseForeignKey, s.tableOf c, s.uniformTable target with
    | true, some table, some foreign =>
      [SchemaChange.foreignKey table (.ofFields foreign keys primaryKeys)]
    | _, _, _ => []
  let descriptor := {
    name := a.name
    declaredIn := a.declaredIn
    classRef := name
    foreignKeys := options.foreignKeys
    databaseForeignKey := options.databaseForeignKey
    anonymous := a.type.isNone
    autoRetrieve := options.autoRetrieve
    autoUpdate := options.autoUpdate
    autoDelete := options.autoDelete
    otmDependent := options.otmDependent
    proxy := options.proxy
    proxyPrefetchingLimit := options.proxyPrefetchingLimit
    refresh := options.refresh
    documentation := options.documentation }
  return (descriptor, changes)

end Scope

end ClassMap
