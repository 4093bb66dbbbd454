import ClassMap.Resolution

/-!
Warnings: what a resolution passes over without failing. They are met on the way, so a resolution
that fails still has those met before the failure.
-/

set_option autoImplicit false
set_option relaxedAutoImplicit false

namespace ClassMap

inductive Warning where
  | unknownClassTag (className tag : String)
  | unknownMemberTag (className member tag : String)
  | unknownOption (className tag option : String)
  | unusedRemoteKeys (className collection : String)
deriving DecidableEq, Repr

namespace Warning

def message : Warning → String
  | unknownClassTag .. => "ignoring unknown class tag"
  | unknownMemberTag .. => "ignoring unknown member tag"
  | unknownOption .. => "ignoring unknown option"
  | unusedRemoteKeys .. =>
    "ignoring remote-foreignkey on a collection without indirection-table"

/-- What a warning is about, by name. -/
def details : Warning → List (String × String)
  | unknownClassTag className tag => [("class", className), ("tag", tag)]
  | unknownMemberTag className member tag =>
    [("class", className), ("member", member), ("tag", tag)]
  | unknownOption className tag option =>
    [("class", className), ("tag", tag), ("option", option)]
  | unusedRemoteKeys className collection =>
    [("class", className), ("collection", collection)]

/-- The tags of a class and its members that mean nothing. -/
def ofTags (c : ClassDecl) : List Warning :=
  ((c.tags.filter fun tag ↦ !TagName.onClasses.contains tag.name).map fun tag ↦
    unknownClassTag c.name tag.name) ++
  c.members.flatMap fun member ↦
    (member.tags.filter fun tag ↦ !TagName.onMembers.contains tag.name).map fun tag ↦
      unknownMemberTag c.name member.name tag.name

/-- The options of a tag that mean nothing. -/
def ofOptions (className : String) (tag : Tag) (known : List String) : List Warning :=
  (tag.unknownKeys known).map (unknownOption className tag.name)

end Warning

/-- A run that collects warnings and ends at the first error, keeping those met before. -/
abbrev Inspection := OptionT (StateM (List Warning))

namespace Inspection

def warn (warnings : List Warning) : Inspection Unit :=
  modify (· ++ warnings)

def attempt {α : Type} : Except MappingError α → Inspection α
  | .ok a => pure a
  | .error _ => failure

/-- Everything met in a run, each warning once. -/
def collect {α : Type} (run : Inspection α) : List Warning :=
  (run.run []).2.eraseDups

def inspectMarkers (h : Hierarchy) : Inspection Unit := do
  attempt h.checkAcyclic
  h.classes.forM fun c ↦ do
    if let some tag := c.marker? then
      warn (Warning.ofOptions c.name tag ClassOptions.keys)
    discard (attempt c.parseOptions)

def inspectFields (members : MemberTable) (p : PersistentClass) : Inspection Unit :=
  ((members.lookup p.decl.name).getD {}).fields.forM fun f ↦ do
    warn (Warning.ofOptions p.decl.name f.tag FieldOptions.keys)
    discard (attempt (FieldDescriptor.build p.decl.name f))

def inspectTable (s : Scope) (tables : List Table) (p : PersistentClass) :
    Inspection (List Table) :=
  match s.tableOf p.decl with
  | none => pure tables
  | some table => do
    let tables ← attempt (SchemaChange.applyAll tables (s.columnChanges p.decl table))
    (p.decl.tagsNamed TagName.index).foldlM
      (fun tables tag ↦ do
        warn (Warning.ofOptions p.decl.name tag IndexOptions.keys)
        attempt (s.addIndex p.decl table tables tag))
      tables

/-- The search for the other side of a collection reads the collections before it. -/
def inspectSharing (className joinTable : String) : List EffectiveAssociation → Inspection Unit
  | [] => pure ()
  | other :: rest => do
    warn (Warning.ofOptions className other.tag CollectionOptions.keys)
    let options ← attempt (CollectionOptions.parse className other.tag)
    match options.indirectionTable with
    | some table =>
      if Text.sameName table joinTable then pure () else inspectSharing className joinTable rest
    | none => inspectSharing className joinTable rest

def inspectCollection (s : Scope) (tables : List Table) (c : ClassDecl)
    (a : EffectiveAssociation) : Inspection (List Table) := do
  warn (Warning.ofOptions c.name a.tag CollectionOptions.keys)
  let options ← attempt (CollectionOptions.parse c.name a.tag)
  let element ← attempt (s.elementClass c a options)
  match options.indirectionTable with
  | none =>
    discard (attempt (s.inverseKeys c element a options))
    if !options.remoteForeignKeys.isEmpty then
      warn [.unusedRemoteKeys c.name a.name]
  | some joinTable => inspectSharing element.name joinTable (s.counterparts element a)
  return (← attempt (s.resolveCollection tables c a)).2

def inspectAssociation (s : Scope) (c : ClassDecl) (tables : List Table)
    (a : EffectiveAssociation) : Inspection (List Table) := do
  if a.isCollection then inspectCollection s tables c a
  else
    warn (Warning.ofOptions c.name a.tag ReferenceOptions.keys)
    return (← attempt (s.resolveAssociation c tables a)).2

def inspectProcedures (s : Scope) (c : ClassDecl) : Inspection Unit := do
  let arguments ← c.tags.foldlM
    (fun arguments tag ↦ do
      if tag.name = TagName.runtimeArgument then
        warn (Warning.ofOptions c.name tag ArgumentOptions.runtimeKeys)
      if tag.name = TagName.constantArgument then
        warn (Warning.ofOptions c.name tag ArgumentOptions.constantKeys)
      attempt (s.addArgument c arguments tag))
    []
  (Scope.procedureTags c).forM fun (kind, tag) ↦ do
    warn (Warning.ofOptions c.name tag ProcedureOptions.keys)
    discard (attempt (s.procedure c arguments kind tag))

def inspectClass (s : Scope) (tables : List Table) (p : PersistentClass) :
    Inspection (List Table) := do
  let tables ← (s.membersOf p.decl).associations.foldlM (inspectAssociation s p.decl) tables
  inspectProcedures s p.decl
  return tables

end Inspection

/-- The warnings of a resolution, in the order in which they are met. -/
def Hierarchy.warnings (h : Hierarchy) (checks : ChecksMode) : List Warning :=
  Inspection.collect do
    Inspection.warn (h.classes.flatMap Warning.ofTags)
    Inspection.inspectMarkers h
    let classes ← Inspection.attempt h.persistentClasses
    let members ← Inspection.attempt h.memberTable
    classes.forM (Inspection.inspectFields members)
    let s ← Inspection.attempt (Scope.build h checks)
    let tables ← classes.foldlM (Inspection.inspectTable s) []
    discard (classes.foldlM (Inspection.inspectClass s) tables)

end ClassMap
