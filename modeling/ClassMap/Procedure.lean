import ClassMap.Scope

/-!
Stored procedures of a class with their arguments. Both are the class's own and are not inherited;
an argument may be declared before or after the procedures that use it.
-/

set_option autoImplicit false
set_option relaxedAutoImplicit false

namespace ClassMap.Scope

/-- The argument that a tag declares, if it declares one. -/
def argument? (c : ClassDecl) (tag : Tag) : Except MappingError (Option ArgumentOptions) :=
  if tag.name = TagName.runtimeArgument then
    do return some (← ArgumentOptions.parseRuntime c.name tag)
  else if tag.name = TagName.constantArgument then
    do return some (← ArgumentOptions.parseConstant c.name tag)
  else .ok none

/-- A field that an argument is bound to has to be one of the class. -/
def checkArgument (s : Scope) (c : ClassDecl) (argument : ArgumentOptions) :
    Except MappingError Unit :=
  match argument.value with
  | .runtime (some field) _ => discard (s.field c field (.argument argument.name))
  | _ => .ok ()

/-- Adds the argument that a tag declares to those before it. -/
def addArgument (s : Scope) (c : ClassDecl) (arguments : List ArgumentOptions) (tag : Tag) :
    Except MappingError (List ArgumentOptions) := do
  match ← argument? c tag with
  | none => return arguments
  | some argument =>
    if arguments.any (·.name == argument.name) then
      throw ⟨c.name, .duplicateArgument argument.name⟩
    s.checkArgument c argument
    return arguments ++ [argument]

def arguments (s : Scope) (c : ClassDecl) : Except MappingError (List ArgumentOptions) :=
  c.tags.foldlM (s.addArgument c) []

def bindArgument (c : ClassDecl) (procedure : String) (arguments : List ArgumentOptions)
    (name : String) : Except MappingError ArgumentValue :=
  match arguments.find? (·.name == name) with
  | some argument => .ok argument.value
  | none => .error ⟨c.name, .unresolvedArgument name procedure⟩

/-- The procedure of a tag: all fields can be passed only to insert and update, and the primary
key alone only to delete. -/
def procedure (s : Scope) (c : ClassDecl) (arguments : List ArgumentOptions)
    (kind : ProcedureKind) (tag : Tag) : Except MappingError ProcedureDescriptor := do
  let options ← ProcedureOptions.parse c.name tag
  if let some field := options.returnFieldRef then
    discard (s.field c field (.returned options.name))
  let bound ← options.arguments.mapM (bindArgument c options.name arguments)
  return {
    kind
    name := options.name
    returnFieldRef := options.returnFieldRef
    includeAllFields := options.includeAllFields && kind != .delete
    includePkOnly := options.includePkOnly && kind == .delete
    arguments := bound
    documentation := options.documentation }

/-- The tags that declare procedures, with what each declares. -/
def procedureTags (c : ClassDecl) : List (ProcedureKind × Tag) :=
  c.tags.filterMap fun tag ↦ (ProcedureKind.ofTagName? tag.name).map fun kind ↦ (kind, tag)

def procedures (s : Scope) (c : ClassDecl) : Except MappingError (List ProcedureDescriptor) := do
  let arguments ← s.arguments c
  (procedureTags c).mapM fun (kind, tag) ↦ s.procedure c arguments kind tag

end ClassMap.Scope
