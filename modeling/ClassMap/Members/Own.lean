import ClassMap.Hierarchy.Basic
import ClassMap.Members.Order
import ClassMap.Members.Patch
import ClassMap.MemberType

/-!
The members a class declares itself, with the fields of its nested members written out, and how
they join the inherited ones.
-/

set_option autoImplicit false
set_option relaxedAutoImplicit false

namespace ClassMap

/-- What has been declared by a class so far. -/
structure OwnMembers where
  fields : List EffectiveField := []
  associations : List EffectiveAssociation := []
deriving DecidableEq, Repr

/-- The text with every pair of colons made one underscore. -/
def flattenName (name : String) : String :=
  String.ofList (flatten name.toList)
where
  flatten : List Char → List Char
    | ':' :: ':' :: rest => '_' :: flatten rest
    | c :: rest => c :: flatten rest
    | [] => []

namespace EffectiveField

/-- The column a field has before any class inlines it. -/
def baseColumn (f : EffectiveField) : String :=
  match f.tag.get? "column" with
  | some column =>
    if (Text.trim column).isEmpty then f.defaultColumn.getD (flattenName f.name) else column
  | none => f.defaultColumn.getD (flattenName f.name)

/-- A field of the type of the nested member `owner`, as a field of the class around it. -/
def inlined (f : EffectiveField) (className owner : String) : EffectiveField where
  name := owner ++ nestedSeparator ++ f.name
  declaredIn := className
  type := f.type
  tag := f.tag.erase "column"
  defaultColumn := some (owner ++ "_" ++ f.baseColumn)

end EffectiveField

namespace OwnMembers

def addField (className : String) (own : OwnMembers) (f : EffectiveField) :
    Except MappingError OwnMembers :=
  if own.fields.any (·.name == f.name) then .error ⟨className, .duplicateField f.name⟩
  else .ok { own with fields := own.fields ++ [f] }

def addAssociation (className : String) (own : OwnMembers) (a : EffectiveAssociation) :
    Except MappingError OwnMembers :=
  if own.associations.any (·.name == a.name) then .error ⟨className, .duplicateAssociation a.name⟩
  else .ok { own with associations := own.associations ++ [a] }

end OwnMembers

/-- What a mapping of a class adds to it: a member, or the fields of another class. -/
inductive Contribution where
  | field (f : EffectiveField)
  | association (a : EffectiveAssociation)
  | nested (name : String) (inner : ClassDecl)
deriving DecidableEq, Repr

namespace Hierarchy

/-- The class whose fields a nested member takes in. -/
def nestedClass (h : Hierarchy) (c : ClassDecl) (d : DeclaredMapping) :
    Except MappingError ClassDecl :=
  let typeName := (MemberType.parse (d.type?.getD "")).rawName
  match h.find? typeName with
  | some inner => .ok inner
  | none => .error ⟨c.name, .unresolvedNested typeName (Text.trim d.name)⟩

def contribution (h : Hierarchy) (c : ClassDecl) (d : DeclaredMapping) :
    Except MappingError Contribution := do
  let name := Text.trim d.name
  if name.isEmpty then
    throw ⟨c.name, .invalidOption d.tag.name "name" "" .nameless⟩
  let type := d.type?
  match d.kind with
  | .field => return .field ⟨name, c.name, type, d.tag, none⟩
  | .reference => return .association ⟨name, false, c.name, type, d.tag⟩
  | .collection => return .association ⟨name, true, c.name, type, d.tag⟩
  | .nested => return .nested name (← h.nestedClass c d)

end Hierarchy

namespace EffectiveMembers

/-- Own members replace inherited ones of their name and come after the others. -/
def override (m : EffectiveMembers) (own : OwnMembers) : EffectiveMembers :=
  let ownField (name : String) := own.fields.any (·.name == name)
  let ownAssociation (name : String) := own.associations.any (·.name == name)
  { fields := m.fields.filter (!ownField ·.name) ++ own.fields
    associations := m.associations.filter (!ownAssociation ·.name) ++ own.associations
    suppressed := m.suppressed.filter fun name ↦ !ownField name && !ownAssociation name }

/-- The fields in the order of their ordering keys. -/
def orderFields (className : String) (m : EffectiveMembers) :
    Except MappingError EffectiveMembers := do
  let keyed ← m.fields.mapM fun f ↦ do
    let r : TagReader := ⟨className, f.tag⟩
    return (f, ← r.signed? "id")
  return { m with fields := orderByKeys keyed }

def applyInheritedPatches (c : ClassDecl) (m : EffectiveMembers) :
    Except MappingError EffectiveMembers :=
  (c.tagsNamed TagName.modifyInherited).foldlM (applyInheritedPatch c.name) m

def applyNestedPatches (c : ClassDecl) (m : EffectiveMembers) :
    Except MappingError EffectiveMembers :=
  (c.tagsNamed TagName.modifyNested).foldlM (applyNestedPatch c.name) m

/-- What a class makes of the patched inherited members and its own ones. -/
def complete (c : ClassDecl) (inherited : EffectiveMembers) (own : OwnMembers) :
    Except MappingError EffectiveMembers := do
  let m ← applyNestedPatches c (inherited.override own)
  m.orderFields c.name

end EffectiveMembers

namespace OwnMembers

/-- Adds the fields of the class that the nested member `name` takes in. -/
def addNested (className name : String) (own : OwnMembers) (inner : EffectiveMembers) :
    Except MappingError OwnMembers :=
  (inner.fields.map (·.inlined className name)).foldlM (addField className) own

end OwnMembers

end ClassMap
