import ClassMap.Field
import ClassMap.Members.Table

/-!
What the resolution of associations and procedures can look at: the hierarchy, its persistent
classes with their extents, and the members and fields of each.
-/

set_option autoImplicit false
set_option relaxedAutoImplicit false

namespace ClassMap

structure Scope where
  hierarchy : Hierarchy
  checks : ChecksMode
  classes : List PersistentClass
  members : MemberTable
  fields : List (String × List FieldDescriptor)

namespace Scope

def membersOf (s : Scope) (c : ClassDecl) : EffectiveMembers :=
  (s.members.lookup c.name).getD {}

def fieldsOf (s : Scope) (c : ClassDecl) : List FieldDescriptor :=
  (s.fields.lookup c.name).getD []

def extentsOf (s : Scope) (c : ClassDecl) : List ClassDecl :=
  match s.classes.find? (·.decl == c) with
  | some p => p.extents
  | none => []

def isPersistent (s : Scope) (c : ClassDecl) : Bool :=
  s.classes.any (·.decl == c)

def tableOf (s : Scope) (c : ClassDecl) : Option String :=
  if s.isPersistent c && c.options.generateTableInfo then
    some (c.options.table.getD (simpleName c.name))
  else none

def primaryKeys (s : Scope) (c : ClassDecl) : List FieldDescriptor :=
  (s.fieldsOf c).filter (·.primaryKey)

def field (s : Scope) (c : ClassDecl) (name : String) (use : FieldUse) :
    Except MappingError FieldDescriptor :=
  findField c.name (s.fieldsOf c) (s.membersOf c) name use

/-- The persistent class of that name; errors are reported for the class that names it. -/
def persistentClass (s : Scope) (className target : String) (use : ClassUse) :
    Except MappingError ClassDecl :=
  match s.hierarchy.find? target with
  | some c =>
    if s.isPersistent c then .ok c else .error ⟨className, .unresolvedClass target use⟩
  | none => .error ⟨className, .unresolvedClass target use⟩

/-- The tables that objects of a class and of its extents are stored in. -/
def tablesOf (s : Scope) (c : ClassDecl) : List String :=
  (c :: s.extentsOf c).filterMap s.tableOf

/-- The one table that objects of a class are stored in, whichever extent they belong to. -/
def uniformTable (s : Scope) (c : ClassDecl) : Option String :=
  match s.tablesOf c with
  | [] => none
  | first :: others => if others.all (Text.sameName · first) then some first else none

/-- Whether a class makes the constraints of one of its associations: the class that declares it
does, or each class that has it if the declaring one is not persistent. -/
def ownsConstraints (s : Scope) (c : ClassDecl) (a : EffectiveAssociation) : Bool :=
  a.declaredIn == c.name || !s.classes.any (·.decl.name == a.declaredIn)

end Scope

end ClassMap
