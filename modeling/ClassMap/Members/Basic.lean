import ClassMap.Declaration

/-!
Effective members of a class: the fields and associations it has after inheritance, with the
names that were taken away on the way down. Options are still as they were written.
-/

set_option autoImplicit false
set_option relaxedAutoImplicit false

namespace ClassMap

structure EffectiveField where
  name : String
  /-- The class whose declaration made the field. -/
  declaredIn : String
  /-- An anonymous field has no type. -/
  type : Option String
  tag : Tag
  /-- The column to use when the options name none. -/
  defaultColumn : Option String
deriving DecidableEq, Repr

structure EffectiveAssociation where
  name : String
  isCollection : Bool
  declaredIn : String
  type : Option String
  tag : Tag
deriving DecidableEq, Repr

structure EffectiveMembers where
  fields : List EffectiveField := []
  associations : List EffectiveAssociation := []
  /-- Names taken away here or above. -/
  suppressed : List String := []
deriving DecidableEq, Repr

namespace EffectiveMembers

def hasField (m : EffectiveMembers) (name : String) : Bool :=
  m.fields.any (·.name == name)

def hasAssociation (m : EffectiveMembers) (name : String) : Bool :=
  m.associations.any (·.name == name)

def isSuppressed (m : EffectiveMembers) (name : String) : Bool :=
  m.suppressed.contains name

/-- Adds what a supertype has to offer; a name that is taken already keeps its meaning. -/
def inherit (m above : EffectiveMembers) : EffectiveMembers where
  fields := above.fields.foldl
    (fun fields f ↦ if fields.any (·.name == f.name) then fields else fields ++ [f]) m.fields
  associations := above.associations.foldl
    (fun associations a ↦
      if associations.any (·.name == a.name) then associations else associations ++ [a])
    m.associations
  suppressed := m.suppressed ++ above.suppressed.filter (!m.suppressed.contains ·)

/-- Takes a field away for good. -/
def suppressField (m : EffectiveMembers) (name : String) : EffectiveMembers :=
  { m with
    fields := m.fields.filter (·.name != name)
    suppressed := if m.suppressed.contains name then m.suppressed else m.suppressed ++ [name] }

/-- Takes an association away for good. -/
def suppressAssociation (m : EffectiveMembers) (name : String) : EffectiveMembers :=
  { m with
    associations := m.associations.filter (·.name != name)
    suppressed := if m.suppressed.contains name then m.suppressed else m.suppressed ++ [name] }

/-- Changes the options of a field. -/
def changeField (m : EffectiveMembers) (name : String) (change : Tag → Tag) :
    EffectiveMembers :=
  { m with fields := m.fields.map fun f ↦
      if f.name == name then { f with tag := change f.tag } else f }

/-- Changes the options of an association. -/
def changeAssociation (m : EffectiveMembers) (name : String) (change : Tag → Tag) :
    EffectiveMembers :=
  { m with associations := m.associations.map fun a ↦
      if a.name == name then { a with tag := change a.tag } else a }

end EffectiveMembers

end ClassMap
