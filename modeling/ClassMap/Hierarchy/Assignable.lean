import ClassMap.Hierarchy.Basic

/-!
Subtyping by name, from declared classes on into the library types. A declared class hides a
library type of its name.
-/

set_option autoImplicit false
set_option relaxedAutoImplicit false

namespace ClassMap.Hierarchy

/-- The supertypes of the class that a name stands for, as they are named. -/
def namesAbove (h : Hierarchy) (name : String) : List String :=
  match h.find? name with
  | some c => c.supertypeNames
  | none => []

/-- Every name that the declarations mention as a supertype. -/
def mentionedNames (h : Hierarchy) : List String :=
  h.classes.flatMap (·.supertypeNames)

/-- The names reached from `name` by going up through declared classes, itself first. -/
def namesFrom (h : Hierarchy) (name : String) : List String :=
  Walk.preorder h.namesAbove (h.mentionedNames.length + 2) name

/-- Whether a value of type `sub` can be used where `sup` is expected. -/
def isSubtypeName (h : Hierarchy) (sub sup : String) : Bool :=
  sup == LibraryType.object ||
    (h.namesFrom (Text.trim sub)).any fun name ↦
      name == sup || ((h.find? name).isNone && LibraryType.isSubtype name sup)

/-- Whether one of two types is a subtype of the other. -/
def areCompatible (h : Hierarchy) (a b : String) : Bool :=
  h.isSubtypeName a b || h.isSubtypeName b a

/-- Whether a type is declared or a library type. -/
def typeExists (h : Hierarchy) (name : String) : Bool :=
  (h.find? name).isSome || (LibraryType.find? (Text.trim name)).isSome

end ClassMap.Hierarchy
