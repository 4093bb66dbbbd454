import ClassMap.Hierarchy.Basic
import ClassMap.Options.Class

/-!
Which classes are persistent, which table each is stored in and which classes are its extents. A
class with a marker decides for itself; any other class is persistent if one above it has a
marker that enables persistence.
-/

set_option autoImplicit false
set_option relaxedAutoImplicit false

namespace ClassMap

namespace ClassDecl

/-- The tag that decides about the persistence of the class. -/
def marker? (c : ClassDecl) : Option Tag :=
  c.tag? TagName.classTag

def parseOptions (c : ClassDecl) : Except MappingError ClassOptions :=
  match c.marker? with
  | some tag => ClassOptions.parse c.name tag
  | none => .ok {}

/-- The options of a class whose marker can be read, and the defaults of any other. -/
def options (c : ClassDecl) : ClassOptions :=
  match c.parseOptions with
  | .ok options => options
  | .error _ => {}

/-- Whether the marker makes the classes below persistent as well. -/
def enablesPersistence (c : ClassDecl) : Bool :=
  c.marker?.isSome && c.options.generateRepositoryInfo

end ClassDecl

namespace Hierarchy

def isPersistent (h : Hierarchy) (c : ClassDecl) : Bool :=
  match c.marker? with
  | some _ => c.options.generateRepositoryInfo
  | none => (h.supertypeChain c).any (·.enablesPersistence)

/-- The table of a persistent class, by default named like the class itself. -/
def table? (h : Hierarchy) (c : ClassDecl) : Option String :=
  if h.isPersistent c && c.options.generateTableInfo then
    some (c.options.table.getD (simpleName c.name))
  else none

/-- Those of some classes that are below `c`, depth first; on the way there may be others. -/
def subtypesAmong (h : Hierarchy) (classes : List ClassDecl) (c : ClassDecl) : List ClassDecl :=
  (h.subtypeWalk c).filter classes.contains

/-- The class that an extent tag names: a persistent class below the one with the tag. -/
def explicitExtent (h : Hierarchy) (persistent : List ClassDecl) (c : ClassDecl) (tag : Tag) :
    Except MappingError ClassDecl := do
  let r : TagReader := ⟨c.name, tag⟩
  let target ← r.required "class-ref" "an extent class needs a class-ref"
  match h.find? target with
  | some d =>
    if d != c && persistent.contains d && h.isSubtype d c then return d
    else throw ⟨c.name, .unresolvedExtent target⟩
  | none => throw ⟨c.name, .unresolvedExtent target⟩

/-- The extents of a class, given the persistent ones: those found in the hierarchy, then those named
by its tags. -/
def extents (h : Hierarchy) (persistent : List ClassDecl) (c : ClassDecl) :
    Except MappingError (List ClassDecl) :=
  (c.tagsNamed TagName.extentClass).foldlM
    (fun found tag ↦ do
      let d ← h.explicitExtent persistent c tag
      return if found.contains d then found else found ++ [d])
    (if c.options.determineExtents then h.subtypesAmong persistent c else [])

end Hierarchy

/-- A persistent class with its extents. -/
structure PersistentClass where
  decl : ClassDecl
  extents : List ClassDecl
deriving DecidableEq, Repr

namespace Hierarchy

/-- Refuses a hierarchy in which a class is above itself. -/
def checkAcyclic (h : Hierarchy) : Except MappingError Unit :=
  match h.findSupertypeCycle? with
  | some c => .error ⟨c.name, .supertypeCycle⟩
  | none => .ok ()

/-- The persistent classes in declaration order. -/
def persistentClasses (h : Hierarchy) : Except MappingError (List PersistentClass) := do
  h.checkAcyclic
  h.classes.forM fun c ↦ discard c.parseOptions
  let persistent := h.classes.filter h.isPersistent
  persistent.mapM fun c ↦ do return ⟨c, ← h.extents persistent c⟩

end Hierarchy

end ClassMap
