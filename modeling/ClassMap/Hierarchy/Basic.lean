import ClassMap.Declaration
import ClassMap.Error
import ClassMap.Walk

/-!
The class hierarchy: declarations with pairwise different names, and the ways along their
supertypes. Names of supertypes are matched as they are written; a name that no class has is a
library type and leads nowhere.
-/

set_option autoImplicit false
set_option relaxedAutoImplicit false

namespace ClassMap

/-- The first name that occurs a second time. -/
def repeated? : List String → List String → Option String
  | _, [] => none
  | before, name :: rest =>
    if name ∈ before then some name else repeated? (name :: before) rest

theorem repeated?_eq_none_iff {before names : List String} :
    repeated? before names = none ↔ names.Nodup ∧ ∀ name ∈ names, name ∉ before := by
  induction names generalizing before with
  | nil => simp [repeated?]
  | cons name rest ih =>
    by_cases h : name ∈ before
    · simp [repeated?, h]
    · simp only [repeated?, h, if_false, ih, List.nodup_cons, List.mem_cons]
      constructor
      · rintro ⟨hn, hb⟩
        refine ⟨⟨fun hm ↦ hb name hm (Or.inl rfl), hn⟩, ?_⟩
        rintro other (rfl | hm)
        · exact h
        · exact fun hin ↦ hb other hm (Or.inr hin)
      · rintro ⟨⟨hname, hn⟩, hb⟩
        refine ⟨hn, ?_⟩
        rintro other hm (rfl | hin)
        · exact hname hm
        · exact hb other (Or.inr hm) hin

structure Hierarchy where
  classes : List ClassDecl
  nodup : (classes.map (·.name)).Nodup

namespace Hierarchy

def empty : Hierarchy :=
  ⟨[], List.nodup_nil⟩

/-- The declarations as a hierarchy, or the first name that is declared again. -/
def ofDeclarations (decls : List ClassDecl) : Except MappingError Hierarchy :=
  match h : repeated? [] (decls.map (·.name)) with
  | some name => .error ⟨name, .duplicateClass⟩
  | none => .ok ⟨decls, (repeated?_eq_none_iff.mp h).1⟩

/-- The class of exactly that name. -/
def declared? (h : Hierarchy) (name : String) : Option ClassDecl :=
  h.classes.find? (·.name == name)

/-- The class of that name, blanks around the name aside. -/
def find? (h : Hierarchy) (name : String) : Option ClassDecl :=
  h.declared? (Text.trim name)

def indexOf (h : Hierarchy) (c : ClassDecl) : Nat :=
  h.classes.findIdx (·.name == c.name)

/-- Enough steps to explore everything that supertypes lead to. -/
def depth (h : Hierarchy) : Nat :=
  h.classes.length + 1

/-- The declared classes among the supertypes of a class, in the order they are named. -/
def supertypes (h : Hierarchy) (c : ClassDecl) : List ClassDecl :=
  c.supertypeNames.filterMap h.declared?

/-- The classes that name `c` as a supertype, in declaration order. -/
def directSubtypes (h : Hierarchy) (c : ClassDecl) : List ClassDecl :=
  h.classes.filter fun d ↦ d.supertypeNames.contains c.name

/-- All declared classes above `c`, depth first, each once. -/
def supertypeChain (h : Hierarchy) (c : ClassDecl) : List ClassDecl :=
  (Walk.preorder h.supertypes h.depth c).tail

/-- All declared classes below `c`, depth first, each once. -/
def subtypeWalk (h : Hierarchy) (c : ClassDecl) : List ClassDecl :=
  (Walk.preorder h.directSubtypes h.depth c).tail

/-- Whether `sup` is `sub` or above it. -/
def isSubtype (h : Hierarchy) (sub sup : ClassDecl) : Bool :=
  sub == sup || (h.supertypeChain sub).contains sup

/-- A class that is above itself, if there is one. -/
def findSupertypeCycle? (h : Hierarchy) : Option ClassDecl :=
  Walk.findCycle? h.supertypes h.depth h.classes

theorem name_of_declared? {h : Hierarchy} {name : String} {c : ClassDecl}
    (hc : h.declared? name = some c) : c.name = name := by
  simpa using List.find?_some hc

theorem mem_of_declared? {h : Hierarchy} {name : String} {c : ClassDecl}
    (hc : h.declared? name = some c) : c ∈ h.classes :=
  List.mem_of_find?_eq_some hc

theorem mem_supertypes {h : Hierarchy} {c d : ClassDecl} (hd : d ∈ h.supertypes c) :
    d ∈ h.classes ∧ d.name ∈ c.supertypeNames := by
  obtain ⟨name, hname, hdecl⟩ := List.mem_filterMap.mp hd
  exact ⟨mem_of_declared? hdecl, name_of_declared? hdecl ▸ hname⟩

@[simp] theorem isSubtype_self (h : Hierarchy) (c : ClassDecl) : h.isSubtype c c = true := by
  simp [isSubtype]

end Hierarchy

end ClassMap
