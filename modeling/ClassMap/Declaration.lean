import ClassMap.Tag
import ClassMap.Text.Pieces

/-!
Class declarations as they are handed in: a class or interface with its supertypes by name, its
tags and its members. Nothing is checked here.
-/

set_option autoImplicit false
set_option relaxedAutoImplicit false

namespace ClassMap

inductive ClassKind where
  | ordinary
  | interface
deriving DecidableEq, Repr

/-- A member of a class with the text of its declared type. -/
structure Member where
  name : String
  type : String
  tags : List Tag := []
deriving DecidableEq, Repr

def Member.tag? (member : Member) (name : String) : Option Tag :=
  member.tags.find? (·.name == name)

structure ClassDecl where
  name : String
  kind : ClassKind := .ordinary
  superclass : Option String := none
  interfaces : List String := []
  tags : List Tag := []
  members : List Member := []
deriving DecidableEq, Repr

/-- What a qualified name ends in, after its last dot or dollar sign. -/
def simpleName (qualified : String) : String :=
  String.ofList (qualified.toList.reverse.takeWhile fun c ↦ c != '.' && c != '$').reverse

/-- The stretches of a type list between its commas outside angle brackets. A closing bracket
without an opening one changes nothing. -/
def typeListPieces (depth : Nat) : List Char → List (List Char)
  | [] => [[]]
  | c :: rest =>
    if c == ',' && depth == 0 then [] :: typeListPieces depth rest
    else
      let depth := if c == '<' then depth + 1 else if c == '>' then depth - 1 else depth
      match typeListPieces depth rest with
      | piece :: others => (c :: piece) :: others
      | [] => [[c]]

/-- The entries of a comma-separated list of type names, generic arguments kept whole. -/
def splitTypeList (s : String) : List String :=
  (((typeListPieces 0 s.toList).map Text.trimBoth).filter (!·.isEmpty)).map String.ofList

namespace ClassDecl

def isInterface (c : ClassDecl) : Bool :=
  c.kind == .interface

/-- Superclass first, then the interfaces in their order. -/
def supertypeNames (c : ClassDecl) : List String :=
  c.superclass.toList ++ c.interfaces

def tag? (c : ClassDecl) (name : String) : Option Tag :=
  c.tags.find? (·.name == name)

def tagsNamed (c : ClassDecl) (name : String) : List Tag :=
  c.tags.filter (·.name == name)

end ClassDecl

/-- What a mapping tag declares. -/
inductive MappingKind where
  | field
  | reference
  | collection
  | nested
deriving DecidableEq, Repr

namespace MappingKind

def ofTagName? (name : String) : Option MappingKind :=
  if name = TagName.field then some .field
  else if name = TagName.reference then some .reference
  else if name = TagName.collection then some .collection
  else if name = TagName.nested then some .nested
  else none

def label : MappingKind → String
  | .field => "field"
  | .reference => "reference"
  | .collection => "collection"
  | .nested => "nested object"

/-- Only fields and references may be declared on the class itself. -/
def allowedOnClass : MappingKind → Bool
  | .field | .reference => true
  | .collection | .nested => false

def isAssociation : MappingKind → Bool
  | .reference | .collection => true
  | .field | .nested => false

end MappingKind

/-- One mapping tag with the member that carries it; without a member it is anonymous. -/
structure DeclaredMapping where
  name : String
  kind : MappingKind
  tag : Tag
  member : Option Member
deriving DecidableEq, Repr

namespace DeclaredMapping

def isAnonymous (m : DeclaredMapping) : Bool :=
  m.member.isNone

def type? (m : DeclaredMapping) : Option String :=
  m.member.map (·.type)

end DeclaredMapping

namespace ClassDecl

/-- The anonymous mappings, declared on the class itself. -/
def anonymousMappings (c : ClassDecl) : List DeclaredMapping :=
  c.tags.filterMap fun tag ↦ do
    let kind ← MappingKind.ofTagName? tag.name
    if kind.allowedOnClass then
      some { name := (tag.get? "name").getD "", kind, tag, member := none }
    else none

def memberMappings (c : ClassDecl) : List DeclaredMapping :=
  c.members.flatMap fun member ↦ member.tags.filterMap fun tag ↦
    (MappingKind.ofTagName? tag.name).map fun kind ↦
      { name := member.name, kind, tag, member := some member }

/-- Every mapping a class declares, the anonymous ones first. -/
def mappings (c : ClassDecl) : List DeclaredMapping :=
  c.anonymousMappings ++ c.memberMappings

def fieldMappings (c : ClassDecl) : List DeclaredMapping :=
  c.mappings.filter (·.kind == .field)

def associationMappings (c : ClassDecl) : List DeclaredMapping :=
  c.mappings.filter (·.kind.isAssociation)

end ClassDecl

end ClassMap
