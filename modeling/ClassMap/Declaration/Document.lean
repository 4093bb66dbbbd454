import ClassMap.Declaration
import ClassMap.Files.Disk
import ClassMap.Files.Error
import ClassMap.Text.Encoding
import ClassMap.Xml.Reader

/-!
Declaration documents. Each child of the root is a class or an interface; inside one, a `field`
element is a member and any other element a tag, and so is every element inside a member.
-/

set_option autoImplicit false
set_option relaxedAutoImplicit false

namespace ClassMap

/-- The tag that an element stands for, with all of its attributes. -/
def Tag.ofNode (n : Xml.Node) : Tag where
  name := n.name
  attributes := n.attributes.map fun a ↦ (a.name, a.value)

/-- The trimmed value of an attribute that has to be there. -/
def requiredAttribute? (n : Xml.Node) (name : String) : Option String :=
  (n.attribute? name).bind Text.trimmed?

def Member.ofNode (className : String) (n : Xml.Node) : Except DeclarationFault Member := do
  let some name := requiredAttribute? n "name"
    | throw (.missingAttribute n.name "name")
  let some type := requiredAttribute? n "type"
    | throw (.missingType name className)
  return { name, type, tags := n.elements.map Tag.ofNode }

namespace ClassDecl

def isMemberNode (n : Xml.Node) : Bool :=
  n.name == "field"

/-- The superclass of a class; an interface has none. -/
def superclassOf (kind : ClassKind) (name : String) (extended : List String) :
    Except DeclarationFault (Option String) :=
  match kind, extended with
  | .interface, _ => .ok none
  | .ordinary, [] => .ok none
  | .ordinary, [superclass] => .ok (some superclass)
  | .ordinary, _ => .error (.severalSuperclasses name)

def ofNode (kind : ClassKind) (n : Xml.Node) : Except DeclarationFault ClassDecl := do
  let some name := requiredAttribute? n "name"
    | throw (.missingAttribute n.name "name")
  let extended := ((n.attribute? "extends").map splitTypeList).getD []
  let superclass ← superclassOf kind name extended
  let implemented := n.attribute? "implements"
  if kind = .interface && implemented.isSome then
    throw (.interfaceImplements name)
  let members ← (n.elements.filter isMemberNode).mapM (Member.ofNode name)
  return {
    name
    kind
    superclass
    interfaces :=
      (if kind = .interface then extended else []) ++ (implemented.map splitTypeList).getD []
    tags := (n.elements.filter (!isMemberNode ·)).map Tag.ofNode
    members }

/-- The declaration that a child of the root stands for. -/
def ofRootChild (n : Xml.Node) : Except DeclarationFault ClassDecl :=
  if n.name = "class" then ofNode .ordinary n
  else if n.name = "interface" then ofNode .interface n
  else .error (.unexpectedElement n.name)

end ClassDecl

namespace Declarations

def ofRoot (root : Xml.Node) : Except DeclarationFault (List ClassDecl) :=
  if root.name = "declarations" then root.elements.mapM ClassDecl.ofRootChild
  else .error (.wrongRoot root.name)

/-- The declarations in a text; the path only shows in errors. -/
def parse (text path : String) : Except FileError (List ClassDecl) :=
  match Xml.parse? text with
  | none => .error (.declarationsMalformed path)
  | some root =>
    match ofRoot root with
    | .ok decls => .ok decls
    | .error fault => .error (.declarationsInvalid path fault)

/-- The text without one byte order mark in front. -/
def withoutMark (text : String) : String :=
  match text.toList with
  | c :: rest => if c.toNat == 0xFEFF then String.ofList rest else text
  | [] => text

/-- The declarations in a file. -/
def read (d : Disk) (path : String) : Except FileError (List ClassDecl) :=
  match (d.contents? path).bind Text.decodeFile? with
  | none => .error (.declarationsUnreadable path)
  | some text => parse (withoutMark text) path

/-- The declarations in some files, in their order. -/
def readAll (d : Disk) (paths : List String) : Except FileError (List ClassDecl) := do
  return (← paths.mapM (read d)).flatten

end Declarations

end ClassMap
