/-!
Documents that have been read: elements with attributes and children, and text between them.
Elements and attributes are known by their local names.
-/

set_option autoImplicit false
set_option relaxedAutoImplicit false

namespace ClassMap.Xml

structure Attribute where
  name : String
  /-- Whether the name has no namespace. -/
  plain : Bool
  value : String
deriving DecidableEq, Repr

inductive Node where
  | element (name : String) (attributes : List Attribute) (children : List Node)
  | text (content : String)
  /-- A comment or processing instruction. -/
  | remark
deriving Repr

namespace Node

def name : Node → String
  | element name _ _ => name
  | _ => ""

def attributes : Node → List Attribute
  | element _ attributes _ => attributes
  | _ => []

def children : Node → List Node
  | element _ _ children => children
  | _ => []

def isElement : Node → Bool
  | element .. => true
  | _ => false

def elements (n : Node) : List Node :=
  n.children.filter isElement

/-- The value of an attribute without a namespace. -/
def attribute? (n : Node) (name : String) : Option String :=
  (n.attributes.find? fun a ↦ a.plain && a.name == name).map (·.value)

/-- The text that an element begins with. -/
def text? (n : Node) : Option String :=
  match n.children with
  | text content :: _ => some content
  | _ => none

mutual

/-- The node and everything inside it, in document order. -/
def descendants : Node → List Node
  | element name attributes children =>
    element name attributes children :: descendantsOf children
  | other => [other]

def descendantsOf : List Node → List Node
  | [] => []
  | n :: rest => descendants n ++ descendantsOf rest

end

end Node

end ClassMap.Xml
