/-!
Documents to be written: elements that are indented by two spaces a level. An element without
content is closed where it begins, and one that only holds text stays on one line.
-/

set_option autoImplicit false
set_option relaxedAutoImplicit false

namespace ClassMap.Xml

inductive Element where
  | empty (name : String) (attributes : List (String × String))
  | block (name : String) (attributes : List (String × String)) (children : List Element)
  | line (name : String) (content : String)
deriving Repr

/-- The five characters that mark up a document are written as references. -/
def escapeChar : Char → List Char
  | '<' => ['&', 'l', 't', ';']
  | '>' => ['&', 'g', 't', ';']
  | '&' => ['&', 'a', 'm', 'p', ';']
  | '\'' => ['&', 'a', 'p', 'o', 's', ';']
  | '"' => ['&', 'q', 'u', 'o', 't', ';']
  | c => [c]

def escape (s : String) : String :=
  String.ofList (s.toList.flatMap escapeChar)

namespace Element

/-- A block if there is anything to put into it. -/
def withChildren (name : String) (attributes : List (String × String)) :
    List Element → Element
  | [] => empty name attributes
  | children => block name attributes children

def renderAttributes (attributes : List (String × String)) : String :=
  String.join (attributes.map fun (key, value) ↦ " " ++ key ++ "=\"" ++ escape value ++ "\"")

def indent (level : Nat) : String :=
  "\n" ++ String.ofList (List.replicate (2 * level) ' ')

mutual

/-- The element on lines of its own, each begun with a line feed. -/
def render (level : Nat) : Element → String
  | empty name attributes => indent level ++ "<" ++ name ++ renderAttributes attributes ++ " />"
  | block name attributes children =>
    indent level ++ "<" ++ name ++ renderAttributes attributes ++ ">" ++
      renderAll (level + 1) children ++ indent level ++ "</" ++ name ++ ">"
  | line name content =>
    indent level ++ "<" ++ name ++ ">" ++ escape content ++ "</" ++ name ++ ">"

def renderAll (level : Nat) : List Element → String
  | [] => ""
  | e :: rest => render level e ++ renderAll level rest

end

/-- A document with that root. -/
def document (root : Element) : String :=
  "<?xml version=\"1.0\" encoding=\"UTF-8\"?>" ++ root.render 0

end Element

end ClassMap.Xml
