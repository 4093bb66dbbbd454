import ClassMap.Text.Blank
import ClassMap.Text.Word

/-!
Declared types of members: a plain name, an array or a container with type arguments. A text that
has neither form is a plain name.
-/

set_option autoImplicit false
set_option relaxedAutoImplicit false

namespace ClassMap

inductive MemberType where
  | scalar (name : String)
  | array (element : MemberType)
  | generic (container : String) (arguments : List MemberType)
deriving Repr

namespace MemberType

def isNameChar (c : Char) : Bool :=
  Text.isWord c || c == '.' || c == '$'

/-- The text before a final pair of square brackets. -/
def beforeBrackets? (cs : List Char) : Option (List Char) :=
  match cs.reverse with
  | ']' :: '[' :: rest => some rest.reverse
  | _ => none

/-- A container name and what stands between the angle brackets that end the text; the part
between them stays on one line. -/
def container? (cs : List Char) : Option (List Char × List Char) :=
  let name := cs.takeWhile isNameChar
  let rest := Text.trimStart (cs.dropWhile isNameChar)
  match name, rest with
  | _ :: _, '<' :: inner =>
    match inner.reverse with
    | '>' :: reversed => if reversed.contains '\n' then none else some (name, reversed.reverse)
    | _ => none
  | _, _ => none

/-- The stretches between the commas at the depth of the start, counting angle brackets up and
down without a floor. -/
def argumentPieces (depth : Int) : List Char → List (List Char)
  | [] => [[]]
  | c :: rest =>
    if c == ',' && depth == 0 then [] :: argumentPieces depth rest
    else
      let depth := if c == '<' then depth + 1 else if c == '>' then depth - 1 else depth
      match argumentPieces depth rest with
      | piece :: others => (c :: piece) :: others
      | [] => [[c]]

/-- The last piece counts only if something is written in it. -/
def dropEmptyLast : List (List Char) → List (List Char)
  | [] => []
  | [piece] => if piece.isEmpty then [] else [piece]
  | piece :: next :: others => piece :: dropEmptyLast (next :: others)

def splitArguments (inner : List Char) : List (List Char) :=
  dropEmptyLast ((argumentPieces 0 inner).map Text.trimBoth)

/-- Reads a type in at most `depth` nested steps. -/
def readWithin : Nat → List Char → MemberType
  | 0, cs => scalar (String.ofList (Text.trimBoth cs))
  | depth + 1, cs =>
    let cs := Text.trimBoth cs
    match beforeBrackets? cs with
    | some element => array (readWithin depth element)
    | none =>
      match container? cs with
      | some (name, inner) =>
        generic (String.ofList name) ((splitArguments inner).map (readWithin depth))
      | none => scalar (String.ofList cs)

/-- Each step goes into a shorter text, so its length bounds the steps. -/
def parse (s : String) : MemberType :=
  readWithin (s.toList.length + 1) s.toList

/-- The name without type arguments. -/
def rawName : MemberType → String
  | scalar name => name
  | array element => element.rawName ++ "[]"
  | generic container _ => container

def isArray : MemberType → Bool
  | array _ => true
  | _ => false

/-- The element of an array, or the last argument of a container. -/
def elementType? : MemberType → Option String
  | scalar _ => none
  | array element => some element.rawName
  | generic _ arguments => arguments.getLast?.map rawName

end MemberType

end ClassMap
