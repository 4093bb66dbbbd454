import ClassMap.Xml.Name
import ClassMap.Xml.Reference

/-!
Reading a document. A text either is well-formed, and then has one root element, or is not; where
and why it is not does not matter here. Document type declarations are not taken.
-/

set_option autoImplicit false
set_option relaxedAutoImplicit false

namespace ClassMap.Xml

/-- The text of an attribute value between two quotation marks, in which no tag begins. -/
def quoted? : List Char → Option (List Char × List Char)
  | [] => none
  | quote :: cs =>
    if quote == '"' || quote == '\'' then
      match cs.dropWhile fun c ↦ c != quote && c != '<' with
      | c :: rest => if c == quote then some (cs.takeWhile fun c ↦ c != quote, rest) else none
      | [] => none
    else none

/-- A name and what stands between the quotation marks after it. -/
def readPair? (cs : List Char) : Option (QualifiedName × List Char × List Char) := do
  let (name, rest) ← QualifiedName.read? cs
  let rest ← after? ['='] (skipSpaces rest)
  let (value, rest) ← quoted? (skipSpaces rest)
  return (name, value, rest)

def readAttribute? (cs : List Char) : Option (RawAttribute × List Char) := do
  let (name, value, rest) ← readPair? cs
  return (⟨name, ← attributeValue? value⟩, rest)

/-- What a start tag ends with. -/
inductive TagEnd where
  | opened
  | closed
deriving DecidableEq, Repr

/-- The attributes of a tag and its end, at most `steps` attributes; each needs a space in front. -/
def readAttributes? : Nat → List Char → Option (List RawAttribute × TagEnd × List Char)
  | 0, _ => none
  | steps + 1, cs =>
    match skipSpaces cs with
    | [] => none
    | '/' :: rest => (after? ['>'] rest).map fun rest ↦ ([], .closed, rest)
    | '>' :: rest => some ([], .opened, rest)
    | next =>
      if startsWithSpace cs then do
        let (first, rest) ← readAttribute? next
        let (others, tagEnd, rest) ← readAttributes? steps rest
        return (first :: others, tagEnd, rest)
      else none
where
  startsWithSpace : List Char → Bool
    | c :: _ => isSpace c
    | [] => false

def hasDashes : List Char → Bool
  | '-' :: '-' :: _ => true
  | _ :: rest => hasDashes rest
  | [] => false

/-- What follows a comment, read after its opening mark. Two dashes stand only at its end. -/
def afterComment? (cs : List Char) : Option (List Char) := do
  let (body, rest) ← upTo? ['-', '-', '>'] cs
  if hasDashes body || body.getLast? == some '-' then none else some rest

/-- What follows a processing instruction, read after its opening mark. -/
def afterInstruction? (cs : List Char) : Option (List Char) :=
  if (after? ['x', 'm', 'l', ' '] cs).isSome then none
  else match cs with
    | c :: rest =>
      if isNameStart c then
        (upTo? ['?', '>'] (skipSpaces (rest.dropWhile isNameChar))).map (·.2)
      else none
    | [] => none

/-- Two neighbouring texts are one. -/
def addText (content : String) : List Node → List Node
  | .text more :: rest => .text (content ++ more) :: rest
  | nodes => .text content :: nodes

def containsEnd : List Char → Bool
  | ']' :: ']' :: '>' :: _ => true
  | _ :: rest => containsEnd rest
  | [] => false

mutual

/-- The element whose name begins the text, and what follows it. -/
def readElement? : Nat → Namespaces → List Char → Option (Node × List Char)
  | 0, _, _ => none
  | depth + 1, around, cs => do
    let (name, rest) ← QualifiedName.read? cs
    if name.space == "xmlns" then none
    let (raw, tagEnd, rest) ← readAttributes? depth rest
    let namespaces := (← declaredNamespaces? raw) ++ around
    let attributes ← resolveAttributes? namespaces raw
    if !isDeclared namespaces name then none
    match tagEnd with
    | .closed => return (.element name.name attributes [], rest)
    | .opened =>
      let (children, rest) ← readContent? depth namespaces rest
      let (closing, rest) ← QualifiedName.read? rest
      if closing != name then none
      let rest ← after? ['>'] (skipSpaces rest)
      return (.element name.name attributes children, rest)

/-- What stands inside an element, up to and including the opening mark of its end tag. -/
def readContent? : Nat → Namespaces → List Char → Option (List Node × List Char)
  | 0, _, _ => none
  | _ + 1, _, [] => none
  | _ + 1, _, '<' :: '/' :: rest => some ([], rest)
  | depth + 1, namespaces, '<' :: '!' :: '-' :: '-' :: rest => do
    let (others, rest) ← readContent? depth namespaces (← afterComment? rest)
    return (.remark :: others, rest)
  | depth + 1, namespaces, '<' :: '!' :: rest => do
    let (body, rest) ← upTo? [']', ']', '>'] (← after? ['[', 'C', 'D', 'A', 'T', 'A', '['] rest)
    let (others, rest) ← readContent? depth namespaces rest
    return (addText (literalValue body) others, rest)
  | depth + 1, namespaces, '<' :: '?' :: rest => do
    let (others, rest) ← readContent? depth namespaces (← afterInstruction? rest)
    return (.remark :: others, rest)
  | depth + 1, namespaces, '<' :: rest => do
    let (first, rest) ← readElement? depth namespaces rest
    let (others, rest) ← readContent? depth namespaces rest
    return (first :: others, rest)
  | depth + 1, namespaces, cs => do
    let body := cs.takeWhile (· != '<')
    if containsEnd body then none
    let content ← textValue? body
    let (others, rest) ← readContent? depth namespaces (cs.dropWhile (· != '<'))
    return (addText content others, rest)

end

/-- Skips spaces, comments and processing instructions around the root. -/
def skipRemarks? : Nat → List Char → Option (List Char)
  | 0, cs => some cs
  | steps + 1, cs =>
    match skipSpaces cs with
    | '<' :: '!' :: '-' :: '-' :: rest => (afterComment? rest).bind (skipRemarks? steps)
    | '<' :: '?' :: rest => (afterInstruction? rest).bind (skipRemarks? steps)
    | rest => some rest

/-- A space is needed unless the declaration ends. -/
def skipGap? (cs : List Char) : Option (List Char) :=
  match cs with
  | [] => some []
  | '?' :: '>' :: _ => some cs
  | c :: _ => if isSpace c then some (skipSpaces cs) else none

/-- What follows the version that a declaration begins with, and the space after it. -/
def afterVersion? (cs : List Char) : Option (List Char) := do
  let _ ← after? ['v', 'e', 'r', 's', 'i', 'o', 'n'] cs
  let (_, _, rest) ← readPair? cs
  skipGap? rest

/-- What follows the encoding, if one is given, and the space after it. -/
def afterEncoding? (cs : List Char) : Option (List Char) :=
  match after? ['e', 'n', 'c', 'o', 'd', 'i', 'n', 'g'] cs with
  | some _ => (readPair? cs).bind fun (_, _, rest) ↦ skipGap? rest
  | none => some cs

/-- What follows the word on external declarations, if it is given. -/
def afterStandalone? (cs : List Char) : Option (List Char) :=
  match after? ['s', 't', 'a', 'n', 'd', 'a', 'l', 'o', 'n', 'e'] cs with
  | some _ => (readPair? cs).map fun (_, _, rest) ↦ rest
  | none => some cs

/-- What follows the declaration that a document may begin with, read after its first word. What
it says changes nothing. -/
def afterDeclaration? (cs : List Char) : Option (List Char) := do
  let rest ← afterVersion? (← skipGap? cs)
  let rest ← afterStandalone? (← afterEncoding? rest)
  after? ['?', '>'] (skipSpaces rest)

/-- The root element of a document. A byte order mark in front is passed over. -/
def parse? (text : String) : Option Node := do
  let cs := match text.toList with
    | c :: rest => if c.toNat == 0xFEFF then rest else c :: rest
    | [] => []
  if !cs.all isAllowed then none
  let depth := 2 * cs.length + 2
  let cs ← match after? ['<', '?', 'x', 'm', 'l'] cs with
    | some (' ' :: rest) => afterDeclaration? (' ' :: rest)
    | _ => some cs
  match ← skipRemarks? depth cs with
  | '<' :: rest =>
    let (root, rest) ← readElement? depth [] rest
    if (← skipRemarks? depth rest).isEmpty then some root else none
  | _ => none

end ClassMap.Xml
