import ClassMap.Text.Pieces

/-!
Paths as they are written. A path is compared by its components: doubled slashes and inner dots
do not count, a dot at the start does. Joining keeps what was written.
-/

set_option autoImplicit false
set_option relaxedAutoImplicit false

namespace ClassMap.Path

inductive Component where
  | root
  | here
  | up
  | name (text : String)
deriving DecidableEq, Repr

namespace Component

/-- The root before a dot, a dot before two dots, and names last. -/
def rank : Component → Nat
  | root => 0
  | here => 1
  | up => 2
  | name _ => 3

def le (a b : Component) : Bool :=
  match a, b with
  | name s, name t => decide (s ≤ t)
  | a, b => a.rank ≤ b.rank

end Component

def isAbsolute (path : String) : Bool :=
  path.toList.head? == some '/'

/-- What stands between the slashes. -/
def segments (path : String) : List String :=
  (Text.pieces '/' path.toList).map String.ofList

/-- What a path starts with besides its segments: a slash, or a dot that counts. -/
def lead (path : String) : Option Component :=
  match path.toList with
  | '/' :: _ => some .root
  | ['.'] => some .here
  | '.' :: '/' :: _ => some .here
  | _ => none

def ofSegment? (segment : String) : Option Component :=
  if segment == "" || segment == "." then none
  else if segment == ".." then some .up
  else some (.name segment)

def components (path : String) : List Component :=
  (lead path).toList ++ (segments path).filterMap ofSegment?

/-- The same path, whatever way it is written. -/
def same (a b : String) : Bool :=
  components a == components b

/-- Component by component, a shorter path before a longer one. -/
def componentsLe : List Component → List Component → Bool
  | [], _ => true
  | _ :: _, [] => false
  | a :: as, b :: bs => if a = b then componentsLe as bs else a.le b

def le (a b : String) : Bool :=
  componentsLe (components a) (components b)

/-- A path below another one; an absolute path stays as it is. -/
def join (base part : String) : String :=
  if isAbsolute part || base.isEmpty then part
  else if base.toList.getLast? == some '/' then base ++ part
  else base ++ "/" ++ part

/-- The segments, last one first, from the last that counts on. -/
def trimReversed (reversed : List String) : List String :=
  reversed.dropWhile fun segment ↦ (ofSegment? segment).isNone

/-- The path without its last component. The path of nothing and the root have none. -/
def parent? (path : String) : Option String :=
  let (start, body) := match path.toList, lead path with
    | _ :: rest, some .root => ("/", rest)
    | _ :: rest, some _ => (".", rest)
    | cs, _ => ("", cs)
  match trimReversed ((Text.pieces '/' body).map String.ofList).reverse with
  | _ :: others => some (start ++ "/".intercalate (trimReversed others).reverse)
  | [] => if start == "." then some "" else none

/-- The last component if it is a name. -/
def fileName? (path : String) : Option String :=
  match (components path).getLast? with
  | some (.name text) => some text
  | _ => none

/-- A name cut at its last dot; a dot at the start cuts nothing off. -/
def cutName (name : String) : String × Option String :=
  match Text.cut? '.' name.toList.reverse with
  | some (ending, stem) =>
    if stem.isEmpty then (name, none)
    else (String.ofList stem.reverse, some (String.ofList ending.reverse))
  | none => (name, none)

def fileStem? (path : String) : Option String :=
  (fileName? path).map fun name ↦ (cutName name).1

def extension? (path : String) : Option String :=
  (fileName? path).bind fun name ↦ (cutName name).2

/-- The path with another last name; where the last component is no name, one more is added. -/
def withFileName (path name : String) : String :=
  if (fileName? path).isSome then join ((parent? path).getD "") name else join path name

/-- The most bytes that a path can have. -/
def maxBytes : Nat := 4095

/-- Whether a path can lead anywhere: it is neither empty nor too long, and it is without the
character that ends a text for the system. -/
def isUsable (path : String) : Bool :=
  !path.isEmpty && path.utf8ByteSize ≤ maxBytes && !path.toList.contains (Char.ofNat 0)

end ClassMap.Path
