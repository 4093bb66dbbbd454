import ClassMap.Files.Disk
import ClassMap.Files.Pattern

/-!
Searching a disk: everything a pattern stands for, component by component, and all files below a
folder. Components without special characters are joined as they are.
-/

set_option autoImplicit false
set_option relaxedAutoImplicit false

namespace ClassMap.Disk

/-- A path that has been come upon, and whether it leads to a folder. -/
structure Visit where
  path : String
  isFolder : Bool
deriving DecidableEq, Repr

/-- What is still to be matched with the rest of the components, or what is found. -/
inductive Pending where
  | found (visit : Visit)
  | open (visit : Visit) (patterns : List Pattern)
deriving DecidableEq, Repr

/-- A path, looked up on the disk. -/
def visit (d : Disk) (path : String) : Visit :=
  ⟨path, d.isFolderAt path⟩

/-- A path below a folder; the current folder goes without saying. -/
def childPath (folder name : String) : String :=
  if Path.components folder = [.here] then name else Path.join folder name

/-- What is in the folder that a path leads to, by name. A folder in it is known for one even if its
own path is too long to be followed. -/
def visitsIn (d : Disk) (folder : String) : List Visit :=
  match d.locate? folder with
  | some place =>
    (d.namesIn place).map fun name ↦ ⟨childPath folder name, d.isFolder (place.push name)⟩
  | none => []

def startsWithDot (p : Pattern) : Bool :=
  p.tokens.head? == some (.char '.')

/-- What comes of going on from `folder` with the given components. -/
def expand (d : Disk) : List Pattern → Visit → List Pending
  | [], folder => [.found folder]
  | p :: rest, folder =>
    match p.literal? with
    | some name =>
      let next := childPath folder.path name
      let isSpecial := name == "." || name == ".."
      if (isSpecial && folder.isFolder) || (!isSpecial && d.exists? next) then
        expand d rest (d.visit next)
      else []
    | none =>
      if d.isFolderAt folder.path then
        let specials := [".", ".."].filter fun name ↦ startsWithDot p && p.isMatch name
        (specials.reverse.flatMap fun name ↦ expand d rest (d.visit (Path.join folder.path name))) ++
          (d.visitsIn folder.path).map fun child ↦ .open child (p :: rest)
      else []

/-- The paths found from one pending path, at most `depth` folders and components further. -/
def results (d : Disk) (foldersOnly : Bool) : Nat → Pending → List String
  | 0, _ => []
  | _ + 1, .found visit => if foldersOnly && !visit.isFolder then [] else [visit.path]
  | depth + 1, .open visit patterns =>
    let rest := patterns.dropWhile Pattern.isRecursive
    let inside :=
      if rest.length < patterns.length && visit.isFolder then
        expand d (⟨[.anyFolders]⟩ :: rest) visit
      else []
    let here :=
      match rest with
      | [] => if visit.isFolder then [visit.path] else []
      | p :: others =>
        match Path.fileName? visit.path with
        | some name =>
          if p.isMatch name then
            if others.isEmpty then (if foldersOnly && !visit.isFolder then [] else [visit.path])
            else (expand d others visit).flatMap (d.results foldersOnly depth)
          else []
        | none => []
    here ++ inside.flatMap (d.results foldersOnly depth)

/-- The components of a pattern; a slash at the end adds none. -/
def patternComponents (text : String) : List String :=
  let parts := (Text.pieces '/' text.toList).map String.ofList
  if parts.getLast? == some "" then parts.dropLast else parts

/-- Everything on the disk that a pattern stands for. -/
def glob (d : Disk) (text : String) : Except PatternError (List String) := do
  discard (Pattern.parse text)
  let (root, body) := match text.toList with
    | '/' :: rest => ("/", String.ofList rest)
    | _ => (".", text)
  let patterns ← (patternComponents body).mapM Pattern.parse
  let foldersOnly := text.toList.getLast? == some '/'
  let depth := (d.items.length + 2) * (patterns.length + 2)
  return (d.expand patterns (d.visit root)).flatMap (d.results foldersOnly depth)

/-- The files below a folder with the names on the way to them. The empty path names no folder, and
what is in a folder with a path too long is not seen. -/
def filesBelow (d : Disk) (folder : String) : List (List String × String) :=
  match d.locate? folder with
  | some place =>
    (d.below place).filterMap fun (names, item) ↦
      match item with
      | .file _ =>
        if Path.isUsable (names.dropLast.foldl Path.join folder) then
          some (names, names.foldl Path.join folder)
        else none
      | .folder => none
  | none => []

end ClassMap.Disk
