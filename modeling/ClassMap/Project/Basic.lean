import ClassMap.Files.Error
import ClassMap.Files.Search
import ClassMap.Xml.Reader

/-!
Projects: a name, the files that declarations are read from, and where the mapping is written. A
project that lists no files takes every XML file below it that is not in an output folder.
-/

set_option autoImplicit false
set_option relaxedAutoImplicit false

namespace ClassMap

structure Project where
  name : String
  databaseName : String
  checks : ChecksMode
  /-- In the order of their paths, each once. -/
  sources : List String
  descriptorFile : String
  schemaFile : String
  folder : String
deriving DecidableEq, Repr

namespace Project

def defaultDescriptorFile := "repository_user.xml"
def defaultSchemaFile := "project-schema.xml"

/-- The text of the first element of that name; one without text gives nothing. -/
def property? (root : Xml.Node) (name : String) : Option String :=
  match root.descendants.find? fun n ↦ n.isElement && n.name == name with
  | some n => n.text?.bind Text.trimmed?
  | none => none

/-- A path in a project file, its backslashes made slashes. -/
def normalize (path : String) : String :=
  String.ofList (path.toList.map fun c ↦ if c == '\\' then '/' else c)

/-- The values of an attribute of the source elements. -/
def sourceItems (root : Xml.Node) (key : String) : List String :=
  ((root.descendants.filter (·.name == "Source")).filterMap (·.attribute? key)).map normalize

def isXml (path : String) : Bool :=
  match Path.extension? path with
  | some ending => Text.sameName ending "xml"
  | none => false

/-- Folders whose files are made, not written. -/
def outputFolders : List String :=
  ["bin", "obj", "build"]

/-- The files of a project that lists none. -/
def scan (d : Disk) (folder : String) : List String :=
  ((d.filesBelow folder).filter fun (names, path) ↦
    isXml path && !names.any outputFolders.contains).map (·.2)

/-- The files that one item includes: all XML files of a pattern, or the one path. -/
def includeItem (d : Disk) (folder item : String) : Except ProjectFault (List String) :=
  let path := Path.join folder item
  if hasWildcard item then
    match d.glob path with
    | .ok found => .ok (found.filter isXml)
    | .error error => .error (.badPattern item error)
  else if d.exists? path then .ok [path]
  else .error (.missingSource item)

/-- Whether one item removes a file; a text that is no pattern removes none. -/
def removes (folder item file : String) : Bool :=
  let path := Path.join folder item
  if hasWildcard item then
    match Pattern.parse path with
    | .ok pattern => pattern.isMatch file
    | .error _ => false
  else Path.same file path

/-- Neighbours that are the same path once. -/
def dropRepeated : List String → List String
  | [] => []
  | path :: rest =>
    match dropRepeated rest with
    | [] => [path]
    | next :: others => if Path.same path next then path :: others else path :: next :: others

/-- The files in the order of their paths, each the way it was first written. -/
def arrange (paths : List String) : List String :=
  dropRepeated (paths.mergeSort Path.le)

def sourcesOf (d : Disk) (folder : String) (included removed : List String) :
    Except ProjectFault (List String) := do
  let found ←
    if included.isEmpty then pure (scan d folder)
    else do pure (← included.mapM (includeItem d folder)).flatten
  return arrange (found.filter fun file ↦ !removed.any (removes folder · file))

def checksOf (root : Xml.Node) : Except ProjectFault ChecksMode :=
  match property? root "Checks" with
  | none => .ok .strict
  | some word =>
    match ChecksMode.parse word with
    | .ok mode => .ok mode
    | .error word => .error (.unknownChecks word)

def ofRoot (d : Disk) (path : String) (root : Xml.Node) : Except ProjectFault Project := do
  if root.name != "Project" then
    throw (.wrongRoot root.name)
  let folder := (Path.parent? path).getD "."
  let name := (property? root "Name").getD ((Path.fileStem? path).getD "Project")
  let checks ← checksOf root
  let sources ← sourcesOf d folder (sourceItems root "Include") (sourceItems root "Remove")
  return {
    name
    databaseName := (property? root "DatabaseName").getD name
    checks
    sources
    descriptorFile := (property? root "DescriptorFile").getD defaultDescriptorFile
    schemaFile := (property? root "SchemaFile").getD defaultSchemaFile
    folder }

/-- The root of the document in a project file. -/
def readRoot (d : Disk) (path : String) : Except FileError Xml.Node :=
  match (d.contents? path).bind Text.decode? with
  | none => .error (.projectUnreadable path)
  | some text =>
    match Xml.parse? text with
    | none => .error (.projectMalformed path)
    | some root => .ok root

/-- The project in a file. -/
def read (d : Disk) (path : String) : Except FileError Project := do
  let root ← readRoot d path
  match ofRoot d path root with
  | .ok project => return project
  | .error fault => throw (.projectInvalid fault)

/-- What a path begins with before its first component with a special character. -/
def literalPart (path : String) : String :=
  "/".intercalate ((Path.segments path).takeWhile fun segment ↦
    !segment.toList.any "*?[".toList.contains)

/-- The paths that have to be looked at, with all that is below them, to find the sources of a
project. -/
def searchedPaths (d : Disk) (path : String) : List String :=
  match readRoot d path with
  | .error _ => []
  | .ok root =>
    let folder := (Path.parent? path).getD "."
    match sourceItems root "Include" with
    | [] => [folder]
    | included => included.map fun item ↦ literalPart (Path.join folder item)

end Project

end ClassMap
