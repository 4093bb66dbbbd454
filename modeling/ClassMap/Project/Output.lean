import ClassMap.Document.Schema
import ClassMap.Files.Error
import ClassMap.Files.Path
import ClassMap.Files.Storage

/-!
Writing the two documents of a mapping. Both are staged beside their places before either is moved
there, and a failure removes what has been written so far.
-/

set_option autoImplicit false
set_option relaxedAutoImplicit false

namespace ClassMap

/-- The two documents of a mapping, not yet written. -/
structure Documents where
  descriptor : Bytes
  schema : Bytes
deriving DecidableEq, Repr

def Repository.documents (r : Repository) : Documents where
  descriptor := Text.encode r.descriptorDocument
  schema := Text.encode r.schema.document

structure OutputPaths where
  descriptor : String
  schema : String
deriving DecidableEq, Repr

/-- A document with the path it goes to. -/
structure Placement where
  path : String
  content : Bytes
deriving DecidableEq, Repr

namespace Placement

/-- The path beside the place of a document where it is written first. -/
def staging (p : Placement) : String :=
  Path.withFileName p.path ("." ++ (Path.fileName? p.path).getD "" ++ ".tmp")

end Placement

namespace Storage

variable {m : Type → Type} [Monad m]

def removeAll (s : Storage m) : List String → m Unit
  | [] => pure ()
  | path :: rest => do
    s.removeFile path
    s.removeAll rest

/-- Writes the documents beside their places. A failure removes those written, also the one that
could not be written in full. -/
def stage (s : Storage m) (done : List String) : List Placement → m (Except FileError Unit)
  | [] => pure (.ok ())
  | p :: rest => do
    if ← s.writeFile p.staging p.content then
      s.stage (done ++ [p.staging]) rest
    else
      s.removeAll (done ++ [p.staging])
      return .error (.outputUnwritable p.staging)

/-- Moves the staged documents to their places. A failure removes those still staged and those
already placed. -/
def place (s : Storage m) (done : List String) : List Placement → m (Except FileError Unit)
  | [] => pure (.ok ())
  | p :: rest => do
    if ← s.renameFile p.staging p.path then
      s.place (done ++ [p.path]) rest
    else
      s.removeAll ((p :: rest).map (·.staging))
      s.removeAll done
      return .error (.outputUnwritable p.path)

/-- Writes both documents into a folder, which is made if need be. -/
def writeOutputs (s : Storage m) (documents : Documents) (folder descriptorFile schemaFile : String) :
    m (Except FileError OutputPaths) := do
  if ← s.makeFolders folder then
    let paths : OutputPaths := ⟨Path.join folder descriptorFile, Path.join folder schemaFile⟩
    let placements : List Placement :=
      [⟨paths.descriptor, documents.descriptor⟩, ⟨paths.schema, documents.schema⟩]
    match ← s.stage [] placements with
    | .error e => return .error e
    | .ok () =>
      match ← s.place [] placements with
      | .error e => return .error e
      | .ok () => return .ok paths
  else return .error (.outputUnwritable folder)

end Storage

end ClassMap
