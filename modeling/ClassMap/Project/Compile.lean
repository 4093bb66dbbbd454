import ClassMap.Declaration.Document
import ClassMap.Project.Basic
import ClassMap.Project.Output
import ClassMap.Resolution

/-!
Checking and compiling a project: its declarations are read and resolved, and the documents are
written only when everything before has gone well.
-/

set_option autoImplicit false
set_option relaxedAutoImplicit false

namespace ClassMap

structure CompileOptions where
  project : String
  outputFolder : Option String := none
  /-- Goes before the checks mode of the project. -/
  checks : Option ChecksMode := none
deriving DecidableEq, Repr

namespace Project

def checksFor (p : Project) (options : CompileOptions) : ChecksMode :=
  options.checks.getD p.checks

def outputFolder (p : Project) (options : CompileOptions) : String :=
  options.outputFolder.getD (Path.join p.folder "build")

/-- The mapping of the declarations in the sources of a project. -/
def resolve (d : Disk) (p : Project) (options : CompileOptions) : Except Failure Repository :=
  match Declarations.readAll d p.sources with
  | .error e => .error (.file e)
  | .ok decls =>
    match resolveDeclarations decls (p.checksFor options) p.databaseName with
    | .error e => .error (.mapping e)
    | .ok repository => .ok repository

end Project

/-- The mapping of a project, with nothing written. -/
def checkProject (d : Disk) (options : CompileOptions) : Except Failure Repository :=
  match Project.read d options.project with
  | .error e => .error (.file e)
  | .ok project => project.resolve d options

/-- Writes the mapping of a project, which is read from the disk as it is. -/
def compileProject {m : Type → Type} [Monad m] (s : Storage m) (d : Disk)
    (options : CompileOptions) : m (Except Failure OutputPaths) :=
  match Project.read d options.project with
  | .error e => pure (.error (.file e))
  | .ok project =>
    match project.resolve d options with
    | .error e => pure (.error e)
    | .ok repository => do
      match ← s.writeOutputs repository.documents (project.outputFolder options)
          project.descriptorFile project.schemaFile with
      | .error e => return .error (.file e)
      | .ok paths => return .ok paths

end ClassMap
