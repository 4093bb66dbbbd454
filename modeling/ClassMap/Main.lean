import ClassMap.CommandLine

/-!
The program. It works on a copy of the part of the disk that the project is found in, and writes to
the disk itself.
-/

set_option autoImplicit false
set_option relaxedAutoImplicit false

namespace ClassMap.Program

def absolutePath (place : Location) : String :=
  "/" ++ "/".intercalate place.toList

/-- What is at a place of the disk, or nothing where it cannot be read. -/
def itemAt? (place : Location) : IO (Option Item) := do
  let .ok path ← (IO.FS.realPath (absolutePath place)).toBaseIO | return none
  if ← path.isDir then return some .folder
  let .ok content ← (IO.FS.readBinFile path).toBaseIO | return none
  return some (.file content.toList)

def copyItem (d : Disk) (place : Location) : IO Disk := do
  let some item ← itemAt? place | return d
  return d.put place item

/-- Copies what is at a place, and so many levels of what is below it. -/
def copyTree : Nat → Disk → Location → IO Disk
  | 0, d, place => copyItem d place
  | depth + 1, d, place => do
    let d ← copyItem d place
    if !d.isFolder place then return d
    let .ok entries ← (do (← IO.FS.realPath (absolutePath place)).readDir).toBaseIO | return d
    entries.toList.foldlM (fun d entry ↦ copyTree depth d (place.push entry.fileName)) d

/-- Folders are copied this far down. -/
def copyDepth : Nat := 64

/-- One step along a path, taking a copy of what it leads to. -/
def copyStep (at' : Disk × Location) (segment : String) : IO (Disk × Location) := do
  let (d, place) := at'
  if segment == "" || segment == "." then return (d, place)
  let place := if segment == ".." then place.pop else place.push segment
  return (← copyItem d place, place)

/-- Copies what a path leads to, what is below that, and what is on the way. -/
def copyPath (d : Disk) (path : String) : IO Disk := do
  let (d, place) ← (Path.segments path).foldlM copyStep (d, d.start path)
  copyTree copyDepth d place

/-- A copy of everything that a run looks at. -/
def copyFor (words : List String) : IO Disk := do
  let .ok current ← IO.currentDir.toBaseIO | return {}
  let (d, place) ← current.components.foldlM copyStep ({}, #[])
  let d : Disk := { d with current := place }
  match CommandLine.parse? words with
  | some (.run command) => do
    let (d, _) ← (Path.segments command.options.project).foldlM copyStep
      (d, d.start command.options.project)
    (Project.searchedPaths d command.options.project).foldlM copyPath d
  | _ => return d

def succeeds {α : Type} (action : IO α) : IO Bool := do
  match ← action.toBaseIO with
  | .ok _ => return true
  | .error _ => return false

/-- Writing to the disk itself. -/
def storage : Storage IO where
  makeFolders path := if path.isEmpty then pure true else succeeds (IO.FS.createDirAll path)
  writeFile path content := succeeds (IO.FS.writeBinFile path ⟨content.toArray⟩)
  renameFile source target := succeeds (IO.FS.rename source target)
  removeFile path := discard (succeeds (IO.FS.removeFile path))

def usage := "usage: compile|check --project FILE [--output-dir FOLDER] [--checks MODE] [--verbose]"

end ClassMap.Program

def main (words : List String) : IO UInt32 := do
  let d ← ClassMap.Program.copyFor words
  let outcome ← ClassMap.CommandLine.run ClassMap.Program.storage d words
  outcome.lines.forM IO.println
  match outcome.error with
  | some error => IO.eprintln error
  | none => if outcome.code == 2 then IO.eprintln ClassMap.Program.usage
  return outcome.code.toUInt32
