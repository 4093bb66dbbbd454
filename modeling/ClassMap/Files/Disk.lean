import ClassMap.Files.Path
import ClassMap.Text.Utf8

/-!
A disk: files and folders at locations below one root, and the folder that relative paths start
from. Paths are followed step by step, so each step but the last has to lead to a folder.
-/

set_option autoImplicit false
set_option relaxedAutoImplicit false

namespace ClassMap

/-- The names on the way from the root. -/
abbrev Location := Array String

inductive Item where
  | file (content : Bytes)
  | folder
deriving DecidableEq, Repr

structure Disk where
  items : List (Location × Item) := []
  current : Location := #[]
deriving DecidableEq, Repr

namespace Disk

def get? (d : Disk) (place : Location) : Option Item :=
  if place = #[] then some .folder else d.items.lookup place

/-- The item at a place replaced, or added. -/
def putIn (place : Location) (item : Item) : List (Location × Item) → List (Location × Item)
  | [] => [(place, item)]
  | entry :: rest =>
    if entry.1 = place then (place, item) :: rest else entry :: putIn place item rest

def put (d : Disk) (place : Location) (item : Item) : Disk :=
  { d with items := putIn place item d.items }

def erase (d : Disk) (place : Location) : Disk :=
  { d with items := d.items.filter fun entry ↦ entry.1 != place }

/-- Whether a place is another one or below it. -/
def isWithin (place : Location) (inner : Location) : Bool :=
  place.toList.isPrefixOf inner.toList

/-- The place removed with everything below it. -/
def eraseTree (d : Disk) (place : Location) : Disk :=
  { d with items := d.items.filter fun entry ↦ !isWithin place entry.1 }

def isFolder (d : Disk) (place : Location) : Bool :=
  d.get? place == some .folder

/-- One step of a path, which starts in a folder and ends at something that is there. -/
def step? (d : Disk) (place : Location) (segment : String) : Option Location :=
  if !d.isFolder place then none
  else if segment == "" || segment == "." then some place
  else if segment == ".." then some place.pop
  else if (d.get? (place.push segment)).isSome then some (place.push segment)
  else none

def follow? (d : Disk) (place : Location) (segments : List String) : Option Location :=
  segments.foldlM d.step? place

/-- Where a path starts from. -/
def start (d : Disk) (path : String) : Location :=
  if Path.isAbsolute path then #[] else d.current

/-- The place that a path leads to. -/
def locate? (d : Disk) (path : String) : Option Location :=
  if Path.isUsable path then d.follow? (d.start path) (Path.segments path) else none

def itemAt? (d : Disk) (path : String) : Option Item :=
  (d.locate? path).bind d.get?

def exists? (d : Disk) (path : String) : Bool :=
  (d.itemAt? path).isSome

def isFolderAt (d : Disk) (path : String) : Bool :=
  d.itemAt? path == some .folder

def contents? (d : Disk) (path : String) : Option Bytes :=
  match d.itemAt? path with
  | some (.file content) => some content
  | _ => none

/-- The names in a folder, in order. -/
def namesIn (d : Disk) (place : Location) : List String :=
  (d.items.filterMap fun entry ↦
    if entry.1.size == place.size + 1 && isWithin place entry.1 then entry.1.back?
    else none).mergeSort fun a b ↦ decide (a ≤ b)

/-- Everything below a place, by the names on the way from there. -/
def below (d : Disk) (place : Location) : List (List String × Item) :=
  d.items.filterMap fun entry ↦
    if isWithin place entry.1 && entry.1 != place then
      some (entry.1.toList.drop place.size, entry.2)
    else none

/-- A name that something on a disk can have: one that is not too long. -/
def isValidName (name : String) : Bool :=
  name.utf8ByteSize ≤ 255

/-- Whether a segment is the name of something in a folder, and not a way to go on or back. -/
def isName (segment : String) : Bool :=
  segment != "" && segment != "." && segment != ".."

/-- The folder that a path ends in, and the segment it ends with. -/
def parentOf? (d : Disk) (path : String) : Option (Location × String) :=
  if Path.isUsable path then do
    let segments := Path.segments path
    let folder ← d.follow? (d.start path) segments.dropLast
    if d.isFolder folder then some (folder, segments.getLast?.getD "") else none
  else none

/-- The place that a path gives to a file, whether there is one or not. -/
def filePlace? (d : Disk) (path : String) : Option Location :=
  match d.parentOf? path with
  | some (folder, segment) =>
    if isName segment && isValidName segment && !d.isFolder (folder.push segment) then
      some (folder.push segment)
    else none
  | none => none

/-- Whether nothing is left of a path but a dot. -/
def isDot (segments : List String) : Bool :=
  segments.contains "." && segments.all fun segment ↦ segment == "" || segment == "."

/-- Goes on from a place, making each folder that is not there yet. What has been made stays, also
when a later step fails. A folder with only a dot after it is not made. -/
def makeAlong (d : Disk) (place : Location) : List String → Bool × Disk
  | [] => (d.isFolder place, d)
  | segment :: rest =>
    match d.step? place segment with
    | some next => makeAlong d next rest
    | none =>
      if d.isFolder place && isValidName segment && !isDot rest then
        makeAlong (d.put (place.push segment) .folder) (place.push segment) rest
      else (false, d)

/-- Makes a folder with those it is in. The empty path needs none. -/
def makeFolders (path : String) (d : Disk) : Bool × Disk :=
  if path.isEmpty then (true, d)
  else if Path.isUsable path then makeAlong d (d.start path) (Path.segments path)
  else (false, d)

/-- Writes a file, whether it is there already or not. -/
def writeFile (path : String) (content : Bytes) (d : Disk) : Bool × Disk :=
  match d.filePlace? path with
  | some place => (true, d.put place (.file content))
  | none => (false, d)

/-- Gives a file another path; a file that is there already is replaced. -/
def renameFile (source target : String) (d : Disk) : Bool × Disk :=
  match d.locate? source, d.filePlace? target with
  | some old, some place =>
    match d.get? old with
    | some (.file content) => (true, (d.erase old).put place (.file content))
    | _ => (false, d)
  | _, _ => (false, d)

/-- Removes a file if there is one. -/
def removeFile (path : String) (d : Disk) : Disk :=
  match d.locate? path with
  | some place => if d.isFolder place then d else d.erase place
  | none => d

/-- Removes whatever a path leads to. -/
def removeAll (path : String) (d : Disk) : Disk :=
  match d.locate? path with
  | some place => d.eraseTree place
  | none => d

/-- Everything below the current folder, folders with a slash at the end, in order. -/
def listing (d : Disk) : List String :=
  ((d.below d.current).map fun (names, item) ↦
    "/".intercalate names ++ if item = .folder then "/" else "").mergeSort
      fun a b ↦ decide (a ≤ b)

theorem get?_put_self (d : Disk) (place : Location) (item : Item) (h : place ≠ #[]) :
    (d.put place item).get? place = some item := by
  simp only [get?, h, if_false, put]
  induction d.items with
  | nil => simp [putIn]
  | cons entry rest ih =>
    obtain ⟨at', present⟩ := entry
    by_cases he : at' = place
    · simp [putIn, he]
    · simp only [putIn, he, if_false, List.lookup_cons]
      have : (place == at') = false := by simpa using fun h' : place = at' ↦ he h'.symm
      simpa [this] using ih

theorem get?_put_of_ne (d : Disk) {place other : Location} (item : Item) (h : other ≠ place) :
    (d.put place item).get? other = d.get? other := by
  simp only [get?, put]
  split
  · rfl
  · induction d.items with
    | nil =>
      have : (other == place) = false := by simpa using h
      simp [putIn, List.lookup_cons, this]
    | cons entry rest ih =>
      obtain ⟨at', present⟩ := entry
      by_cases he : at' = place
      · have : (other == place) = false := by simpa using h
        simp [putIn, he, List.lookup_cons, this]
      · simp only [putIn, he, if_false, List.lookup_cons]
        split
        · rfl
        · exact ih

theorem current_put (d : Disk) (place : Location) (item : Item) :
    (d.put place item).current = d.current := rfl

end Disk

end ClassMap
