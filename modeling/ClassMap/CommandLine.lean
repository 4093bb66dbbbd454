import ClassMap.Project.Compile

/-!
The command line: `compile` writes the documents of a project, `check` only says whether it could.
-/

set_option autoImplicit false
set_option relaxedAutoImplicit false

namespace ClassMap.CommandLine

inductive Action where
  | compile
  | check
deriving DecidableEq, Repr

structure Command where
  action : Action
  options : CompileOptions
  verbose : Bool
deriving DecidableEq, Repr

inductive Request where
  | version
  | run (command : Command)
deriving DecidableEq, Repr

inductive Flag where
  | project
  | outputFolder
  | checks
  | verbose
deriving DecidableEq, Repr

namespace Flag

def ofLong? : String → Option Flag
  | "project" => some project
  | "output-dir" => some outputFolder
  | "checks" => some checks
  | "verbose" => some verbose
  | _ => none

def ofShort? : Char → Option Flag
  | 'p' => some project
  | 'o' => some outputFolder
  | 'c' => some checks
  | 'v' => some verbose
  | _ => none

/-- Only compiling has an output folder. -/
def isAllowed : Flag → Action → Bool
  | outputFolder, .check => false
  | _, _ => true

end Flag

/-- What has been given so far. -/
structure Given where
  project : Option String := none
  outputFolder : Option String := none
  checks : Option ChecksMode := none
  verbose : Bool := false
deriving DecidableEq, Repr

namespace Given

/-- Takes in a flag with its value; each flag is given once, and a path is not empty. -/
def add? (g : Given) (flag : Flag) (value : String) : Option Given :=
  match flag with
  | .project =>
    if g.project.isSome || value.isEmpty then none else some { g with project := some value }
  | .outputFolder =>
    if g.outputFolder.isSome || value.isEmpty then none
    else some { g with outputFolder := some value }
  | .checks =>
    match ChecksMode.parse value with
    | .ok mode => if g.checks.isSome then none else some { g with checks := some mode }
    | .error _ => none
  | .verbose => if g.verbose then none else some { g with verbose := true }

end Given

/-- Whether a word is a flag and cannot be the value of one. -/
def looksLikeFlag (word : String) : Bool :=
  match word.toList with
  | '-' :: _ :: _ => true
  | _ => false

/-- A value that is attached to a short flag, possibly after an equals sign. -/
def attached : List Char → String
  | '=' :: value => String.ofList value
  | value => String.ofList value

/-- Reads short flags written together. A flag that takes a value takes the rest of them, or else
waits for the next word. -/
def readShort? (action : Action) (g : Given) : List Char → Option (Given × Option Flag)
  | [] => some (g, none)
  | c :: rest => do
    let flag ← Flag.ofShort? c
    if !flag.isAllowed action then none
    if flag = .verbose then readShort? action (← g.add? flag "") rest
    else if rest.isEmpty then some (g, some flag)
    else return (← g.add? flag (attached rest), none)

/-- Reads a long flag, with a value after an equals sign or waiting for one. -/
def readLong? (action : Action) (g : Given) (body : List Char) : Option (Given × Option Flag) := do
  let (name, value) := match Text.cut? '=' body with
    | some (name, value) => (name, some (String.ofList value))
    | none => (body, none)
  let flag ← Flag.ofLong? (String.ofList name)
  if !flag.isAllowed action then none
  match flag, value with
  | .verbose, none => return (← g.add? .verbose "", none)
  | .verbose, some _ => none
  | _, some value => return (← g.add? flag value, none)
  | _, none => return (g, some flag)

/-- Reads the words after the action; a flag may be waiting for its value. Two dashes end the
flags, and after them there is nothing to give. -/
def readWords? (action : Action) (g : Given) : Option Flag → List String → Option Given
  | none, [] => some g
  | some _, [] => none
  | some flag, word :: rest => do
    if looksLikeFlag word then none
    readWords? action (← g.add? flag word) none rest
  | none, word :: rest =>
    match word.toList with
    | ['-', '-'] => if rest.isEmpty then some g else none
    | '-' :: '-' :: body => do
      let (g, waiting) ← readLong? action g body
      readWords? action g waiting rest
    | '-' :: c :: body => do
      let (g, waiting) ← readShort? action g (c :: body)
      readWords? action g waiting rest
    | _ => none

def readCommand? (action : Action) (words : List String) : Option Request := do
  let given ← readWords? action {} none words
  let project ← given.project
  return .run {
    action
    options := { project, outputFolder := given.outputFolder, checks := given.checks }
    verbose := given.verbose }

/-- What is asked for, if it can be understood. -/
def parse? : List String → Option Request
  | "compile" :: words => readCommand? .compile words
  | "check" :: words => readCommand? .check words
  | "--version" :: _ => some .version
  | word :: _ =>
    match word.toList with
    | '-' :: 'V' :: _ => some .version
    | _ => none
  | [] => none

/-- What a run leaves behind besides files. -/
structure Outcome where
  code : Nat
  lines : List String := []
  error : Option String := none
deriving DecidableEq, Repr

def versionLine := "rust-ormgen 0.1.0"

def resolvedLines (checks : ChecksMode) (r : Repository) : List String :=
  let classes := r.classes.length
  let tables := r.schema.tables.length
  let mode := checks.text
  [s!"Resolved {classes} persistent classes into {tables} tables ({mode} checks)"]

/-- What a verbose run tells about a project on the way, as far as it comes. -/
def progress (d : Disk) (options : CompileOptions) : List String :=
  match Project.read d options.project with
  | .error _ => []
  | .ok p =>
    let name := p.name
    let files := p.sources.length
    s!"Project {name}: {files} declaration files" ::
      match Declarations.readAll d p.sources with
      | .error _ => []
      | .ok decls =>
        let classes := decls.length
        s!"Parsed {classes} class declarations" ::
          match p.resolve d options with
          | .error _ => []
          | .ok r => resolvedLines (p.checksFor options) r

def failed (lines : List String) (failure : Failure) : Outcome where
  code := 1
  lines := lines
  error := some ("Error: " ++ failure.message)

def writtenLines (verbose : Bool) (paths : OutputPaths) : List String :=
  let descriptor := paths.descriptor
  let schema := paths.schema
  (if verbose then [s!"Created {descriptor} and {schema}"] else []) ++
    [s!"Wrote {descriptor}", s!"Wrote {schema}"]

def runCommand {m : Type → Type} [Monad m] (s : Storage m) (d : Disk) (c : Command) :
    m Outcome := do
  let told := if c.verbose then progress d c.options else []
  match c.action with
  | .check =>
    match checkProject d c.options with
    | .error failure => return failed told failure
    | .ok r =>
      let classes := r.classes.length
      let tables := r.schema.tables.length
      return { code := 0, lines := told ++ [s!"OK: {classes} classes, {tables} tables"] }
  | .compile =>
    match ← compileProject s d c.options with
    | .error failure => return failed told failure
    | .ok paths => return { code := 0, lines := told ++ writtenLines c.verbose paths }

/-- A whole run. Words that cannot be understood end it before anything is read. -/
def run {m : Type → Type} [Monad m] (s : Storage m) (d : Disk) (words : List String) :
    m Outcome :=
  match parse? words with
  | none => pure { code := 2 }
  | some .version => pure { code := 0, lines := [versionLine] }
  | some (.run command) => runCommand s d command

end ClassMap.CommandLine
