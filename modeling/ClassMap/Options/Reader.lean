import ClassMap.Options.Choice
import ClassMap.Tag
import ClassMap.Text.Decimal

/-!
Typed reading of the options of one tag. A value is trimmed first, and an empty one counts as not
given, so every option falls back to its default in the same way.
-/

set_option autoImplicit false
set_option relaxedAutoImplicit false

namespace ClassMap

/-- A tag with the class its errors are reported for. -/
structure TagReader where
  className : String
  tag : Tag

namespace TagReader

def refuse (r : TagReader) (key value : String) (fault : OptionFault) : MappingError :=
  ⟨r.className, .invalidOption r.tag.name key value fault⟩

/-- The trimmed value, unless it is empty. -/
def text? (r : TagReader) (key : String) : Option String :=
  (r.tag.get? key).bind Text.trimmed?

/-- A value read by `parse`; its fault is reported with the value as it was read. -/
def parsed? {α : Type} (r : TagReader) (key : String) (parse : String → Except OptionFault α) :
    Except MappingError (Option α) :=
  match r.text? key with
  | none => .ok none
  | some value =>
    match parse value with
    | .ok a => .ok (some a)
    | .error fault => .error (r.refuse key value fault)

def parseFlag (value : String) : Except OptionFault Bool :=
  match Text.lower value with
  | "true" => .ok true
  | "false" => .ok false
  | _ => .error .notFlag

def flag (r : TagReader) (key : String) (default : Bool) : Except MappingError Bool := do
  return (← r.parsed? key parseFlag).getD default

def parseUnsigned (value : String) : Except OptionFault UInt32 :=
  match Text.unsigned? value with
  | some n => .ok n
  | none => .error .notUnsigned

def unsigned? (r : TagReader) (key : String) : Except MappingError (Option UInt32) :=
  r.parsed? key parseUnsigned

def parseSigned (value : String) : Except OptionFault Int32 :=
  match Text.signed? value with
  | some n => .ok n
  | none => .error .notNumber

def signed? (r : TagReader) (key : String) : Except MappingError (Option Int32) :=
  r.parsed? key parseSigned

def parseJdbcType (value : String) : Except OptionFault JdbcType :=
  match JdbcType.ofText? value with
  | some t => .ok t
  | none => .error (.unknownJdbcType value)

/-- The entries of a comma-separated value; none if the option is not given. -/
def entries (r : TagReader) (key : String) : List String :=
  match r.text? key with
  | some value => Text.entries value
  | none => []

/-- The entries of a value that needs at least one. -/
def someEntries (r : TagReader) (key need : String) : Except MappingError (List String) :=
  match r.entries key with
  | [] => .error (r.refuse key ((r.tag.get? key).getD "") (.missing need))
  | names => .ok names

def required (r : TagReader) (key need : String) : Except MappingError String :=
  match r.text? key with
  | some value => .ok value
  | none => .error (r.refuse key "" (.missing need))

end TagReader

/-- The keys of a tag that are not among the known ones, in order. -/
def Tag.unknownKeys (tag : Tag) (known : List String) : List String :=
  (tag.attributes.map (·.1)).filter (!known.contains ·)

end ClassMap
