import ClassMap.Options.Reader

/-!
Options of indices, stored procedures and procedure arguments.
-/

set_option autoImplicit false
set_option relaxedAutoImplicit false

namespace ClassMap

structure IndexOptions where
  name : String
  fields : List String
  unique : Bool := false
  documentation : Option String := none
deriving DecidableEq, Repr

namespace IndexOptions

def keys : List String :=
  ["name", "fields", "unique", "documentation"]

def parse (className : String) (tag : Tag) : Except MappingError IndexOptions := do
  let r : TagReader := ⟨className, tag⟩
  let fields ← r.someEntries "fields" "an index needs at least one field"
  return {
    name := ← r.required "name" "an index needs a name"
    fields
    unique := ← r.flag "unique" false
    documentation := r.text? "documentation" }

end IndexOptions

structure ProcedureOptions where
  name : String
  arguments : List String
  returnFieldRef : Option String := none
  includeAllFields : Bool := false
  includePkOnly : Bool := false
  documentation : Option String := none
deriving DecidableEq, Repr

namespace ProcedureOptions

def keys : List String :=
  ["name", "arguments", "return-field-ref", "include-all-fields", "include-pk-only",
    "documentation"]

def parse (className : String) (tag : Tag) : Except MappingError ProcedureOptions := do
  let r : TagReader := ⟨className, tag⟩
  return {
    name := ← r.required "name" "a procedure needs a name"
    arguments := r.entries "arguments"
    returnFieldRef := r.text? "return-field-ref"
    includeAllFields := ← r.flag "include-all-fields" false
    includePkOnly := ← r.flag "include-pk-only" false
    documentation := r.text? "documentation" }

end ProcedureOptions

/-- What is passed to a procedure: the value of a field, or a text that stays the same. -/
inductive ArgumentValue where
  | runtime (fieldRef : Option String) (isReturn : Bool)
  | constant (value : String)
deriving DecidableEq, Repr

structure ArgumentOptions where
  name : String
  value : ArgumentValue
deriving DecidableEq, Repr

namespace ArgumentOptions

def runtimeKeys : List String :=
  ["name", "field-ref", "return", "documentation"]

def constantKeys : List String :=
  ["name", "value", "documentation"]

def need := "an argument needs a name"

def parseRuntime (className : String) (tag : Tag) : Except MappingError ArgumentOptions := do
  let r : TagReader := ⟨className, tag⟩
  let name ← r.required "name" need
  return { name, value := .runtime (r.text? "field-ref") (← r.flag "return" false) }

/-- A constant is passed as it was written, blanks included. -/
def parseConstant (className : String) (tag : Tag) : Except MappingError ArgumentOptions := do
  let r : TagReader := ⟨className, tag⟩
  let name ← r.required "name" need
  return { name, value := .constant ((tag.get? "value").getD "") }

end ArgumentOptions

end ClassMap
