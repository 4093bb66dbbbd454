import ClassMap.Error
import ClassMap.Text.Pieces

/-!
Options that choose one of a few words. Words are read in any case of letters; some choices can
also be written `true` or `false`.
-/

set_option autoImplicit false
set_option relaxedAutoImplicit false

namespace ClassMap

/-- How a field is accessed by its owner. -/
inductive AccessMode where
  | readWrite
  | readOnly
  | anonymous
deriving DecidableEq, Repr

namespace AccessMode

def text : AccessMode → String
  | readWrite => "readwrite"
  | readOnly => "readonly"
  | anonymous => "anonymous"

def parse (s : String) : Except OptionFault AccessMode :=
  match Text.lower s with
  | "readwrite" => .ok readWrite
  | "readonly" => .ok readOnly
  | "anonymous" => .ok anonymous
  | _ => .error .unknownAccess

end AccessMode

/-- Who makes up the value of a primary key. -/
inductive AutoIncrement where
  | none
  | ojb
  | database
deriving DecidableEq, Repr

namespace AutoIncrement

def text : AutoIncrement → String
  | none => "none"
  | ojb => "ojb"
  | database => "database"

def parse (s : String) : Except OptionFault AutoIncrement :=
  match Text.lower s with
  | "none" | "false" => .ok none
  | "ojb" | "true" => .ok ojb
  | "database" => .ok database
  | _ => .error .unknownAutoIncrement

end AutoIncrement

/-- What an update or deletion does to the associated objects. -/
inductive CascadeMode where
  | none
  | link
  | object
deriving DecidableEq, Repr

namespace CascadeMode

def text : CascadeMode → String
  | none => "none"
  | link => "link"
  | object => "object"

def parse (s : String) : Except OptionFault CascadeMode :=
  match Text.lower s with
  | "none" | "false" => .ok none
  | "link" => .ok link
  | "object" | "true" => .ok object
  | _ => .error .unknownCascade

end CascadeMode

/-- How far the transactions of a class are kept apart. -/
inductive IsolationLevel where
  | readUncommitted
  | readCommitted
  | repeatableRead
  | serializable
  | optimistic
  | none
deriving DecidableEq, Repr

namespace IsolationLevel

def text : IsolationLevel → String
  | readUncommitted => "read-uncommitted"
  | readCommitted => "read-committed"
  | repeatableRead => "repeatable-read"
  | serializable => "serializable"
  | optimistic => "optimistic"
  | none => "none"

def parse (s : String) : Except OptionFault IsolationLevel :=
  match Text.lower s with
  | "read-uncommitted" => .ok readUncommitted
  | "read-committed" => .ok readCommitted
  | "repeatable-read" => .ok repeatableRead
  | "serializable" => .ok serializable
  | "optimistic" => .ok optimistic
  | "none" => .ok none
  | _ => .error .unknownIsolation

end IsolationLevel

/-- How much of the declarations is checked against the declared types. -/
inductive ChecksMode where
  /-- Declared types and containers have to fit as well. -/
  | strict
  /-- Only the numbers and column types of keys are compared. -/
  | basic
deriving DecidableEq, Repr

namespace ChecksMode

def text : ChecksMode → String
  | strict => "strict"
  | basic => "basic"

/-- The mode of that name, or the word that names none, as it was understood. -/
def parse (s : String) : Except String ChecksMode :=
  match Text.lower (Text.trim s) with
  | "strict" => .ok strict
  | "basic" => .ok basic
  | other => .error other

def unknownMessage (word : String) : String :=
  s!"unknown checks mode '{word}', expected strict or basic"

end ChecksMode

/-- One entry of an ordering. -/
structure OrderBy where
  field : String
  descending : Bool
deriving DecidableEq, Repr

namespace OrderBy

/-- A field, or a field and a direction after an equals sign. -/
def parse (entry : String) : Except OptionFault OrderBy :=
  match Text.cut? '=' entry.toList with
  | none => .ok { field := entry, descending := false }
  | some (field, direction) =>
    let field := Text.trim (String.ofList field)
    match Text.upper (Text.trim (String.ofList direction)) with
    | "ASC" => .ok { field, descending := false }
    | "DESC" => .ok { field, descending := true }
    | _ => .error .unknownDirection

end OrderBy

end ClassMap
