import ClassMap.JdbcType
import ClassMap.LibraryType

/-!
What can be wrong with a set of class declarations. Every error names the class it was found in
and its cause; the wording is in the `message` functions alone.
-/

set_option autoImplicit false
set_option relaxedAutoImplicit false

namespace ClassMap

/-- Why an option value is refused. -/
inductive OptionFault where
  | notFlag
  | notUnsigned
  | notNumber
  | unknownJdbcType (value : String)
  | unknownAccess
  | unknownAutoIncrement
  | unknownCascade
  | unknownIsolation
  | unknownDirection
  | nameless
  | untypedField (field : String)
  | untargetedReference (reference : String)
  | missing (need : String)
deriving DecidableEq, Repr

def OptionFault.message : OptionFault → String
  | notFlag => "expected true or false"
  | notUnsigned => "expected a non-negative integer"
  | notNumber => "expected a number"
  | unknownJdbcType value => s!"Unknown jdbc type: {value}"
  | unknownAccess => "expected readwrite, readonly or anonymous"
  | unknownAutoIncrement => "expected none, ojb or database"
  | unknownCascade => "expected none, link, object, true or false"
  | unknownIsolation => "unknown isolation level"
  | unknownDirection => "direction must be ASC or DESC"
  | nameless => "anonymous declarations need a name"
  | untypedField field => s!"anonymous field '{field}' needs an explicit jdbc-type"
  | untargetedReference reference => s!"anonymous reference '{reference}' needs a class-ref"
  | missing need => need

/-- Where a field is referred to by name. -/
inductive FieldUse where
  | indexed (index : String)
  | referenceKey (reference : String)
  | inverseKey (collection owner : String)
  | ordering (collection : String)
  | argument (name : String)
  | returned (procedure : String)
deriving DecidableEq, Repr

def FieldUse.text : FieldUse → String
  | indexed index => s!"fields of index '{index}'"
  | referenceKey reference => s!"foreignkey of reference '{reference}'"
  | inverseKey collection owner => s!"inverse foreignkey of collection '{collection}' in {owner}"
  | ordering collection => s!"orderby of collection '{collection}'"
  | argument name => s!"field-ref of procedure argument '{name}'"
  | returned procedure => s!"return-field-ref of procedure '{procedure}'"

/-- Where a persistent class is referred to by name. -/
inductive ClassUse where
  | target (reference : String)
  | element (collection : String)
deriving DecidableEq, Repr

def ClassUse.text : ClassUse → String
  | target reference => s!"reference '{reference}'"
  | element collection => s!"element class of collection '{collection}'"

/-- Why a class cannot hold the elements of a collection member. -/
inductive ContainerFault where
  | notCollection
  | notManageable
  | cannotBackArray
  | notAssignable (declared : String)
  | lacksInterface (required : String)
deriving DecidableEq, Repr

def ContainerFault.message : ContainerFault → String
  | notCollection => "is neither a java.util collection nor a ManageableCollection"
  | notManageable =>
    let required := LibraryType.manageableCollection
    s!"does not implement {required}"
  | cannotBackArray =>
    let usable := ", ".intercalate LibraryType.arrayBacking
    s!"cannot back an array member; use one of {usable}"
  | notAssignable declared => s!"is not assignable to the declared type {declared}"
  | lacksInterface required => s!"does not implement {required} required by the declared type"

/-- The type and size of a column. -/
structure ColumnType where
  jdbcType : JdbcType
  size : Option String
deriving DecidableEq, Repr

def ColumnType.text (t : ColumnType) : String :=
  t.jdbcType.name ++ match t.size with
    | some size => s!"({size})"
    | none => ""

/-- Which list of names has the wrong length for the primary key. -/
inductive KeyList where
  | foreignKey
  | remoteForeignKey
deriving DecidableEq, Repr

def KeyList.text : KeyList → String
  | foreignKey => "foreignkey"
  | remoteForeignKey => "remote-foreignkey"

inductive MappingCause where
  | duplicateClass
  | supertypeCycle
  | nestedCycle
  | notInherited (name : String)
  | notNested (name : String)
  | duplicateField (name : String)
  | duplicateAssociation (name : String)
  | duplicateArgument (name : String)
  | suppressedField (name : String) (use : FieldUse)
  | columnClash (column table : String) (present added : ColumnType)
  | indexClash (index table : String)
  | joinColumnsDisagree (collection element table : String)
  | joinColumnShared (column table collection : String)
  | unresolvedField (name : String) (use : FieldUse)
  | unresolvedExtent (name : String)
  | unresolvedNested (type member : String)
  | unresolvedClass (name : String) (use : ClassUse)
  | unresolvedElement (collection : String)
  | unresolvedRemoteKeys (table collection element : String)
  | unresolvedCollectionClass (name collection : String)
  | unresolvedArgument (name procedure : String)
  | arity (member : String) (keys : KeyList) (count primaryKeys : Nat)
  | incompatibleTarget (reference target declared : String)
  | incompatibleElement (collection element declared : String)
  | keyType (member key : String) (keyColumn : JdbcType) (primaryKey declaredIn : String)
      (primaryColumn : JdbcType)
  | invalidOption (tag option value : String) (fault : OptionFault)
  | container (member collectionClass : String) (fault : ContainerFault)
deriving DecidableEq, Repr

/-- An error in the declarations, found in one class. -/
structure MappingError where
  className : String
  cause : MappingCause
deriving DecidableEq, Repr

/-- The broad kinds of errors. -/
inductive MappingErrorKind where
  | unresolvedReference
  | arityMismatch
  | typeMismatch
  | invalidOptionValue
  | structuralConflict
  | containerCompatibility
deriving DecidableEq, Repr

namespace MappingCause

def kind : MappingCause → MappingErrorKind
  | duplicateClass | supertypeCycle | nestedCycle | notInherited _ | notNested _
  | duplicateField _ | duplicateAssociation _ | duplicateArgument _ | suppressedField ..
  | columnClash .. | indexClash .. | joinColumnsDisagree .. | joinColumnShared .. =>
    .structuralConflict
  | unresolvedField .. | unresolvedExtent _ | unresolvedNested .. | unresolvedClass ..
  | unresolvedElement _ | unresolvedRemoteKeys .. | unresolvedCollectionClass ..
  | unresolvedArgument .. => .unresolvedReference
  | arity .. => .arityMismatch
  | incompatibleTarget .. | incompatibleElement .. | keyType .. => .typeMismatch
  | invalidOption .. => .invalidOptionValue
  | container .. => .containerCompatibility

/-- What stands between the class name and the rest of the message: the member it is about, or
nothing. -/
def member? : MappingCause → Option String
  | arity member .. | incompatibleTarget member .. | incompatibleElement member ..
  | keyType member .. | container member .. => some member
  | _ => none

/-- A name that leads nowhere, with the part of the mapping that uses it. -/
def unresolved (what name context : String) : String :=
  s!"unresolved {what} '{name}' ({context})"

def message : MappingCause → String
  | duplicateClass => "class is declared more than once"
  | supertypeCycle => "class is part of a supertype cycle"
  | nestedCycle => "nested objects form a cycle"
  | notInherited name => s!"modify-inherited names '{name}', which is not an inherited member"
  | notNested name => s!"modify-nested names '{name}', which is not a nested field"
  | duplicateField name => s!"field '{name}' is declared more than once"
  | duplicateAssociation name => s!"member '{name}' is declared more than once"
  | duplicateArgument name => s!"procedure argument '{name}' is declared more than once"
  | suppressedField name use =>
    let context := use.text
    s!"{context} refers to suppressed member '{name}'"
  | columnClash column table present added =>
    let one := present.text
    let two := added.text
    s!"column '{column}' of table '{table}' is declared as {one} and as {two}"
  | indexClash index table => s!"index '{index}' of table '{table}' is declared with different columns"
  | joinColumnsDisagree collection element table =>
    s!"collection '{collection}' and its counterpart in {element} disagree on the columns of indirection table '{table}'"
  | joinColumnShared column table collection =>
    s!"column '{column}' of indirection table '{table}' is used for both sides of collection '{collection}'"
  | unresolvedField name use => unresolved "field" name use.text
  | unresolvedExtent name =>
    unresolved "extent class" name "not a persistent subtype of the declaring class"
  | unresolvedNested type member => unresolved "nested class" type s!"nested member '{member}'"
  | unresolvedClass name use => unresolved "persistent class" name use.text
  | unresolvedElement collection =>
    unresolved "element class" ""
      s!"collection '{collection}' has no element-class-ref and its declared type has no element type"
  | unresolvedRemoteKeys table collection element =>
    unresolved "remote-foreignkey" table
      s!"collection '{collection}' gives no remote-foreignkey and {element} declares no collection on the same indirection table"
  | unresolvedCollectionClass name collection =>
    unresolved "collection class" name s!"collection '{collection}'"
  | unresolvedArgument name procedure =>
    unresolved "procedure argument" name s!"arguments of procedure '{procedure}'"
  | arity _ keys count primaryKeys =>
    let list := keys.text
    s!"{list} has {count} entries but primary key has {primaryKeys}"
  | incompatibleTarget _ target declared =>
    s!"class-ref '{target}' is not compatible with the declared type '{declared}'"
  | incompatibleElement _ element declared =>
    s!"element-class-ref '{element}' is not compatible with the declared element type '{declared}'"
  | keyType _ key keyColumn primaryKey declaredIn primaryColumn =>
    let one := keyColumn.name
    let two := primaryColumn.name
    s!"foreign key '{key}' is {one} but primary key '{primaryKey}' of {declaredIn} is {two}"
  | invalidOption tag option value fault =>
    let reason := fault.message
    s!"invalid value '{value}' for option '{option}' of {tag} ({reason})"
  | container _ collectionClass fault =>
    let reason := fault.message
    s!"collection-class '{collectionClass}' {reason}"

end MappingCause

namespace MappingError

def kind (e : MappingError) : MappingErrorKind :=
  e.cause.kind

def message (e : MappingError) : String :=
  let place := match e.cause.member? with
    | some member => e.className ++ "." ++ member
    | none => e.className
  place ++ ": " ++ e.cause.message

end MappingError

end ClassMap
