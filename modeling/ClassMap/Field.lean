import ClassMap.Descriptor
import ClassMap.Members.Basic
import ClassMap.Options.Field

/-!
Field descriptors: the typed form of an effective field, and the column it is stored in.
-/

set_option autoImplicit false
set_option relaxedAutoImplicit false

namespace ClassMap

/-- What the options and the declared type say about how a field is stored. A type given in the
options stands alone: it brings no conversion and no length of its own. -/
def EffectiveField.storage (className : String) (f : EffectiveField) (options : FieldOptions) :
    Except MappingError TypeMapping :=
  match options.jdbcType, f.type with
  | some jdbcType, _ => .ok { jdbcType, conversion := options.conversion }
  | none, some type =>
    let mapping := TypeMapping.ofType type
    .ok { mapping with conversion := options.conversion <|> mapping.conversion }
  | none, none =>
    .error ⟨className, .invalidOption f.tag.name "jdbc-type" "" (.untypedField f.name)⟩

namespace FieldDescriptor

/-- The descriptor of a field with the options and storage that have been read for it. -/
def ofOptions (f : EffectiveField) (options : FieldOptions) (storage : TypeMapping) :
    FieldDescriptor where
  name := f.name
  declaredIn := f.declaredIn
  column := (options.column <|> f.defaultColumn).getD f.name
  jdbcType := storage.jdbcType
  primaryKey := options.primaryKey
  nullable := options.nullable
  autoincrement := options.autoincrement
  sequenceName := options.sequenceName
  locking := options.locking
  updateLock := options.updateLock
  defaultFetch := options.defaultFetch
  conversion := storage.conversion
  length :=
    if storage.jdbcType.hasLength then
      options.length <|> storage.length <|> some TypeMapping.defaultLength
    else options.length
  precision :=
    if storage.jdbcType.hasPrecision then
      options.precision <|> some TypeMapping.defaultPrecision
    else options.precision
  scale :=
    if storage.jdbcType.hasPrecision then options.scale <|> some TypeMapping.defaultScale
    else options.scale
  access := if f.type.isNone then .anonymous else options.access.getD .readWrite
  id := options.id
  indexed := options.indexed
  defaultValue := options.defaultValue
  documentation := options.documentation
  columnDocumentation := options.columnDocumentation

/-- The descriptor of a field in a class that has it. -/
def build (className : String) (f : EffectiveField) : Except MappingError FieldDescriptor := do
  let options ← FieldOptions.parse className f.tag
  return ofOptions f options (← f.storage className options)

/-- A length, or a precision with its scale. -/
def columnSize (f : FieldDescriptor) : Option String :=
  if f.jdbcType.hasLength then f.length.map (·.toNat.repr)
  else if f.jdbcType.hasPrecision then
    match f.precision, f.scale with
    | some precision, some scale => some (precision.toNat.repr ++ "," ++ scale.toNat.repr)
    | some precision, none => some precision.toNat.repr
    | none, _ => none
  else f.length.map (·.toNat.repr)

def toColumn (f : FieldDescriptor) : Column where
  name := f.column
  jdbcType := f.jdbcType
  size := f.columnSize
  primaryKey := f.primaryKey
  required := f.primaryKey || !f.nullable
  autoIncrement := f.autoincrement == .database
  defaultValue := f.defaultValue
  description := f.columnDocumentation

end FieldDescriptor

/-- The field of that name, blanks around the name aside. A name that has been taken away from
the class is reported as such. -/
def findField (className : String) (fields : List FieldDescriptor) (members : EffectiveMembers)
    (name : String) (use : FieldUse) : Except MappingError FieldDescriptor :=
  let name := Text.trim name
  match fields.find? (·.name == name) with
  | some f => .ok f
  | none =>
    if members.isSuppressed name then .error ⟨className, .suppressedField name use⟩
    else .error ⟨className, .unresolvedField name use⟩

end ClassMap
