import ClassMap.Members.Basic
import ClassMap.Options.Reader

/-!
Patches: tags of a class that change the options of members it inherits or inlines. An empty
value takes an option back to its default; an empty or true `ignore` takes the member away.
-/

set_option autoImplicit false
set_option relaxedAutoImplicit false

namespace ClassMap

/-- Between the name of a nested member and the name of a field in it. -/
def nestedSeparator := "::"

/-- Whether a name is that of a field inside a nested member. -/
def isNestedName (name : String) : Bool :=
  separated name.toList
where
  separated : List Char → Bool
    | ':' :: ':' :: _ => true
    | _ :: rest => separated rest
    | [] => false

namespace Tag

/-- Keys of a patch that are not options of the member. -/
def controlKeys : List String :=
  ["name", "ignore"]

/-- What one entry of a patch does to a tag. -/
def applyEntry (target : Tag) (entry : String × String) : Tag :=
  if controlKeys.contains entry.1 then target
  else if (Text.trim entry.2).isEmpty then target.erase entry.1
  else target.set entry.1 entry.2

def applyPatch (target patch : Tag) : Tag :=
  patch.attributes.foldl applyEntry target

end Tag

/-- Whether a patch takes its member away. -/
def suppresses (r : TagReader) : Except MappingError Bool :=
  match r.tag.get? "ignore" with
  | some value => if (Text.trim value).isEmpty then .ok true else r.flag "ignore" false
  | none => .ok false

namespace EffectiveMembers

/-- Applies one patch to the inherited members; a field goes before an association of its name. -/
def applyInheritedPatch (className : String) (m : EffectiveMembers) (patch : Tag) :
    Except MappingError EffectiveMembers := do
  let r : TagReader := ⟨className, patch⟩
  let name ← r.required "name" "modify-inherited needs the member name"
  let ignore ← suppresses r
  if m.hasField name then
    return if ignore then m.suppressField name else m.changeField name (·.applyPatch patch)
  else if m.hasAssociation name then
    return if ignore then m.suppressAssociation name
      else m.changeAssociation name (·.applyPatch patch)
  else throw ⟨className, .notInherited name⟩

/-- Applies one patch to a field inside a nested member. -/
def applyNestedPatch (className : String) (m : EffectiveMembers) (patch : Tag) :
    Except MappingError EffectiveMembers := do
  let r : TagReader := ⟨className, patch⟩
  let name ← r.required "name" "modify-nested needs the nested field name"
  let ignore ← suppresses r
  if m.hasField name && isNestedName name then
    return if ignore then m.suppressField name else m.changeField name (·.applyPatch patch)
  else throw ⟨className, .notNested name⟩

end EffectiveMembers

end ClassMap
