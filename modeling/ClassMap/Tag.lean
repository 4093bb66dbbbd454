/-!
Mapping tags: a name with options in the order they were written. A key may be written twice; the
last value counts, while a change goes to the first place the key has.
-/

set_option autoImplicit false
set_option relaxedAutoImplicit false

namespace ClassMap

structure Tag where
  name : String
  attributes : List (String × String) := []
deriving DecidableEq, Repr

namespace Tag

/-- The last value written for a key. -/
def get? (tag : Tag) (key : String) : Option String :=
  (tag.attributes.reverse.find? fun entry ↦ entry.1 == key).map (·.2)

def has (tag : Tag) (key : String) : Bool :=
  (tag.get? key).isSome

/-- Replaces the value at the first place of the key, or adds the key at the end. -/
def putIn (key value : String) : List (String × String) → List (String × String)
  | [] => [(key, value)]
  | entry :: rest =>
    if entry.1 == key then (key, value) :: rest else entry :: putIn key value rest

def set (tag : Tag) (key value : String) : Tag :=
  { tag with attributes := putIn key value tag.attributes }

def erase (tag : Tag) (key : String) : Tag :=
  { tag with attributes := tag.attributes.filter fun entry ↦ entry.1 != key }

@[simp] theorem name_set (tag : Tag) (key value : String) : (tag.set key value).name = tag.name :=
  rfl

@[simp] theorem name_erase (tag : Tag) (key : String) : (tag.erase key).name = tag.name := rfl

@[simp] theorem get?_erase_self (tag : Tag) (key : String) : (tag.erase key).get? key = none := by
  simp [get?, erase]

end Tag

/-! The tags a class or one of its members may carry. -/

namespace TagName

def classTag := "ojb.class"
def extentClass := "ojb.extent-class"
def field := "ojb.field"
def reference := "ojb.reference"
def collection := "ojb.collection"
def nested := "ojb.nested"
def modifyInherited := "ojb.modify-inherited"
def modifyNested := "ojb.modify-nested"
def index := "ojb.index"
def insertProcedure := "ojb.insert-procedure"
def updateProcedure := "ojb.update-procedure"
def deleteProcedure := "ojb.delete-procedure"
def runtimeArgument := "ojb.runtime-argument"
def constantArgument := "ojb.constant-argument"

def onClasses : List String :=
  [classTag, extentClass, field, reference, modifyInherited, modifyNested, index,
    insertProcedure, updateProcedure, deleteProcedure, runtimeArgument, constantArgument]

def onMembers : List String :=
  [field, reference, collection, nested]

end TagName

end ClassMap
