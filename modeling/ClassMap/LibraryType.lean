/-!
Library types known without a declaration: the collection classes and interfaces a member may be
declared with, and the ones that can back a mapped collection.
-/

set_option autoImplicit false
set_option relaxedAutoImplicit false

namespace ClassMap

structure LibraryType where
  name : String
  isInterface : Bool
  supertypes : List String
deriving DecidableEq, Repr

namespace LibraryType

def object := "java.lang.Object"
def iterable := "java.lang.Iterable"
def collection := "java.util.Collection"
def list := "java.util.List"
def set := "java.util.Set"
def map := "java.util.Map"
def manageableCollection := "org.apache.ojb.broker.ManageableCollection"
def manageableArrayList := "org.apache.ojb.broker.util.collections.ManageableArrayList"
def manageableVector := "org.apache.ojb.broker.util.collections.ManageableVector"
def manageableHashSet := "org.apache.ojb.broker.util.collections.ManageableHashSet"

/-- Collection classes that may back a member declared as an array. -/
def arrayBacking : List String :=
  [manageableArrayList, manageableVector]

/-- Every type stands after its supertypes. -/
def all : List LibraryType := [
  ⟨object, false, []⟩,
  ⟨iterable, true, []⟩,
  ⟨collection, true, [iterable]⟩,
  ⟨list, true, [collection]⟩,
  ⟨set, true, [collection]⟩,
  ⟨"java.util.SortedSet", true, [set]⟩,
  ⟨map, true, []⟩,
  ⟨"java.util.SortedMap", true, [map]⟩,
  ⟨"java.util.AbstractCollection", false, [collection]⟩,
  ⟨"java.util.AbstractList", false, ["java.util.AbstractCollection", list]⟩,
  ⟨"java.util.ArrayList", false, ["java.util.AbstractList", list]⟩,
  ⟨"java.util.LinkedList", false, ["java.util.AbstractList", list]⟩,
  ⟨"java.util.Vector", false, ["java.util.AbstractList", list]⟩,
  ⟨"java.util.AbstractSet", false, ["java.util.AbstractCollection", set]⟩,
  ⟨"java.util.HashSet", false, ["java.util.AbstractSet", set]⟩,
  ⟨"java.util.LinkedHashSet", false, ["java.util.HashSet", set]⟩,
  ⟨"java.util.TreeSet", false, ["java.util.AbstractSet", "java.util.SortedSet"]⟩,
  ⟨"java.util.AbstractMap", false, [map]⟩,
  ⟨"java.util.HashMap", false, ["java.util.AbstractMap", map]⟩,
  ⟨"java.util.TreeMap", false, ["java.util.AbstractMap", "java.util.SortedMap"]⟩,
  ⟨"java.util.Hashtable", false, [map]⟩,
  ⟨manageableCollection, true, []⟩,
  ⟨manageableArrayList, false, ["java.util.ArrayList", manageableCollection]⟩,
  ⟨manageableVector, false, ["java.util.Vector", manageableCollection]⟩,
  ⟨manageableHashSet, false, ["java.util.HashSet", manageableCollection]⟩,
  ⟨"org.apache.ojb.broker.util.collections.RemovalAwareCollection", false, [manageableVector]⟩,
  ⟨"org.apache.ojb.broker.util.collections.RemovalAwareList", false, [manageableArrayList]⟩,
  ⟨"org.apache.ojb.broker.util.collections.RemovalAwareSet", false, [manageableHashSet]⟩]

def find? (name : String) : Option LibraryType :=
  all.find? (·.name == name)

/-- Subtyping in at most `depth` steps up. -/
def isSubtypeWithin : Nat → String → String → Bool
  | 0, sub, sup => sub == sup
  | depth + 1, sub, sup =>
    sub == sup || match find? sub with
      | some type => type.supertypes.any fun above ↦ isSubtypeWithin depth above sup
      | none => false

/-- Reflexive and transitive; no chain of supertypes is longer than the registry. -/
def isSubtype (sub sup : String) : Bool :=
  isSubtypeWithin all.length sub sup

@[simp] theorem isSubtype_self (name : String) : isSubtype name name = true := by
  simp [isSubtype, isSubtypeWithin, all]

end LibraryType

end ClassMap
