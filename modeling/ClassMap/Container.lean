import ClassMap.Hierarchy.Assignable
import ClassMap.MemberType

/-!
Containers of collections: what the declared type of a member asks of the class that holds its
elements.
-/

set_option autoImplicit false
set_option relaxedAutoImplicit false

namespace ClassMap

inductive ContainerKind where
  | array
  | list
  | set
  | map
  | collection
  | other
deriving DecidableEq, Repr

namespace ContainerKind

def of (h : Hierarchy) (declared : MemberType) : ContainerKind :=
  if declared.isArray then array
  else
    let raw := declared.rawName
    if h.isSubtypeName raw LibraryType.list then list
    else if h.isSubtypeName raw LibraryType.set then set
    else if h.isSubtypeName raw LibraryType.map then map
    else if h.isSubtypeName raw LibraryType.collection then collection
    else other

/-- Whether a class, known to be manageable, can stand for a container of this kind. -/
def accepts (h : Hierarchy) (declared : MemberType) (collectionClass : String) :
    ContainerKind → Except ContainerFault Unit
  | array =>
    if LibraryType.arrayBacking.contains (Text.trim collectionClass) then .ok ()
    else .error .cannotBackArray
  | list => implementing LibraryType.list
  | set => implementing LibraryType.set
  | map => implementing LibraryType.map
  | collection => implementing LibraryType.collection
  | other =>
    if h.isSubtypeName collectionClass declared.rawName then .ok ()
    else .error (.notAssignable declared.rawName)
where
  implementing (required : String) : Except ContainerFault Unit :=
    if h.isSubtypeName collectionClass required then .ok ()
    else .error (.lacksInterface required)

end ContainerKind

/-- Checks the class that holds the elements of a collection member, or the declared type itself
if no class is given. -/
def Hierarchy.checkContainer (h : Hierarchy) (className member declaredType : String)
    (collectionClass : Option String) : Except MappingError Unit :=
  let declared := MemberType.parse declaredType
  let kind := ContainerKind.of h declared
  match collectionClass with
  | none =>
    let raw := declared.rawName
    if kind = .other && !h.isSubtypeName raw LibraryType.manageableCollection then
      .error ⟨className, .container member raw .notCollection⟩
    else .ok ()
  | some implementation =>
    if !h.typeExists implementation then
      .error ⟨className, .unresolvedCollectionClass implementation member⟩
    else if !h.isSubtypeName implementation LibraryType.manageableCollection then
      .error ⟨className, .container member implementation .notManageable⟩
    else match kind.accepts h declared implementation with
      | .ok () => .ok ()
      | .error fault => .error ⟨className, .container member implementation fault⟩

end ClassMap
