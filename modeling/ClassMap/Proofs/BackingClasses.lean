import ClassMap.Container
import ClassMap.Proofs.Hierarchy.Subtyping

/-!
Classes that back collections. A class can hold the elements of a member that is not declared as an
array if it is known, manageable and below one type, which the declared type decides alone: one of
four library interfaces, or the declared type itself. Each of these is kept by the types below the
class, so what may back a member may be replaced by any of its subtypes (`backing_of_subtype`). For
arrays it is not so: two classes are listed for them, and a class below one of these is refused.
-/

set_option autoImplicit false
set_option relaxedAutoImplicit false

namespace ClassMap

/-- The type that a class has to be below to stand for a container of this kind, if there is one. -/
def ContainerKind.bound? (declared : MemberType) : ContainerKind → Option String
  | array => none
  | list => some LibraryType.list
  | set => some LibraryType.set
  | map => some LibraryType.map
  | collection => some LibraryType.collection
  | other => some declared.rawName

namespace Hierarchy

variable {h : Hierarchy} {className member declaredType bound implementation sub sup : String}

theorem accepts_eq_ok_iff {declared : MemberType} {kind : ContainerKind}
    (hbound : kind.bound? declared = some bound) :
    kind.accepts h declared implementation = .ok () ↔
      h.isSubtypeName implementation bound = true := by
  cases kind with
  | array => exact absurd hbound (by simp [ContainerKind.bound?])
  | list | set | map | collection | other =>
    obtain rfl := Option.some.inj hbound
    simp [ContainerKind.accepts, ContainerKind.accepts.implementing]

theorem exists_bound {declared : MemberType} (hdeclared : declared.isArray = false) :
    ∃ bound, (ContainerKind.of h declared).bound? declared = some bound := by
  rw [ContainerKind.of, hdeclared, if_neg Bool.false_ne_true]
  dsimp only
  split_ifs
  all_goals exact ⟨_, rfl⟩

/-- A class may back a member that has a bound if it is known, manageable and below the bound. -/
theorem checkContainer_some_eq_ok_iff
    (hbound : (ContainerKind.of h (MemberType.parse declaredType)).bound?
      (MemberType.parse declaredType) = some bound) :
    h.checkContainer className member declaredType (some implementation) = .ok () ↔
      h.typeExists implementation = true ∧
        h.isSubtypeName implementation LibraryType.manageableCollection = true ∧
        h.isSubtypeName implementation bound = true := by
  rw [← accepts_eq_ok_iff hbound, checkContainer]
  cases hexists : h.typeExists implementation with
  | false => simp
  | true =>
    cases hmanageable : h.isSubtypeName implementation LibraryType.manageableCollection with
    | false => simp
    | true =>
      cases haccepts : (ContainerKind.of h (MemberType.parse declaredType)).accepts h
        (MemberType.parse declaredType) implementation <;> simp

/-- Only names without blanks around them have anything below them. -/
theorem WellNamed.trimmed_of_isSubtypeName (hnames : h.WellNamed)
    (hsub : h.isSubtypeName sub sup = true) : Text.Trimmed sup := by
  rcases hnames.isSubtypeName_iff.mp hsub with rfl | hway
  · exact LibraryType.trimmed_of_isSome (by decide)
  rcases hway.cases_tail with rfl | ⟨below, -, hstep⟩
  · exact Text.trimmed_trim sub
  rw [Walk.Step, nextNames] at hstep
  cases hfind : h.find? below with
  | some c =>
    rw [hfind] at hstep
    exact hnames.supertypes_trimmed c (mem_of_declared? hfind) sup hstep
  | none =>
    rw [hfind] at hstep
    obtain ⟨type, htype, habove⟩ := LibraryType.mem_namesAbove_iff.mp hstep
    exact LibraryType.trimmed_of_isSome
      (LibraryType.isSome_find?_of_mem_supertypes type (LibraryType.find?_eq_some htype).1 sup
        habove)

end Hierarchy

/-- A type that is below a class that may back a member may back it as well, if it is known and the
member is not declared as an array. -/
theorem backing_of_subtype {h : Hierarchy} (hnames : h.WellNamed)
    {className member declaredType implementation sub : String}
    (hdeclared : (MemberType.parse declaredType).isArray = false)
    (hbacks : h.checkContainer className member declaredType (some implementation) = .ok ())
    (hknown : h.typeExists sub = true) (hsub : h.isSubtypeName sub implementation = true) :
    h.checkContainer className member declaredType (some sub) = .ok () := by
  obtain ⟨bound, hbound⟩ := Hierarchy.exists_bound (h := h) hdeclared
  obtain ⟨-, hmanageable, hbelow⟩ := (Hierarchy.checkContainer_some_eq_ok_iff hbound).mp hbacks
  have htrimmed := hnames.trimmed_of_isSubtypeName hsub
  refine (Hierarchy.checkContainer_some_eq_ok_iff hbound).mpr ⟨hknown, ?_, ?_⟩
  · exact hnames.isSubtypeName_trans htrimmed hsub hmanageable
  · exact hnames.isSubtypeName_trans htrimmed hsub hbelow

/-- Crates are lists that can be managed, and they can be stacked; a pallet is a crate. -/
def depot : Hierarchy where
  classes :=
    [{ name := "store.Stack", kind := .interface },
     { name := "store.Crate", superclass := some LibraryType.manageableArrayList,
       interfaces := ["store.Stack"] },
     { name := "store.Pallet", superclass := some "store.Crate" }]
  nodup := by decide

theorem wellNamed_depot : depot.WellNamed := by
  constructor
  case trimmed => decide +kernel
  case supertypes_trimmed => decide +kernel
  case not_library => decide +kernel

theorem backing_of_subtype_depot :
    (MemberType.parse "store.Stack").isArray = false ∧
      depot.checkContainer "Hall" "goods" "store.Stack" (some "store.Crate") = .ok () ∧
      depot.isSubtypeName "store.Pallet" "store.Crate" = true ∧
      depot.checkContainer "Hall" "goods" "store.Stack" (some "store.Pallet") = .ok () ∧
      depot.checkContainer "Hall" "goods" "java.util.List<Good>" (some "store.Pallet") =
        .ok () := by
  have hstack : (MemberType.parse "store.Stack").isArray = false := by decide +kernel
  have hlist : (MemberType.parse "java.util.List<Good>").isArray = false := by decide +kernel
  have hcrate :
      depot.checkContainer "Hall" "goods" "store.Stack" (some "store.Crate") = .ok () := by
    decide +kernel
  have hcrates : depot.checkContainer "Hall" "goods" "java.util.List<Good>"
      (some "store.Crate") = .ok () := by
    decide +kernel
  have hknown : depot.typeExists "store.Pallet" = true := by decide +kernel
  have hsub : depot.isSubtypeName "store.Pallet" "store.Crate" = true := by decide +kernel
  exact ⟨hstack, hcrate, hsub, backing_of_subtype wellNamed_depot hstack hcrate hknown hsub,
    backing_of_subtype wellNamed_depot hlist hcrates hknown hsub⟩

/-- An array may be backed by the listed class, and not by the one right below it. -/
example : depot.checkContainer "Hall" "goods" "Good[]" (some LibraryType.manageableArrayList) =
      .ok () ∧
    (depot.checkContainer "Hall" "goods" "Good[]" (some "store.Crate")).toBool = false := by
  decide +kernel

end ClassMap
