import ClassMap.Proofs.Hierarchy.Subtyping
import ClassMap.Proofs.Members.Declaring

/-!
The names of supertypes that can count. A resolution looks classes up, and asks for the subtypes of
the names that the declared types of members come down to; a supertype with any other name leads
nowhere, unless it is a library type below a name that is asked for. The names that are heeded are
closed under the steps of the search for a subtype that end at one of them (`heeds_of_hits`).
-/

set_option autoImplicit false
set_option relaxedAutoImplicit false

namespace ClassMap

open Traversal

/-- Whether a resolution of these declarations can look that name up or ask for its subtypes: it is
the name of a class, one that the check of a container asks for, or that of an element type. -/
def asksFor (decls : List ClassDecl) (name : String) : Bool :=
  decls.any (fun c ↦ c.name == name || c.name == Text.trim name) ||
    decls.any fun c ↦ c.members.any fun member ↦
      (Hierarchy.containerNames (MemberType.parse member.type)).contains name ||
        (MemberType.parse member.type).elementType? == some name

/-- Whether a supertype of that name can count. -/
def heeds (decls : List ClassDecl) (name : String) : Bool :=
  asksFor decls name ||
    LibraryType.all.any fun type ↦ asksFor decls type.name && LibraryType.isSubtype name type.name

variable {decls : List ClassDecl} {name : String}

theorem heeds_of_asksFor (hname : asksFor decls name = true) : heeds decls name = true := by
  rw [heeds, hname, Bool.true_or]

/-- A name below a library type that is heeded is heeded. -/
theorem heeds_of_isSubtype {sup : String} (hsup : heeds decls sup = true)
    (hsub : LibraryType.isSubtype name sup = true) : heeds decls name = true := by
  have hreach := LibraryType.isSubtype_iff.mp hsub
  rcases hreach.cases_head with rfl | ⟨above, hstep, -⟩
  · exact hsup
  obtain ⟨type, hfind, -⟩ := LibraryType.mem_namesAbove_iff.mp hstep
  have hlibrary : (LibraryType.find? sup).isSome :=
    LibraryType.isSome_find?_of_reaches (by rw [hfind]; rfl) hreach
  obtain ⟨top, htop⟩ := Option.isSome_iff_exists.mp hlibrary
  obtain ⟨hmem, rfl⟩ := LibraryType.find?_eq_some htop
  refine Bool.or_eq_true_iff.mpr (Or.inr (List.any_eq_true.mpr ?_))
  rcases Bool.or_eq_true_iff.mp hsup with hasked | hbelow
  · exact ⟨top, hmem, Bool.and_eq_true_iff.mpr ⟨hasked, hsub⟩⟩
  · obtain ⟨further, hfurther, hboth⟩ := List.any_eq_true.mp hbelow
    obtain ⟨hasked, habove⟩ := Bool.and_eq_true_iff.mp hboth
    exact ⟨further, hfurther, Bool.and_eq_true_iff.mpr
      ⟨hasked, LibraryType.isSubtype_iff.mpr (hreach.trans (LibraryType.isSubtype_iff.mp habove))⟩⟩

/-- A name that is not of the registry only counts if it is asked for. -/
theorem heeds_eq_asksFor (hlibrary : LibraryType.find? name = none) :
    heeds decls name = asksFor decls name := by
  rw [heeds, Bool.or_eq_left_iff_imp, List.any_eq_true]
  rintro ⟨type, -, hbelow⟩
  obtain ⟨hasked, hsub⟩ := Bool.and_eq_true_iff.mp hbelow
  rcases (LibraryType.isSubtype_iff.mp hsub).cases_head with rfl | ⟨above, hstep, -⟩
  · exact hasked
  · obtain ⟨other, hfind, -⟩ := LibraryType.mem_namesAbove_iff.mp hstep
    exact absurd (hlibrary.symm.trans hfind) (by simp)

namespace Hierarchy

variable {h : Hierarchy} {c : ClassDecl}

theorem heeds_of_declared? (hc : h.declared? name = some c) : heeds h.classes name = true := by
  obtain ⟨hmem, rfl⟩ := declared?_eq_some_iff.mp hc
  have hany : h.classes.any (fun d ↦ d.name == c.name || d.name == Text.trim c.name) = true :=
    List.any_eq_true.mpr ⟨c, hmem, by simp⟩
  exact heeds_of_asksFor (by rw [asksFor, hany, Bool.true_or])

theorem heeds_of_find? (hc : h.find? name = some c) : heeds h.classes name = true := by
  obtain ⟨hmem, hname⟩ := declared?_eq_some_iff.mp hc
  have hany : h.classes.any (fun d ↦ d.name == name || d.name == Text.trim name) = true :=
    List.any_eq_true.mpr ⟨c, hmem, by simp [hname]⟩
  exact heeds_of_asksFor (by rw [asksFor, hany, Bool.true_or])

/-- The type of a member makes names heeded: those that the check of a container asks for, and that
of the elements. -/
theorem heeds_of_declaresType {type : String} (htype : h.DeclaresType type) :
    (∀ name ∈ containerNames (MemberType.parse type), heeds h.classes name = true) ∧
      ∀ element, (MemberType.parse type).elementType? = some element →
        heeds h.classes element = true := by
  obtain ⟨c, hc, member, hmember, rfl⟩ := htype
  have hheeds : ∀ name, ((containerNames (MemberType.parse member.type)).contains name ||
      (MemberType.parse member.type).elementType? == some name) = true →
        heeds h.classes name = true := by
    intro name hname
    refine heeds_of_asksFor (Bool.or_eq_true_iff.mpr (Or.inr ?_))
    exact List.any_eq_true.mpr ⟨c, hc, List.any_eq_true.mpr ⟨member, hmember, hname⟩⟩
  exact ⟨fun name hname ↦ hheeds name (by simp [hname]),
    fun element helement ↦ hheeds element (by simp [helement])⟩

/-- A search for a name that is heeded can only end at names that are. -/
theorem heeds_of_hits {sup top : String} (hsup : heeds h.classes sup = true)
    (hhits : h.Hits sup top) : heeds h.classes top = true := by
  rcases hhits with rfl | ⟨-, hsub⟩
  · exact hsup
  · exact heeds_of_isSubtype hsup hsub

end Hierarchy

end ClassMap
