import ClassMap.Proofs.Extents

/-!
Navigation in a hierarchy of any shape, with cycles, diamonds and supertypes that are named twice.
The walk up from a class shares what it has met among all its branches, and still leaves nothing
out: the order of a hierarchy is read off the names that the declarations mention, and the walk
lists exactly the classes above its start in that order (`navigation_exact`).
-/

set_option autoImplicit false
set_option relaxedAutoImplicit false

namespace ClassMap

open Traversal

namespace Hierarchy

/-- What the ways of a hierarchy lead to. The supertypes of a class are the classes it names, its
subtypes those that name it, and its chain has every other class above it once. -/
structure Navigable (h : Hierarchy) : Prop where
  mem_supertypes : ∀ c d, d ∈ h.supertypes c ↔ d ∈ h.classes ∧ d.name ∈ c.supertypeNames
  mem_subtypes : ∀ c ∈ h.classes, ∀ d,
    d ∈ h.directSubtypes c ↔ d ∈ h.classes ∧ c ∈ h.supertypes d
  subtypes_nodup : ∀ c ∈ h.classes, (h.directSubtypes c).Nodup
  subtypes_order : ∀ c ∈ h.classes, (h.directSubtypes c).Sublist h.classes
  mem_chain : ∀ c ∈ h.classes, ∀ d,
    d ∈ h.supertypeChain c ↔ d ≠ c ∧ d ∈ h.classes ∧ h.IsBelow c d
  chain_nodup : ∀ c ∈ h.classes, (h.supertypeChain c).Nodup
  refl : ∀ c ∈ h.classes, h.isSubtype c c = true
  trans : ∀ c ∈ h.classes, ∀ d ∈ h.classes, ∀ e ∈ h.classes,
    h.isSubtype c d = true → h.isSubtype d e = true → h.isSubtype c e = true

variable {h : Hierarchy} {c d : ClassDecl}

theorem nodup_classes (h : Hierarchy) : h.classes.Nodup :=
  List.Nodup.of_map _ h.nodup

/-- A class is a subtype of itself and of whatever is above it. -/
theorem isSubtype_iff (hc : c ∈ h.classes) (hd : d ∈ h.classes) :
    h.isSubtype c d = true ↔ c = d ∨ h.IsBelow c d := by
  simp only [isSubtype, Bool.or_eq_true, beq_iff_eq, List.contains_iff_mem,
    mem_supertypeChain_iff hc]
  constructor
  · rintro (heq | hchain)
    · exact Or.inl heq
    · exact Or.inr hchain.2.2
  · rintro (heq | hbelow)
    · exact Or.inl heq
    · by_cases heq : c = d
      · exact Or.inl heq
      · exact Or.inr ⟨fun hdc ↦ heq hdc.symm, hd, hbelow⟩

theorem navigable (h : Hierarchy) : h.Navigable := by
  constructor
  case mem_supertypes => exact fun c d ↦ mem_supertypes_iff
  case mem_subtypes =>
    intro c hc d
    rw [mem_directSubtypes_iff, mem_supertypes_iff]
    exact ⟨fun hd ↦ ⟨hd.1, hc, hd.2⟩, fun hd ↦ ⟨hd.1, hd.2.2⟩⟩
  case subtypes_nodup => exact fun c _ ↦ h.nodup_classes.filter _
  case subtypes_order => exact fun c _ ↦ List.filter_sublist
  case mem_chain => exact fun c hc d ↦ mem_supertypeChain_iff hc
  case chain_nodup => exact fun c _ ↦ (Walk.nodup_preorder h.depth c).tail
  case refl => exact fun c _ ↦ isSubtype_self h c
  case trans =>
    intro c hc d hd e he hcd hde
    rw [isSubtype_iff hc hd] at hcd
    rw [isSubtype_iff hd he] at hde
    rw [isSubtype_iff hc he]
    rcases hcd with rfl | hcd
    · exact hde
    · rcases hde with rfl | hde
      · exact Or.inr hcd
      · exact Or.inr (Relation.TransGen.trans hcd hde)

end Hierarchy

/-- Declarations with different names are a hierarchy, and all navigation in it is exact. -/
theorem navigation_exact {decls : List ClassDecl} (hnodup : (decls.map (·.name)).Nodup) :
    ∃ h, Hierarchy.ofDeclarations decls = .ok h ∧ h.classes = decls ∧ h.Navigable := by
  obtain ⟨h, hdecls⟩ := Hierarchy.exists_ofDeclarations hnodup
  exact ⟨h, hdecls, Hierarchy.classes_of_ofDeclarations hdecls, h.navigable⟩

/-- Two roads from the ferry up to the vessel, one of which it names twice; the vessel and the ship
are on a cycle, and the raft is above itself. -/
def ringOfShips : List ClassDecl :=
  [{ name := "Vessel", kind := .interface, interfaces := ["Ship", "java.io.Serializable"] },
   { name := "Ship", kind := .interface, interfaces := ["Vessel"] },
   { name := "Carrier", kind := .interface, interfaces := ["Vessel"] },
   { name := "Ferry", superclass := some "Ship", interfaces := ["Carrier", "Carrier"] },
   { name := "Raft", superclass := some "Raft" }]

theorem navigation_exact_ringOfShips :
    (ringOfShips.map (·.name)).Nodup ∧ ∃ h, Hierarchy.ofDeclarations ringOfShips = .ok h ∧
      h.classes = ringOfShips ∧ h.Navigable ∧
      h.classes.map (fun c ↦ (h.supertypeChain c).map (·.name)) =
        [["Ship"], ["Vessel"], ["Vessel", "Ship"], ["Ship", "Vessel", "Carrier"], []] := by
  have hnodup : (ringOfShips.map (·.name)).Nodup := by decide
  obtain ⟨h, hdecls, hclasses, hnavigable⟩ := navigation_exact hnodup
  have hchains : (do
      let h ← Hierarchy.ofDeclarations ringOfShips
      return h.classes.map fun c ↦ (h.supertypeChain c).map ClassDecl.name) =
        .ok [["Ship"], ["Vessel"], ["Vessel", "Ship"], ["Ship", "Vessel", "Carrier"], []] := by
    decide +kernel
  rw [hdecls] at hchains
  exact ⟨hnodup, h, hdecls, hclasses, hnavigable, pure_eq_ok_iff.mp hchains⟩

end ClassMap
