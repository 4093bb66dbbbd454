import ClassMap.Hierarchy.Basic
import ClassMap.Proofs.Walk

/-!
The order of a hierarchy, read off the names that declarations mention. Both walks of a hierarchy,
up along the supertypes and down along the subtypes, stay inside this order.
-/

set_option autoImplicit false
set_option relaxedAutoImplicit false

namespace ClassMap

/-- A declaration of the first name mentions the second as a supertype. -/
def DirectlyBelow (decls : List ClassDecl) (sub sup : String) : Prop :=
  ∃ d ∈ decls, d.name = sub ∧ sup ∈ d.supertypeNames

/-- Two different names, with one or more steps up from the first to the second. -/
def StrictlyBelow (decls : List ClassDecl) (sub sup : String) : Prop :=
  sub ≠ sup ∧ Relation.TransGen (DirectlyBelow decls) sub sup

namespace Hierarchy

variable {h : Hierarchy} {c d : ClassDecl} {name : String}

theorem classes_of_ofDeclarations {decls : List ClassDecl}
    (hdecls : ofDeclarations decls = .ok h) : h.classes = decls := by
  unfold ofDeclarations at hdecls
  split at hdecls
  · exact absurd hdecls (by simp)
  · exact (congrArg Hierarchy.classes (Except.ok.inj hdecls)).symm

/-- Declarations with different names are a hierarchy. -/
theorem exists_ofDeclarations {decls : List ClassDecl} (hnodup : (decls.map (·.name)).Nodup) :
    ∃ h, ofDeclarations decls = .ok h := by
  unfold ofDeclarations
  split
  · rename_i name hname
    have hnone : repeated? [] (decls.map (·.name)) = none :=
      repeated?_eq_none_iff.mpr ⟨hnodup, fun _ _ ↦ List.not_mem_nil⟩
    rw [hnone] at hname
    exact absurd hname (by simp)
  · exact ⟨_, rfl⟩

theorem exists_ofDeclarations_iff {decls : List ClassDecl} :
    (∃ h, ofDeclarations decls = .ok h) ↔ (decls.map (·.name)).Nodup :=
  ⟨fun ⟨h, hdecls⟩ ↦ classes_of_ofDeclarations hdecls ▸ h.nodup, exists_ofDeclarations⟩

theorem eq_of_name_eq (hc : c ∈ h.classes) (hd : d ∈ h.classes) (hname : c.name = d.name) :
    c = d :=
  List.inj_on_of_nodup_map h.nodup hc hd hname

theorem declared?_eq_some_iff : h.declared? name = some c ↔ c ∈ h.classes ∧ c.name = name := by
  constructor
  · exact fun hc ↦ ⟨mem_of_declared? hc, name_of_declared? hc⟩
  · intro hdeclared
    obtain ⟨hc, rfl⟩ := hdeclared
    have hfound : (h.declared? c.name).isSome := List.find?_isSome.mpr ⟨c, hc, by simp⟩
    obtain ⟨d, hd⟩ := Option.isSome_iff_exists.mp hfound
    rw [hd, eq_of_name_eq (mem_of_declared? hd) hc (name_of_declared? hd)]

theorem mem_supertypes_iff : d ∈ h.supertypes c ↔ d ∈ h.classes ∧ d.name ∈ c.supertypeNames := by
  constructor
  · exact mem_supertypes
  · intro hmentioned
    obtain ⟨hd, hname⟩ := hmentioned
    exact List.mem_filterMap.mpr ⟨d.name, hname, declared?_eq_some_iff.mpr ⟨hd, rfl⟩⟩

theorem mem_directSubtypes_iff :
    d ∈ h.directSubtypes c ↔ d ∈ h.classes ∧ c.name ∈ d.supertypeNames := by
  simp [directSubtypes, List.mem_filter]

theorem below_of_leads_directSubtypes (hleads : Walk.Leads h.directSubtypes c d) :
    d ∈ h.classes ∧ Relation.TransGen (DirectlyBelow h.classes) d.name c.name := by
  induction hleads with
  | single hstep =>
    obtain ⟨hd, hname⟩ := mem_directSubtypes_iff.mp hstep
    exact ⟨hd, .single ⟨_, hd, rfl, hname⟩⟩
  | tail _ hstep ih =>
    obtain ⟨hd, hname⟩ := mem_directSubtypes_iff.mp hstep
    exact ⟨hd, ih.2.head ⟨_, hd, rfl, hname⟩⟩

theorem below_of_leads_supertypes (hc : c ∈ h.classes) (hleads : Walk.Leads h.supertypes c d) :
    d ∈ h.classes ∧ Relation.TransGen (DirectlyBelow h.classes) c.name d.name := by
  induction hleads with
  | single hstep =>
    obtain ⟨hd, hname⟩ := mem_supertypes_iff.mp hstep
    exact ⟨hd, .single ⟨_, hc, rfl, hname⟩⟩
  | tail _ hstep ih =>
    obtain ⟨hd, hname⟩ := mem_supertypes_iff.mp hstep
    exact ⟨hd, ih.2.tail ⟨_, ih.1, rfl, hname⟩⟩

theorem strictlyBelow_of_mem_subtypeWalk (hc : c ∈ h.classes) (hd : d ∈ h.subtypeWalk c) :
    StrictlyBelow h.classes d.name c.name := by
  obtain ⟨hne, hleads⟩ := Walk.leads_of_mem_tail_preorder hd
  obtain ⟨hmem, hbelow⟩ := below_of_leads_directSubtypes hleads
  exact ⟨fun hname ↦ hne (eq_of_name_eq hmem hc hname), hbelow⟩

theorem strictlyBelow_of_isSubtype (hd : d ∈ h.classes) (hne : d ≠ c)
    (hsub : h.isSubtype d c = true) : StrictlyBelow h.classes d.name c.name := by
  have hchain : c ∈ h.supertypeChain d := by
    simpa [isSubtype, hne] using hsub
  obtain ⟨-, hleads⟩ := Walk.leads_of_mem_tail_preorder hchain
  obtain ⟨hmem, hbelow⟩ := below_of_leads_supertypes hd hleads
  exact ⟨fun hname ↦ hne (eq_of_name_eq hd hmem hname), hbelow⟩

end Hierarchy

end ClassMap
