import ClassMap.Proofs.Hierarchy.Below
import ClassMap.Proofs.Traversal
import ClassMap.Resolution

/-!
What a scope holds once it has been built: each persistent class once, in the order of the
declarations, with extents that are persistent classes below it, and with one field descriptor for
each of its effective fields. A name that is suppressed in a class cannot be looked up in it.
-/

set_option autoImplicit false
set_option relaxedAutoImplicit false

namespace ClassMap

open Traversal

namespace Hierarchy

variable {h : Hierarchy} {c d : ClassDecl} {persistent found : List ClassDecl}

theorem explicitExtent_eq_ok {tag : Tag} (hext : h.explicitExtent persistent c tag = .ok d) :
    d ∈ persistent ∧ d ≠ c ∧ h.isSubtype d c = true := by
  simp only [explicitExtent, bind_eq_ok_iff] at hext
  obtain ⟨target, -, hfound⟩ := hext
  split at hfound
  · split at hfound
    · rename_i e _ hcond
      obtain rfl : e = d := pure_eq_ok_iff.mp hfound
      simpa [and_assoc, and_left_comm] using hcond
    · exact absurd hfound (by simp [throw, throwThe, MonadExceptOf.throw])
  · exact absurd hfound (by simp [throw, throwThe, MonadExceptOf.throw])

/-- Extents are persistent classes below the class, named by its tags or not. -/
theorem mem_extents (hc : c ∈ h.classes) (hsub : ∀ e ∈ persistent, e ∈ h.classes)
    (hext : h.extents persistent c = .ok found) :
    ∀ e ∈ found, e ∈ persistent ∧ StrictlyBelow h.classes e.name c.name := by
  refine foldlM_keeps (fun es ↦ ∀ e ∈ es, e ∈ persistent ∧ StrictlyBelow h.classes e.name c.name)
    hext ?_ ?_
  · intro tag _ before after hstep hbefore
    obtain ⟨e, he, hafter⟩ := bind_eq_ok_iff.mp hstep
    obtain ⟨hmem, hne, hbelow⟩ := explicitExtent_eq_ok he
    rw [pure_eq_ok_iff] at hafter
    subst hafter
    split
    · exact hbefore
    · intro x hx
      rcases List.mem_append.mp hx with hx | hx
      · exact hbefore x hx
      · rw [List.mem_singleton.mp hx]
        exact ⟨hmem, strictlyBelow_of_isSubtype (hsub e hmem) hne hbelow⟩
  · split
    · intro e he
      obtain ⟨hwalk, hcontains⟩ := List.mem_filter.mp he
      exact ⟨List.contains_iff_mem.mp hcontains, strictlyBelow_of_mem_subtypeWalk hc hwalk⟩
    · exact fun e he ↦ absurd he List.not_mem_nil

theorem persistentClasses_eq_ok {classes : List PersistentClass}
    (hclasses : h.persistentClasses = .ok classes) :
    classes.map (·.decl) = h.classes.filter h.isPersistent ∧
      ∀ p ∈ classes, h.extents (h.classes.filter h.isPersistent) p.decl = .ok p.extents := by
  simp only [persistentClasses, bind_eq_ok_iff] at hclasses
  obtain ⟨_, -, _, -, hmap⟩ := hclasses
  have hdecl : ∀ c ∈ h.classes.filter h.isPersistent, ∀ p : PersistentClass,
      (do return (⟨c, ← h.extents (h.classes.filter h.isPersistent) c⟩ : PersistentClass)) =
          Except.ok p →
        p.decl = c ∧ h.extents (h.classes.filter h.isPersistent) c = .ok p.extents := by
    intro c _ p hp
    obtain ⟨extents, hextents, hpure⟩ := bind_eq_ok_iff.mp hp
    rw [pure_eq_ok_iff] at hpure
    subst hpure
    exact ⟨rfl, hextents⟩
  constructor
  · simpa using map_eq_map_of_mapM hmap fun c hc p hp ↦ (hdecl c hc p hp).1
  · intro p hp
    obtain ⟨c, hc, hcp⟩ := exists_of_mem_mapM hmap hp
    obtain ⟨rfl, hextents⟩ := hdecl c hc p hcp
    exact hextents

end Hierarchy

namespace Scope

variable {h : Hierarchy} {checks : ChecksMode} {s : Scope} {p q : PersistentClass} {c : ClassDecl}

theorem name_of_build {className : String} {f : EffectiveField} {descriptor : FieldDescriptor}
    (hf : FieldDescriptor.build className f = .ok descriptor) : descriptor.name = f.name := by
  simp only [FieldDescriptor.build, bind_eq_ok_iff, pure_eq_ok_iff] at hf
  obtain ⟨options, -, storage, -, rfl⟩ := hf
  rfl

theorem find?_of_persistentClass {className target : String} {use : ClassUse}
    (hfound : s.persistentClass className target use = .ok c) :
    s.hierarchy.find? target = some c := by
  unfold persistentClass at hfound
  split at hfound
  · rename_i found hfind
    split at hfound
    · rwa [← Except.ok.inj hfound]
    · exact absurd hfound (by simp)
  · exact absurd hfound (by simp)

theorem mem_of_persistentClass {className target : String} {use : ClassUse}
    (hfound : s.persistentClass className target use = .ok c) : c ∈ s.hierarchy.classes :=
  Hierarchy.mem_of_declared? (find?_of_persistentClass hfound)

theorem mem_of_elementClass {a : EffectiveAssociation} {options : CollectionOptions}
    {element : ClassDecl} (hfound : s.elementClass c a options = .ok element) :
    element ∈ s.hierarchy.classes := by
  simp only [elementClass, bind_eq_ok_iff, pure_eq_ok_iff] at hfound
  obtain ⟨_, -, found, hpersistent, _, -, _, -, rfl⟩ := hfound
  exact mem_of_persistentClass hpersistent

/-- What building a scope has read from its hierarchy. -/
structure Built (h : Hierarchy) (checks : ChecksMode) (s : Scope) : Prop where
  hierarchy : s.hierarchy = h
  checks : s.checks = checks
  classes : h.persistentClasses = .ok s.classes
  members : h.memberTable = .ok s.members
  fields : (s.classes.mapM fun p ↦ do
    return (p.decl.name, ← (s.membersOf p.decl).fields.mapM
      (FieldDescriptor.build p.decl.name))) = .ok s.fields

theorem built_of_build (hs : build h checks = .ok s) : Built h checks s := by
  simp only [build, bind_eq_ok_iff, pure_eq_ok_iff] at hs
  obtain ⟨classes, hclasses, members, hmembers, fields, hfields, rfl⟩ := hs
  exact ⟨rfl, rfl, hclasses, hmembers, hfields⟩

namespace Built

theorem build_eq (hs : Built h checks s) : build h checks = .ok s := by
  simp only [build, bind_eq_ok_iff, pure_eq_ok_iff]
  refine ⟨s.classes, hs.classes, s.members, hs.members, s.fields, hs.fields, ?_⟩
  rw [← hs.hierarchy, ← hs.checks]

theorem decls_eq (hs : Built h checks s) :
    s.classes.map (·.decl) = h.classes.filter h.isPersistent :=
  (Hierarchy.persistentClasses_eq_ok hs.classes).1

theorem mem_classes (hs : Built h checks s) (hp : p ∈ s.classes) : p.decl ∈ h.classes := by
  have hmem : p.decl ∈ s.classes.map (·.decl) := List.mem_map_of_mem hp
  rw [hs.decls_eq] at hmem
  exact List.mem_of_mem_filter hmem

theorem nodup_names (hs : Built h checks s) : (s.classes.map (·.decl.name)).Nodup := by
  have hsublist : (s.classes.map (·.decl)).Sublist h.classes :=
    hs.decls_eq ▸ List.filter_sublist
  have hmap := (hsublist.map ClassDecl.name).nodup h.nodup
  rwa [List.map_map] at hmap

theorem eq_of_name_eq (hs : Built h checks s) (hp : p ∈ s.classes) (hq : q ∈ s.classes)
    (hname : p.decl.name = q.decl.name) : p = q :=
  List.inj_on_of_nodup_map hs.nodup_names hp hq hname

theorem isPersistent_iff : s.isPersistent c = true ↔ ∃ p ∈ s.classes, p.decl = c := by
  simp [isPersistent]

theorem extentsOf_eq (hs : Built h checks s) (hp : p ∈ s.classes) :
    s.extentsOf p.decl = p.extents := by
  have hfound : (s.classes.find? (·.decl == p.decl)).isSome :=
    List.find?_isSome.mpr ⟨p, hp, by simp⟩
  obtain ⟨q, hq⟩ := Option.isSome_iff_exists.mp hfound
  have hdecl : q.decl = p.decl := by simpa using List.find?_some hq
  have heq : q = p := hs.eq_of_name_eq (List.mem_of_find?_eq_some hq) hp (by rw [hdecl])
  rw [extentsOf, hq, heq]

theorem mem_extents (hs : Built h checks s) (hp : p ∈ s.classes) {e : ClassDecl}
    (he : e ∈ p.extents) :
    (∃ q ∈ s.classes, q.decl = e) ∧ StrictlyBelow h.classes e.name p.decl.name := by
  obtain ⟨hdecls, hextents⟩ := Hierarchy.persistentClasses_eq_ok hs.classes
  obtain ⟨hmem, hbelow⟩ := Hierarchy.mem_extents (hs.mem_classes hp)
    (fun _ hd ↦ List.mem_of_mem_filter hd) (hextents p hp) e he
  rw [← hdecls] at hmem
  exact ⟨List.mem_map.mp hmem, hbelow⟩

theorem map_fst_fields (hs : Built h checks s) :
    s.fields.map (·.1) = s.classes.map (·.decl.name) :=
  map_eq_map_of_mapM hs.fields fun q _ entry hentry ↦ by
    obtain ⟨fields, -, hpure⟩ := bind_eq_ok_iff.mp hentry
    exact congrArg Prod.fst (pure_eq_ok_iff.mp hpure).symm

/-- The fields of a persistent class are its effective fields, each built. -/
theorem mapM_build_eq (hs : Built h checks s) (hp : p ∈ s.classes) :
    (s.membersOf p.decl).fields.mapM (FieldDescriptor.build p.decl.name) =
      .ok (s.fieldsOf p.decl) := by
  obtain ⟨entry, hmem, hentry⟩ := exists_mapM_of_mem hs.fields hp
  obtain ⟨fields, hfields, hpure⟩ := bind_eq_ok_iff.mp hentry
  rw [pure_eq_ok_iff] at hpure
  subst hpure
  have hlookup : s.fields.lookup p.decl.name = some fields :=
    lookup_eq_some_of_mem (hs.map_fst_fields ▸ hs.nodup_names) hmem
  rw [hfields, fieldsOf, hlookup]
  rfl

/-- A scope has fields for persistent classes only. -/
theorem fieldsOf_eq_nil (hs : Built h checks s) (hc : ¬ ∃ p ∈ s.classes, p.decl.name = c.name) :
    s.fieldsOf c = [] := by
  have hnone : s.fields.lookup c.name = none := by
    refine List.lookup_eq_none_iff.mpr fun entry hentry ↦ ?_
    have hname : entry.1 ∈ s.classes.map (·.decl.name) :=
      hs.map_fst_fields ▸ List.mem_map_of_mem hentry
    obtain ⟨p, hp, heq⟩ := List.mem_map.mp hname
    have hne : c.name ≠ entry.1 := fun h ↦ hc ⟨p, hp, heq.trans h.symm⟩
    simpa using hne
  rw [fieldsOf, hnone]
  rfl

/-- The fields that a scope has for a class, persistent or not, are effective fields of the
class. -/
theorem hasField_of_mem (hs : Built h checks s) {f : FieldDescriptor} (hf : f ∈ s.fieldsOf c) :
    (s.membersOf c).hasField f.name = true := by
  cases hlookup : s.fields.lookup c.name with
  | none =>
    rw [fieldsOf, hlookup] at hf
    exact absurd hf List.not_mem_nil
  | some fields =>
    obtain ⟨before, after, hsplit, -⟩ := List.lookup_eq_some_iff.mp hlookup
    have hentry : (c.name, fields) ∈ s.fields := by simp [hsplit]
    obtain ⟨p, hp, hbuilt⟩ := exists_of_mem_mapM hs.fields hentry
    obtain ⟨built, -, hpure⟩ := bind_eq_ok_iff.mp hbuilt
    have hname : p.decl.name = c.name := congrArg Prod.fst (pure_eq_ok_iff.mp hpure)
    have hfields : s.fieldsOf p.decl = s.fieldsOf c := by
      rw [fieldsOf, hname, fieldsOf]
    have hmembers : s.membersOf p.decl = s.membersOf c := by
      rw [membersOf, hname, membersOf]
    have hall := hs.mapM_build_eq hp
    rw [hfields, hmembers] at hall
    obtain ⟨e, he, hdescriptor⟩ := exists_of_mem_mapM hall hf
    exact List.any_eq_true.mpr ⟨e, he, beq_iff_eq.mpr (name_of_build hdescriptor).symm⟩

/-- A name that is suppressed in a class and not a field of it is refused wherever it is used. -/
theorem field_eq_error (hs : Built h checks s) {name : String}
    (hsuppressed : (s.membersOf c).isSuppressed (Text.trim name) = true)
    (hfield : ¬ (s.membersOf c).hasField (Text.trim name) = true) (use : FieldUse) :
    s.field c name use = .error ⟨c.name, .suppressedField (Text.trim name) use⟩ := by
  have hnone : (s.fieldsOf c).find? (·.name == Text.trim name) = none := by
    refine List.find?_eq_none.mpr fun f hf hname ↦ hfield ?_
    rw [← beq_iff_eq.mp hname]
    exact hs.hasField_of_mem hf
  simp [field, findField, hnone, hsuppressed]

end Built

end Scope

end ClassMap
