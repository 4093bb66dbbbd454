import ClassMap.Proofs.Members.Carried
import ClassMap.Proofs.Members.Origin
import ClassMap.Proofs.Resolution.Scope

/-!
Inheritance passes members on as they are. A class has each name once, among its fields and among
its associations; a member that it neither declares nor patches is the very member of the first of
its supertypes that has one under that name, so the field descriptors of both classes are equal;
and nothing that a supertype has is lost unless a patch takes it away (`inheritance_transparent`).
-/

set_option autoImplicit false
set_option relaxedAutoImplicit false

namespace ClassMap

open Traversal

/-! ### Descriptors do not depend on the class they are built for -/

section Descriptor

variable {a b : String} {tag : Tag}

/-- The class of a reader shows in its errors only. -/
theorem parsed?_eq_ok_iff {α : Type} {key : String} {parse : String → Except OptionFault α}
    {value : Option α} :
    (TagReader.mk a tag).parsed? key parse = .ok value ↔
      (TagReader.mk b tag).parsed? key parse = .ok value := by
  have htext : (TagReader.mk a tag).text? key = (TagReader.mk b tag).text? key := rfl
  unfold TagReader.parsed?
  rw [htext]
  cases (TagReader.mk b tag).text? key with
  | none => rfl
  | some text =>
    dsimp only
    cases parse text with
    | error fault => simp
    | ok found => rfl

theorem fieldOptions_parse_eq_ok_iff {options : FieldOptions} :
    FieldOptions.parse a tag = .ok options ↔ FieldOptions.parse b tag = .ok options := by
  have htext : ∀ key, (TagReader.mk a tag).text? key = (TagReader.mk b tag).text? key :=
    fun _ ↦ rfl
  have hparsed : ∀ {α : Type} (key : String) (parse : String → Except OptionFault α)
      (value : Option α), (TagReader.mk a tag).parsed? key parse = .ok value ↔
        (TagReader.mk b tag).parsed? key parse = .ok value :=
    fun _ _ _ ↦ parsed?_eq_ok_iff
  simp only [FieldOptions.parse, TagReader.flag, TagReader.unsigned?, TagReader.signed?,
    bind_eq_ok_iff, pure_eq_ok_iff, htext, hparsed]

/-- A field that can be built for two classes has one descriptor. -/
theorem build_eq_ok_iff {f : EffectiveField} {d : FieldDescriptor} :
    FieldDescriptor.build a f = .ok d ↔ FieldDescriptor.build b f = .ok d := by
  have hstorage : ∀ (options : FieldOptions) (storage : TypeMapping),
      f.storage a options = .ok storage ↔ f.storage b options = .ok storage := by
    intro options storage
    unfold EffectiveField.storage
    cases options.jdbcType <;> cases f.type <;> simp
  simp only [FieldDescriptor.build, bind_eq_ok_iff, pure_eq_ok_iff, hstorage,
    fieldOptions_parse_eq_ok_iff (a := a) (b := b)]

end Descriptor

namespace Hierarchy

/-- The first class directly above another that has some property. -/
def firstAbove? (h : Hierarchy) (c : ClassDecl) (has : ClassDecl → Bool) : Option ClassDecl :=
  (h.supertypes c).find? has

/-- What a class inherits is what its supertypes have, and it loses nothing of it by itself. -/
structure Transparent (h : Hierarchy) (table : MemberTable) (c : ClassDecl) : Prop where
  nodup_fields : ((table.membersOf c).fields.map (·.name)).Nodup
  nodup_associations : ((table.membersOf c).associations.map (·.name)).Nodup
  /-- The field of the first supertype that has one of the name, and its descriptor. -/
  field : ∀ f ∈ (table.membersOf c).fields, ¬ h.DeclaresField h.CarriesField c f.name →
    ¬ c.Patches f.name → ∃ above,
      h.firstAbove? c (fun d ↦ (table.membersOf d).hasField f.name) = some above ∧
      (table.membersOf above).field? f.name = some f ∧
      ∀ checks s, Scope.build h checks = .ok s → s.isPersistent c = true →
        s.isPersistent above = true → ∃ d,
          (s.fieldsOf c).find? (·.name == f.name) = some d ∧
          (s.fieldsOf above).find? (·.name == f.name) = some d
  association : ∀ a ∈ (table.membersOf c).associations, ¬ DeclaresAssociation c a.name →
    ¬ c.Patches a.name → ∃ above,
      h.firstAbove? c (fun d ↦ (table.membersOf d).hasAssociation a.name) = some above ∧
      (table.membersOf above).association? a.name = some a
  keeps_fields : c.options.includeInherited = true → ∀ above ∈ h.supertypes c, ∀ name,
    (table.membersOf above).hasField name = true → name ∉ c.inheritedRemovals →
    name ∉ c.nestedRemovals → (table.membersOf c).hasField name = true
  keeps_associations : c.options.includeInherited = true → ∀ above ∈ h.supertypes c, ∀ name,
    (table.membersOf above).hasAssociation name = true → name ∉ c.inheritedRemovals →
    (table.membersOf c).hasAssociation name = true

variable {h : Hierarchy} {table : MemberTable} {c d : ClassDecl} {name : String}

theorem inheritedFrom_eq (hinherits : c.options.includeInherited = true) :
    h.inheritedFrom c = h.supertypes c := by
  rw [inheritedFrom, if_pos hinherits]

/-- What is found by going through the supertypes is found in the first that has it. -/
theorem exists_firstAbove {α : Type} {of : ClassDecl → Option α} {has : ClassDecl → Bool} {x : α}
    (hhas : ∀ d, has d = true ↔ (of d).isSome = true)
    (hfound : (h.inheritedFrom c).findSome? of = some x) :
    ∃ above, h.firstAbove? c has = some above ∧ of above = some x := by
  obtain ⟨before, above, after, hsplit, hx, hnone⟩ := List.findSome?_eq_some_iff.mp hfound
  have hinherits : c.options.includeInherited = true := by
    by_contra hnot
    rw [inheritedFrom, if_neg hnot] at hsplit
    exact absurd hsplit (by simp)
  have habove : has above = true := (hhas above).mpr (by rw [hx]; rfl)
  have hbefore : ∀ d ∈ before, (!has d) = true := by
    intro d hd
    have hnot : ¬ has d = true := by
      rw [hhas d, hnone d hd]
      simp
    simpa using hnot
  rw [inheritedFrom_eq hinherits] at hsplit
  have hfirst : h.firstAbove? c has = some above :=
    List.find?_eq_some_iff_append.mpr ⟨habove, before, after, hsplit, hbefore⟩
  exact ⟨above, hfirst, hx⟩

theorem hasField_iff_isSome (m : EffectiveMembers) :
    m.hasField name = true ↔ (m.field? name).isSome = true := by
  rw [EffectiveMembers.field?, List.find?_isSome, EffectiveMembers.hasField, List.any_eq_true]

theorem hasAssociation_iff_isSome (m : EffectiveMembers) :
    m.hasAssociation name = true ↔ (m.association? name).isSome = true := by
  rw [EffectiveMembers.association?, List.find?_isSome, EffectiveMembers.hasAssociation,
    List.any_eq_true]

end Hierarchy

namespace Scope.Built

variable {h : Hierarchy} {checks : ChecksMode} {s : Scope} {c d : ClassDecl} {name : String}

/-- The descriptor found under a name is the built field of that name. -/
theorem find?_fieldsOf (hs : Built h checks s) (hc : s.isPersistent c = true)
    {f : EffectiveField} (hf : (s.membersOf c).field? name = some f) :
    ∃ d, FieldDescriptor.build c.name f = .ok d ∧
      (s.fieldsOf c).find? (·.name == name) = some d := by
  obtain ⟨p, hp, rfl⟩ := isPersistent_iff.mp hc
  have hname : ∀ g d, FieldDescriptor.build p.decl.name g = .ok d →
      (d.name == name) = (g.name == name) := by
    intro g d hg
    rw [name_of_build hg]
  exact exists_find?_of_mapM (hs.mapM_build_eq hp) hname hf

end Scope.Built

/-- In a hierarchy whose members can be computed, every class has each name once, has what it
neither declares nor patches as the first of its supertypes with that name has it, and loses
nothing that it does not take away. -/
theorem inheritance_transparent {h : Hierarchy} {table : MemberTable}
    (htable : h.memberTable = .ok table) : ∀ c ∈ h.classes, h.Transparent table c := by
  intro c hc
  obtain ⟨hgrounded, hhas⟩ := Hierarchy.memberTable_eq_ok htable
  obtain ⟨hneeds, hstep⟩ := hgrounded.step hc (hhas c hc)
  have hdistinct := Hierarchy.distinct_stepMembers hstep
  have hdeclares : ∀ name, h.DeclaresField (Hierarchy.HasField table.membersOf) c name ↔
      h.DeclaresField h.CarriesField c name :=
    Hierarchy.declaresField_congr fun d hd ↦
      (Hierarchy.members_describe htable (hneeds d hd).1).hasField_iff
  constructor
  case nodup_fields => exact hdistinct.fields
  case nodup_associations => exact hdistinct.associations
  case field =>
    intro f hf hown hpatches
    have hfound : (table.membersOf c).field? f.name = some f :=
      hdistinct.field?_eq_some_iff.mpr ⟨hf, rfl⟩
    have hown' : ¬ h.DeclaresField (Hierarchy.HasField table.membersOf) c f.name :=
      fun hthere ↦ hown ((hdeclares f.name).mp hthere)
    have hinherited := Hierarchy.field?_stepMembers hstep hown' hpatches
    rw [hfound] at hinherited
    obtain ⟨above, hfirst, habove⟩ :=
      Hierarchy.exists_firstAbove (fun _ ↦ Hierarchy.hasField_iff_isSome _) hinherited.symm
    refine ⟨above, hfirst, habove, fun checks s hs hpersistent hpersistent' ↦ ?_⟩
    have hbuilt := Scope.built_of_build hs
    have hmembers : s.members = table := Except.ok.inj (hbuilt.members.symm.trans htable)
    rw [← hmembers] at hfound habove
    obtain ⟨d, hd, hfind⟩ := hbuilt.find?_fieldsOf hpersistent hfound
    obtain ⟨e, he, hfind'⟩ := hbuilt.find?_fieldsOf hpersistent' habove
    have hsame : d = e := Except.ok.inj ((build_eq_ok_iff.mp hd).symm.trans he)
    exact ⟨d, hfind, hsame ▸ hfind'⟩
  case association =>
    intro a ha hown hpatches
    have hfound : (table.membersOf c).association? a.name = some a :=
      hdistinct.association?_eq_some_iff.mpr ⟨ha, rfl⟩
    have hinherited := Hierarchy.association?_stepMembers hstep hown hpatches
    rw [hfound] at hinherited
    exact Hierarchy.exists_firstAbove (fun _ ↦ Hierarchy.hasAssociation_iff_isSome _)
      hinherited.symm
  case keeps_fields =>
    intro hinherits above habove name hname hkept hnested
    rw [← Hierarchy.inheritedFrom_eq hinherits] at habove
    exact (Hierarchy.hasField_stepMembers hstep).mpr
      ⟨Or.inr ⟨⟨above, habove, hname⟩, hkept⟩, hnested⟩
  case keeps_associations =>
    intro hinherits above habove name hname hkept
    rw [← Hierarchy.inheritedFrom_eq hinherits] at habove
    have hspared : c.inheritedRemovals.count name ≤
        (h.inheritAll table.membersOf c).spare name := by
      rw [List.count_eq_zero_of_not_mem hkept]
      exact Nat.zero_le _
    exact (Hierarchy.hasAssociation_stepMembers hstep).mpr
      (Or.inr ⟨⟨above, habove, hname⟩, hspared⟩)

/-- A square comes to the name of a shape by two ways, and gives the area another column. -/
def shapes : List ClassDecl :=
  [{ name := "Named"
     kind := .interface
     members := [⟨"name", "java.lang.String", [⟨"ojb.field", [("column", "NAME")]⟩]⟩] },
   { name := "Shape"
     interfaces := ["Named"]
     tags := [⟨"ojb.class", []⟩,
       ⟨"ojb.modify-inherited", [("name", "name"), ("length", "40")]⟩]
     members := [⟨"id", "int", [⟨"ojb.field", [("primarykey", "true")]⟩]⟩,
       ⟨"area", "int", [⟨"ojb.field", []⟩]⟩] },
   { name := "Square"
     superclass := some "Shape"
     interfaces := ["Named"]
     tags := [⟨"ojb.modify-inherited", [("name", "area"), ("column", "SIDE")]⟩]
     members := [⟨"parent", "Shape", [⟨"ojb.reference", [("foreignkey", "id")]⟩]⟩] }]

theorem inheritance_transparent_shapes :
    ∃ h table, Hierarchy.ofDeclarations shapes = .ok h ∧ h.memberTable = .ok table ∧
      ∀ c ∈ h.classes, h.Transparent table c := by
  have hok : (do
      let h ← Hierarchy.ofDeclarations shapes
      return (← h.memberTable).length) = .ok 3 := by
    decide +kernel
  obtain ⟨h, hh, hrest⟩ := bind_eq_ok_iff.mp hok
  obtain ⟨table, htable, -⟩ := bind_eq_ok_iff.mp hrest
  exact ⟨h, table, hh, htable, inheritance_transparent htable⟩

end ClassMap
