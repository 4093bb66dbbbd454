import ClassMap.Proofs.Members.Carried
import ClassMap.Proofs.Members.Dependency

/-!
Where the members of a class are declared. No stage that makes them changes the class a member is
noted as declared in, so whatever holds of that class and of the name above holds below, own members
aside. A class declares a member itself exactly when it declares its name in its kind
(`declaredIn_eq_iff`).
-/

set_option autoImplicit false
set_option relaxedAutoImplicit false

namespace ClassMap

open Traversal

namespace EffectiveMembers

variable {m result above : EffectiveMembers} {name className : String} {patch : Tag}
  {R S : String → String → Option String → Prop}

/-- What holds of the name, the declaring class and the default column of every field, and of the
name, the declaring class and the type of every association. -/
structure Labelled (R S : String → String → Option String → Prop) (m : EffectiveMembers) :
    Prop where
  fields : ∀ f ∈ m.fields, R f.name f.declaredIn f.defaultColumn
  associations : ∀ a ∈ m.associations, S a.name a.declaredIn a.type

theorem labelled_empty : Labelled R S {} :=
  ⟨fun _ hf ↦ absurd hf List.not_mem_nil, fun _ ha ↦ absurd ha List.not_mem_nil⟩

theorem Labelled.mono {R' S' : String → String → Option String → Prop} (hm : m.Labelled R S)
    (hfields : ∀ name declaring column, R name declaring column → R' name declaring column)
    (hassociations : ∀ name declaring type, S name declaring type → S' name declaring type) :
    m.Labelled R' S' :=
  ⟨fun f hf ↦ hfields _ _ _ (hm.fields f hf),
    fun a ha ↦ hassociations _ _ _ (hm.associations a ha)⟩

theorem Labelled.suppressField (hm : m.Labelled R S) : (m.suppressField name).Labelled R S :=
  ⟨fun f hf ↦ hm.fields f (List.mem_filter.mp hf).1, hm.associations⟩

theorem Labelled.suppressAssociation (hm : m.Labelled R S) :
    (m.suppressAssociation name).Labelled R S :=
  ⟨hm.fields, fun a ha ↦ hm.associations a (List.mem_filter.mp ha).1⟩

theorem Labelled.changeField (hm : m.Labelled R S) (change : Tag → Tag) :
    (m.changeField name change).Labelled R S := by
  refine ⟨fun f hf ↦ ?_, hm.associations⟩
  obtain ⟨g, hg, rfl⟩ := List.mem_map.mp hf
  split
  · exact hm.fields g hg
  · exact hm.fields g hg

theorem Labelled.changeAssociation (hm : m.Labelled R S) (change : Tag → Tag) :
    (m.changeAssociation name change).Labelled R S := by
  refine ⟨hm.fields, fun a ha ↦ ?_⟩
  obtain ⟨b, hb, rfl⟩ := List.mem_map.mp ha
  split
  · exact hm.associations b hb
  · exact hm.associations b hb

theorem Labelled.applyInheritedPatches {c : ClassDecl} (hm : m.Labelled R S)
    (h : m.applyInheritedPatches c = .ok result) : result.Labelled R S := by
  refine foldlM_keeps (Labelled R S) h (fun patch _ before after hafter hbefore ↦ ?_) hm
  obtain ⟨name, -, ⟨-, change, rfl | rfl⟩ | ⟨-, ⟨-, rfl⟩ | ⟨-, rfl⟩⟩⟩ :=
    applyInheritedPatch_eq_ok hafter
  · exact hbefore.changeField change
  · exact hbefore.changeAssociation change
  · exact hbefore.suppressField
  · exact hbefore.suppressAssociation

theorem Labelled.applyNestedPatches {c : ClassDecl} (hm : m.Labelled R S)
    (h : m.applyNestedPatches c = .ok result) : result.Labelled R S := by
  refine foldlM_keeps (Labelled R S) h (fun patch _ before after hafter hbefore ↦ ?_) hm
  obtain ⟨name, -, ⟨-, change, rfl⟩ | ⟨-, rfl⟩⟩ := applyNestedPatch_eq_ok hafter
  · exact hbefore.changeField change
  · exact hbefore.suppressField

theorem mem_of_mem_foldl_new {α : Type} {nameOf : α → String} {xs ys : List α} {x : α}
    (hx : x ∈ ys.foldl
      (fun xs y ↦ if xs.any (nameOf · == nameOf y) then xs else xs ++ [y]) xs) :
    x ∈ xs ∨ x ∈ ys := by
  induction ys generalizing xs with
  | nil => exact Or.inl hx
  | cons y rest ih =>
    rw [List.foldl_cons] at hx
    rcases ih hx with hbefore | hrest
    · split at hbefore
      · exact Or.inl hbefore
      · rcases List.mem_append.mp hbefore with hold | hnew
        · exact Or.inl hold
        · exact Or.inr (List.mem_singleton.mp hnew ▸ List.mem_cons_self)
    · exact Or.inr (List.mem_cons_of_mem y hrest)

theorem Labelled.inherit (hm : m.Labelled R S) (habove : above.Labelled R S) :
    (m.inherit above).Labelled R S := by
  refine ⟨fun f hf ↦ ?_, fun a ha ↦ ?_⟩
  · rcases mem_of_mem_foldl_new hf with hold | hnew
    · exact hm.fields f hold
    · exact habove.fields f hnew
  · rcases mem_of_mem_foldl_new ha with hold | hnew
    · exact hm.associations a hold
    · exact habove.associations a hnew

end EffectiveMembers

namespace OwnMembers

variable {own result : OwnMembers} {className : String} {f : EffectiveField}
  {a : EffectiveAssociation} {R S : String → String → Option String → Prop}

/-- What holds of the members a class declares, in the way of `EffectiveMembers.Labelled`. -/
structure Labelled (R S : String → String → Option String → Prop) (own : OwnMembers) : Prop where
  fields : ∀ f ∈ own.fields, R f.name f.declaredIn f.defaultColumn
  associations : ∀ a ∈ own.associations, S a.name a.declaredIn a.type

theorem labelled_empty : Labelled R S {} :=
  ⟨fun _ hf ↦ absurd hf List.not_mem_nil, fun _ ha ↦ absurd ha List.not_mem_nil⟩

theorem Labelled.addField (hown : own.Labelled R S) (hf : R f.name f.declaredIn f.defaultColumn)
    (hadd : own.addField className f = .ok result) : result.Labelled R S := by
  rw [addField_eq_ok hadd]
  refine ⟨fun g hg ↦ ?_, hown.associations⟩
  rcases List.mem_append.mp hg with hold | hnew
  · exact hown.fields g hold
  · exact List.mem_singleton.mp hnew ▸ hf

theorem Labelled.addAssociation (hown : own.Labelled R S) (ha : S a.name a.declaredIn a.type)
    (hadd : own.addAssociation className a = .ok result) : result.Labelled R S := by
  rw [addAssociation_eq_ok hadd]
  refine ⟨hown.fields, fun b hb ↦ ?_⟩
  rcases List.mem_append.mp hb with hold | hnew
  · exact hown.associations b hold
  · exact List.mem_singleton.mp hnew ▸ ha

theorem Labelled.addNested (hown : own.Labelled R S) {name : String} {inner : EffectiveMembers}
    (hinner : ∀ f ∈ inner.fields, R (f.inlined className name).name className
      (f.inlined className name).defaultColumn)
    (hadd : own.addNested className name inner = .ok result) : result.Labelled R S := by
  refine foldlM_keeps (Labelled R S) hadd (fun f hf _ _ hstep hbefore ↦ ?_) hown
  obtain ⟨g, hg, rfl⟩ := List.mem_map.mp hf
  exact hbefore.addField (hinner g hg) hstep

end OwnMembers

namespace EffectiveMembers

variable {m : EffectiveMembers} {own : OwnMembers}
  {R R' S S' : String → String → Option String → Prop}

/-- A member of the members that own ones have joined is an own one, or else an inherited one whose
name no own one of its kind has. -/
theorem Labelled.override (hm : m.Labelled R S) (hown : own.Labelled R' S') :
    (m.override own).Labelled
      (fun name declaring column ↦ (own.hasField name = true ∧ R' name declaring column) ∨
        own.hasField name = false ∧ R name declaring column)
      (fun name declaring type ↦ (own.hasAssociation name = true ∧ S' name declaring type) ∨
        own.hasAssociation name = false ∧ S name declaring type) := by
  refine ⟨fun f hf ↦ ?_, fun a ha ↦ ?_⟩
  · rcases List.mem_append.mp hf with hleft | hown'
    · obtain ⟨hf, hnew⟩ := List.mem_filter.mp hleft
      exact Or.inr ⟨by simpa [OwnMembers.hasField] using hnew, hm.fields f hf⟩
    · exact Or.inl ⟨List.any_eq_true.mpr ⟨f, hown', by simp⟩, hown.fields f hown'⟩
  · rcases List.mem_append.mp ha with hleft | hown'
    · obtain ⟨ha, hnew⟩ := List.mem_filter.mp hleft
      exact Or.inr ⟨by simpa [OwnMembers.hasAssociation] using hnew, hm.associations a ha⟩
    · exact Or.inl ⟨List.any_eq_true.mpr ⟨a, hown', by simp⟩, hown.associations a hown'⟩

end EffectiveMembers

namespace Hierarchy

variable {h : Hierarchy} {c d : ClassDecl} {table : MemberTable} {m : EffectiveMembers}
  {of : ClassDecl → EffectiveMembers} {own : OwnMembers} {name declaring : String}
  {R R' S S' : String → String → Option String → Prop}

theorem labelled_inheritAll (hof : ∀ d ∈ h.inheritedFrom c, (of d).Labelled R S) :
    (h.inheritAll of c).Labelled R S :=
  List.foldlRecOn (h.inheritedFrom c) _ EffectiveMembers.labelled_empty
    fun _ hbefore d hd ↦ hbefore.inherit (hof d hd)

/-- What a mapping contributes is noted as declared by the class it stands in, with the type of the
mapping. It has a name, and a field of its own no default column. -/
theorem contribution_eq_ok_labels {mapping : DeclaredMapping} {contribution : Contribution}
    (hmapping : h.contribution c mapping = .ok contribution) :
    (∀ f, contribution = .field f → f.declaredIn = c.name ∧ f.name ≠ "" ∧
        f.defaultColumn = none) ∧
      ∀ a, contribution = .association a → a.declaredIn = c.name ∧ a.type = mapping.type? := by
  unfold Hierarchy.contribution at hmapping
  dsimp only at hmapping
  split at hmapping
  · exact absurd hmapping (by simp [throw, throwThe, MonadExceptOf.throw, bind, Except.bind])
  · rename_i hnonempty
    have hname : Text.trim mapping.name ≠ "" := by simpa using hnonempty
    cases hkind : mapping.kind with
    | field =>
      simp only [hkind] at hmapping
      obtain rfl := pure_eq_ok_iff.mp hmapping
      refine ⟨fun f hf ↦ ?_, fun a ha ↦ absurd ha (by simp)⟩
      obtain rfl := Contribution.field.inj hf
      exact ⟨rfl, hname, rfl⟩
    | reference =>
      simp only [hkind] at hmapping
      obtain rfl := pure_eq_ok_iff.mp hmapping
      exact ⟨fun f hf ↦ absurd hf (by simp), fun a ha ↦ Contribution.association.inj ha ▸ ⟨rfl, rfl⟩⟩
    | collection =>
      simp only [hkind] at hmapping
      obtain rfl := pure_eq_ok_iff.mp hmapping
      exact ⟨fun f hf ↦ absurd hf (by simp), fun a ha ↦ Contribution.association.inj ha ▸ ⟨rfl, rfl⟩⟩
    | nested =>
      simp only [hkind, bind_eq_ok_iff] at hmapping
      obtain ⟨inner, -, hpure⟩ := hmapping
      obtain rfl := pure_eq_ok_iff.mp hpure
      exact ⟨fun f hf ↦ absurd hf (by simp), fun a ha ↦ absurd ha (by simp)⟩

/-- The members a class declares are noted as declared by it. -/
theorem declaredIn_own (hown : c.mappings.foldlM (h.addMapping of c) {} = .ok own) :
    own.Labelled (fun _ declaring _ ↦ declaring = c.name)
      (fun _ declaring _ ↦ declaring = c.name) := by
  refine foldlM_keeps (OwnMembers.Labelled _ _) hown ?_ OwnMembers.labelled_empty
  intro mapping _ before after hadd hbefore
  obtain ⟨contribution, hcontribution, hadded⟩ := bind_eq_ok_iff.mp hadd
  obtain ⟨hfield, hassociation⟩ := contribution_eq_ok_labels hcontribution
  cases contribution with
  | field f => exact hbefore.addField (hfield f rfl).1 hadded
  | association a => exact hbefore.addAssociation (hassociation a rfl).1 hadded
  | nested name inner => exact hbefore.addNested (fun _ _ ↦ rfl) hadded

/-- A member of a class is one it declares, or else one that comes from above under a name that it
does not declare in that kind. -/
theorem labelled_stepMembers (hm : h.stepMembers of c = .ok m)
    (hof : ∀ d ∈ h.inheritedFrom c, (of d).Labelled R S)
    (hdeclared : ∀ own, c.mappings.foldlM (h.addMapping of c) {} = .ok own → own.Labelled R' S') :
    m.Labelled
      (fun name declaring column ↦
        (h.DeclaresField (HasField of) c name ∧ R' name declaring column) ∨
          ¬ h.DeclaresField (HasField of) c name ∧ R name declaring column)
      (fun name declaring type ↦ (DeclaresAssociation c name ∧ S' name declaring type) ∨
        ¬ DeclaresAssociation c name ∧ S name declaring type) := by
  obtain ⟨inherited, own, patched, hinherited, hown, hpatched, hperm, hassociations, -⟩ :=
    stepMembers_eq_ok hm
  have hcoming := (labelled_inheritAll hof).applyInheritedPatches hinherited
  have hlabels := (hcoming.override (hdeclared own hown)).applyNestedPatches hpatched
  have hkept : patched.Labelled
      (fun name declaring column ↦
        (h.DeclaresField (HasField of) c name ∧ R' name declaring column) ∨
          ¬ h.DeclaresField (HasField of) c name ∧ R name declaring column)
      (fun name declaring type ↦ (DeclaresAssociation c name ∧ S' name declaring type) ∨
        ¬ DeclaresAssociation c name ∧ S name declaring type) := by
    refine hlabels.mono (fun name declaring column ↦ ?_) (fun name declaring type ↦ ?_)
    · rw [← (own_eq_ok hown name).1, Bool.not_eq_true]
      exact id
    · rw [← (own_eq_ok hown name).2, Bool.not_eq_true]
      exact id
  exact ⟨fun f hf ↦ hkept.fields f (hperm.mem_iff.mp hf),
    fun a ha ↦ hkept.associations a (hassociations ▸ ha)⟩

/-- A class of that name is above another, on a way along which members are inherited. -/
def NamedAbove (h : Hierarchy) (c : ClassDecl) (declaring : String) : Prop :=
  ∃ e ∈ h.classes, e.name = declaring ∧ Relation.TransGen h.DependsOn c e

theorem NamedAbove.of_inheritedFrom (hd : d ∈ h.inheritedFrom c)
    (hname : declaring = d.name ∨ h.NamedAbove d declaring) : h.NamedAbove c declaring := by
  have hstep : h.DependsOn c d := needs_iff_dependsOn.mp (Or.inl hd)
  rcases hname with rfl | ⟨e, he, hname, hway⟩
  · exact ⟨d, hstep.mem_classes, rfl, .single hstep⟩
  · exact ⟨e, he, hname, .head hstep hway⟩

/-- Every member of a class is declared in the class or above it. -/
theorem labelled_of_mem_classes (hmembers : h.memberTable = .ok table) (hc : c ∈ h.classes) :
    (table.membersOf c).Labelled
      (fun _ declaring _ ↦ declaring = c.name ∨ h.NamedAbove c declaring)
      (fun _ declaring _ ↦ declaring = c.name ∨ h.NamedAbove c declaring) := by
  obtain ⟨hgrounded, hhas⟩ := memberTable_eq_ok hmembers
  refine hgrounded.induct (motive := fun c m ↦
    m.Labelled (fun _ declaring _ ↦ declaring = c.name ∨ h.NamedAbove c declaring)
      (fun _ declaring _ ↦ declaring = c.name ∨ h.NamedAbove c declaring)) ?_ hc (hhas c hc)
  intro c m of hm hneeds
  have habove : ∀ d ∈ h.inheritedFrom c, (of d).Labelled
      (fun _ declaring _ ↦ h.NamedAbove c declaring) (fun _ declaring _ ↦ h.NamedAbove c declaring) :=
    fun d hd ↦ (hneeds d (Or.inl hd)).mono (fun _ _ _ ↦ .of_inheritedFrom hd)
      (fun _ _ _ ↦ .of_inheritedFrom hd)
  exact (labelled_stepMembers hm habove fun _ ↦ declaredIn_own).mono
    (fun _ _ _ ↦ Or.imp And.right And.right) (fun _ _ _ ↦ Or.imp And.right And.right)

/-- A class is not above itself. -/
theorem not_namedAbove (hmembers : h.memberTable = .ok table) (hc : c ∈ h.classes) :
    ¬ h.NamedAbove c c.name := by
  obtain ⟨hgrounded, hhas⟩ := memberTable_eq_ok hmembers
  rintro ⟨e, he, hname, hway⟩
  obtain rfl := eq_of_name_eq he hc hname
  exact hgrounded.not_transGen he (hhas e he) hway

/-- A member of a class is declared in the class itself exactly when the class declares a member of
that name and kind. -/
theorem declaredIn_eq_iff (hmembers : h.memberTable = .ok table) (hc : c ∈ h.classes) :
    (table.membersOf c).Labelled
      (fun name declaring _ ↦ declaring = c.name ↔ h.DeclaresField h.CarriesField c name)
      (fun name declaring _ ↦ declaring = c.name ↔ DeclaresAssociation c name) := by
  obtain ⟨hgrounded, hhas⟩ := memberTable_eq_ok hmembers
  obtain ⟨hneeds, hstep⟩ := hgrounded.step hc (hhas c hc)
  have hself := not_namedAbove hmembers hc
  have hdeclares : ∀ name, h.DeclaresField (HasField table.membersOf) c name ↔
      h.DeclaresField h.CarriesField c name :=
    declaresField_congr fun d hd ↦ (members_describe hmembers (hneeds d hd).1).hasField_iff
  have habove : ∀ d ∈ h.inheritedFrom c, (table.membersOf d).Labelled
      (fun _ declaring _ ↦ h.NamedAbove c declaring) (fun _ declaring _ ↦ h.NamedAbove c declaring) :=
    fun d hd ↦ (labelled_of_mem_classes hmembers (hneeds d (Or.inl hd)).1).mono
      (fun _ _ _ ↦ .of_inheritedFrom hd) (fun _ _ _ ↦ .of_inheritedFrom hd)
  refine (labelled_stepMembers hstep habove fun _ ↦ declaredIn_own).mono
    (fun name declaring _ hlabel ↦ ?_) (fun name declaring _ hlabel ↦ ?_)
  · rw [← hdeclares]
    rcases hlabel with ⟨hown, rfl⟩ | ⟨hnone, hplace⟩
    · exact iff_of_true rfl hown
    · exact iff_of_false (fun heq ↦ hself (heq ▸ hplace)) hnone
  · rcases hlabel with ⟨hown, rfl⟩ | ⟨hnone, hplace⟩
    · exact iff_of_true rfl hown
    · exact iff_of_false (fun heq ↦ hself (heq ▸ hplace)) hnone

/-! ### Types -/

theorem type_of_mem_mappings {mapping : DeclaredMapping} (hmapping : mapping ∈ c.mappings)
    {type : String} (htype : mapping.type? = some type) :
    ∃ member ∈ c.members, member.type = type := by
  rw [DeclaredMapping.type?, Option.map_eq_some_iff] at htype
  obtain ⟨member, hmember, rfl⟩ := htype
  simp only [ClassDecl.mappings, List.mem_append, ClassDecl.memberMappings, List.mem_flatMap,
    List.mem_filterMap, Option.map_eq_some_iff] at hmapping
  rcases hmapping with hanonymous | ⟨other, hother, tag, -, kind, -, rfl⟩
  · simp only [ClassDecl.anonymousMappings, List.mem_filterMap, Option.bind_eq_bind,
      Option.bind_eq_some_iff] at hanonymous
    obtain ⟨tag, -, kind, -, hentry⟩ := hanonymous
    split at hentry
    · obtain rfl := Option.some.inj hentry
      exact absurd hmember (by simp)
    · exact absurd hentry (by simp)
  · obtain rfl := Option.some.inj hmember
    exact ⟨other, hother, rfl⟩

/-- Some class has a member of that type. -/
def DeclaresType (h : Hierarchy) (type : String) : Prop :=
  ∃ c ∈ h.classes, ∃ member ∈ c.members, member.type = type

/-- The type of an association is that of a member which some class declares. -/
theorem declaresType_of_mem_classes (hmembers : h.memberTable = .ok table) (hc : c ∈ h.classes) :
    (table.membersOf c).Labelled (fun _ _ _ ↦ True)
      (fun _ _ type ↦ ∀ written, type = some written → h.DeclaresType written) := by
  obtain ⟨hgrounded, hhas⟩ := memberTable_eq_ok hmembers
  refine hgrounded.induct (motive := fun c m ↦ c ∈ h.classes → m.Labelled (fun _ _ _ ↦ True)
    (fun _ _ type ↦ ∀ written, type = some written → h.DeclaresType written)) ?_ hc (hhas c hc) hc
  intro c m of hm hneeds hc
  have hown : ∀ own, c.mappings.foldlM (h.addMapping of c) {} = .ok own →
      own.Labelled (fun _ _ _ ↦ True)
        (fun _ _ type ↦ ∀ written, type = some written → h.DeclaresType written) := by
    intro own hown
    refine foldlM_keeps (OwnMembers.Labelled _ _) hown ?_ OwnMembers.labelled_empty
    intro mapping hmapping before after hadd hbefore
    obtain ⟨contribution, hcontribution, hadded⟩ := bind_eq_ok_iff.mp hadd
    cases contribution with
    | field f => exact hbefore.addField trivial hadded
    | association a =>
      refine hbefore.addAssociation (fun written hwritten ↦ ?_) hadded
      rw [((contribution_eq_ok_labels hcontribution).2 a rfl).2] at hwritten
      exact ⟨c, hc, type_of_mem_mappings hmapping hwritten⟩
    | nested name inner => exact hbefore.addNested (fun _ _ ↦ trivial) hadded
  have habove : ∀ d ∈ h.inheritedFrom c, (of d).Labelled (fun _ _ _ ↦ True)
      (fun _ _ type ↦ ∀ written, type = some written → h.DeclaresType written) :=
    fun d hd ↦ hneeds d (Or.inl hd) (mem_classes_of_mem_inheritedFrom hd)
  exact (labelled_stepMembers hm habove hown).mono (fun _ _ _ _ ↦ trivial)
    fun _ _ _ hlabel ↦ hlabel.elim And.right And.right

end Hierarchy

end ClassMap
