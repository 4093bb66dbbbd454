import ClassMap.Proofs.Members.Table

/-!
The names that a class carries, told from the declarations alone. A field comes down to a class
along any way on which no class takes it away, whatever the other ways do to it; a name is
suppressed in a class as soon as it is on one way, unless the class declares it again. The computed
members have these names and suppress these names (`members_describe`).
-/

set_option autoImplicit false
set_option relaxedAutoImplicit false

namespace ClassMap

namespace Hierarchy

/-- A class has a field of that name: it declares it, takes it in with a nested member or inherits
it, and its patches leave it. -/
inductive CarriesField (h : Hierarchy) : ClassDecl → String → Prop
  | declared {c : ClassDecl} {d : DeclaredMapping} (hd : d ∈ c.mappings) (hkind : d.kind = .field)
      (hkept : Text.trim d.name ∉ c.nestedRemovals) : CarriesField h c (Text.trim d.name)
  | inlined {c inner : ClassDecl} {d : DeclaredMapping} {field : String} (hd : d ∈ c.mappings)
      (hkind : d.kind = .nested) (hinner : h.nestedClass c d = .ok inner)
      (hfield : CarriesField h inner field)
      (hkept : Text.trim d.name ++ nestedSeparator ++ field ∉ c.nestedRemovals) :
      CarriesField h c (Text.trim d.name ++ nestedSeparator ++ field)
  | inherited {c above : ClassDecl} {name : String} (habove : above ∈ h.inheritedFrom c)
      (hfield : CarriesField h above name) (hkept : name ∉ c.inheritedRemovals)
      (hnested : name ∉ c.nestedRemovals) : CarriesField h c name

/-- A class declares a member of that name, by itself or inside a nested member. -/
def Declares (h : Hierarchy) (c : ClassDecl) (name : String) : Prop :=
  h.DeclaresField h.CarriesField c name ∨ DeclaresAssociation c name

/-- A class has an association of that name. A patch that could take it away takes away the field
of its name instead, if the class inherits one. -/
inductive CarriesAssociation (h : Hierarchy) : ClassDecl → String → Prop
  | declared {c : ClassDecl} {name : String} (hname : DeclaresAssociation c name) :
      CarriesAssociation h c name
  | inherited {c above : ClassDecl} {name : String} (habove : above ∈ h.inheritedFrom c)
      (hassociation : CarriesAssociation h above name) (hkept : name ∉ c.inheritedRemovals) :
      CarriesAssociation h c name
  | spared {c above other : ClassDecl} {name : String} (habove : above ∈ h.inheritedFrom c)
      (hassociation : CarriesAssociation h above name) (hother : other ∈ h.inheritedFrom c)
      (hfield : CarriesField h other name) (honce : c.inheritedRemovals.count name = 1) :
      CarriesAssociation h c name

/-- A class has a member of that name. -/
def Carries (h : Hierarchy) (c : ClassDecl) (name : String) : Prop :=
  h.CarriesField c name ∨ h.CarriesAssociation c name

/-- A name is taken away in a class or above it, and not declared again on the way down. -/
inductive Suppressed (h : Hierarchy) : ClassDecl → String → Prop
  | removed {c : ClassDecl} {name : String} (hname : name ∈ c.inheritedRemovals)
      (hown : ¬ h.Declares c name) : Suppressed h c name
  | inherited {c above : ClassDecl} {name : String} (habove : above ∈ h.inheritedFrom c)
      (hname : Suppressed h above name) (hown : ¬ h.Declares c name) : Suppressed h c name
  | nested {c : ClassDecl} {name : String} (hname : name ∈ c.nestedRemovals) : Suppressed h c name

variable {h : Hierarchy} {c d : ClassDecl} {table : MemberTable} {m : EffectiveMembers}
  {of : ClassDecl → EffectiveMembers} {name : String}

theorem carriesField_iff :
    h.CarriesField c name ↔
      (h.DeclaresField h.CarriesField c name ∨
        (∃ above ∈ h.inheritedFrom c, h.CarriesField above name) ∧ name ∉ c.inheritedRemovals) ∧
      name ∉ c.nestedRemovals := by
  constructor
  · intro hcarries
    rcases hcarries with ⟨hd, hkind, hkept⟩ | ⟨hd, hkind, hinner, hfield, hkept⟩ |
      ⟨habove, hfield, hkept, hnested⟩
    · exact ⟨Or.inl ⟨_, hd, Or.inl ⟨hkind, rfl⟩⟩, hkept⟩
    · exact ⟨Or.inl ⟨_, hd, Or.inr ⟨hkind, _, _, hinner, hfield, rfl⟩⟩, hkept⟩
    · exact ⟨Or.inr ⟨⟨_, habove, hfield⟩, hkept⟩, hnested⟩
  · intro hparts
    rcases hparts with ⟨⟨d, hd, ⟨hkind, rfl⟩ | ⟨hkind, inner, field, hinner, hfield, rfl⟩⟩ |
      ⟨⟨above, habove, hfield⟩, hkept⟩, hnested⟩
    · exact .declared hd hkind hnested
    · exact .inlined hd hkind hinner hfield hnested
    · exact .inherited habove hfield hkept hnested

theorem carriesAssociation_iff :
    h.CarriesAssociation c name ↔
      DeclaresAssociation c name ∨
        (∃ above ∈ h.inheritedFrom c, h.CarriesAssociation above name) ∧
          (name ∉ c.inheritedRemovals ∨
            c.inheritedRemovals.count name = 1 ∧
              ∃ other ∈ h.inheritedFrom c, h.CarriesField other name) := by
  constructor
  · intro hcarries
    rcases hcarries with hname | ⟨habove, hassociation, hkept⟩ |
      ⟨habove, hassociation, hother, hfield, honce⟩
    · exact Or.inl hname
    · exact Or.inr ⟨⟨_, habove, hassociation⟩, Or.inl hkept⟩
    · exact Or.inr ⟨⟨_, habove, hassociation⟩, Or.inr ⟨honce, _, hother, hfield⟩⟩
  · intro hparts
    rcases hparts with hname |
      ⟨⟨above, habove, hassociation⟩, hkept | ⟨honce, other, hother, hfield⟩⟩
    · exact .declared hname
    · exact .inherited habove hassociation hkept
    · exact .spared habove hassociation hother hfield honce

theorem suppressed_iff :
    h.Suppressed c name ↔
      (((∃ above ∈ h.inheritedFrom c, h.Suppressed above name) ∨ name ∈ c.inheritedRemovals) ∧
        ¬ h.Declares c name) ∨
      name ∈ c.nestedRemovals := by
  constructor
  · intro hsuppressed
    rcases hsuppressed with ⟨hname, hown⟩ | ⟨habove, hname, hown⟩ | hname
    · exact Or.inl ⟨Or.inr hname, hown⟩
    · exact Or.inl ⟨Or.inl ⟨_, habove, hname⟩, hown⟩
    · exact Or.inr hname
  · intro hparts
    rcases hparts with ⟨⟨above, habove, hname⟩ | hname, hown⟩ | hname
    · exact .inherited habove hname hown
    · exact .removed hname hown
    · exact .nested hname

/-- One step up on which a class leaves the fields of a name as they come. -/
def Passes (h : Hierarchy) (name : String) (c above : ClassDecl) : Prop :=
  above ∈ h.inheritedFrom c ∧ name ∉ c.inheritedRemovals ∧ name ∉ c.nestedRemovals

/-- One step up on which a class adds nothing of its own under a name. -/
def Silent (h : Hierarchy) (name : String) (c above : ClassDecl) : Prop :=
  above ∈ h.inheritedFrom c ∧ ¬ h.Declares c name

/-- One way on which nothing takes a field away is enough for a class to have it. -/
theorem carriesField_iff_exists_way :
    h.CarriesField c name ↔ ∃ e, Relation.ReflTransGen (h.Passes name) c e ∧
      h.DeclaresField h.CarriesField e name ∧ name ∉ e.nestedRemovals := by
  constructor
  · intro hcarries
    induction hcarries with
    | declared hd hkind hkept => exact ⟨_, .refl, ⟨_, hd, Or.inl ⟨hkind, rfl⟩⟩, hkept⟩
    | inlined hd hkind hinner hfield hkept _ =>
      exact ⟨_, .refl, ⟨_, hd, Or.inr ⟨hkind, _, _, hinner, hfield, rfl⟩⟩, hkept⟩
    | inherited habove _ hkept hnested ih =>
      obtain ⟨e, hway, he⟩ := ih
      exact ⟨e, .head ⟨habove, hkept, hnested⟩ hway, he⟩
  · intro hways
    obtain ⟨e, hway, hdeclares, hnested⟩ := hways
    induction hway using Relation.ReflTransGen.head_induction_on with
    | refl => exact carriesField_iff.mpr ⟨Or.inl hdeclares, hnested⟩
    | head hstep _ ih =>
      obtain ⟨habove, hkept, hkeptNested⟩ := hstep
      exact .inherited habove ih hkept hkeptNested

/-- One way on which nothing declares a name again is enough for it to stay suppressed. -/
theorem suppressed_iff_exists_way :
    h.Suppressed c name ↔ ∃ e, Relation.ReflTransGen (h.Silent name) c e ∧
      (name ∈ e.inheritedRemovals ∧ ¬ h.Declares e name ∨ name ∈ e.nestedRemovals) := by
  constructor
  · intro hsuppressed
    induction hsuppressed with
    | removed hname hown => exact ⟨_, .refl, Or.inl ⟨hname, hown⟩⟩
    | nested hname => exact ⟨_, .refl, Or.inr hname⟩
    | inherited habove _ hown ih =>
      obtain ⟨e, hway, he⟩ := ih
      exact ⟨e, .head ⟨habove, hown⟩ hway, he⟩
  · intro hways
    obtain ⟨e, hway, he⟩ := hways
    induction hway using Relation.ReflTransGen.head_induction_on with
    | refl =>
      rcases he with ⟨hname, hown⟩ | hnested
      · exact .removed hname hown
      · exact .nested hnested
    | head hstep _ ih =>
      obtain ⟨habove, hown⟩ := hstep
      exact .inherited habove ih hown

/-- The names in the members of a class are those it carries. -/
structure Describes (h : Hierarchy) (c : ClassDecl) (m : EffectiveMembers) : Prop where
  hasField_iff : ∀ name, m.hasField name = true ↔ h.CarriesField c name
  hasAssociation_iff : ∀ name, m.hasAssociation name = true ↔ h.CarriesAssociation c name
  isSuppressed_iff : ∀ name, m.isSuppressed name = true ↔ h.Suppressed c name

theorem declaresField_congr {has carries : ClassDecl → String → Prop}
    (hcongr : ∀ d, h.Needs c d → ∀ name, has d name ↔ carries d name) (name : String) :
    h.DeclaresField has c name ↔ h.DeclaresField carries c name := by
  have himp : ∀ has carries : ClassDecl → String → Prop,
      (∀ d, h.Needs c d → ∀ name, has d name → carries d name) →
      h.DeclaresField has c name → h.DeclaresField carries c name := by
    rintro has carries hcarries ⟨d, hd, hfield | ⟨hkind, inner, field, hinner, hhas, hname⟩⟩
    · exact ⟨d, hd, Or.inl hfield⟩
    · have hneeds : h.Needs c inner := Or.inr ⟨d, hd, hkind, hinner⟩
      exact ⟨d, hd, Or.inr ⟨hkind, inner, field, hinner, hcarries inner hneeds field hhas, hname⟩⟩
  exact ⟨himp has carries fun d hd name ↦ (hcongr d hd name).mp,
    himp carries has fun d hd name ↦ (hcongr d hd name).mpr⟩

/-- One removal takes away an association unless a field of its name goes first, and two removals
take away both. -/
theorem count_le_spare_iff {removals : List String} :
    removals.count name ≤ m.spare name ↔
      name ∉ removals ∨ removals.count name = 1 ∧ m.hasField name = true := by
  rw [← List.count_eq_zero (a := name), EffectiveMembers.spare]
  split
  · rename_i hfield
    simp only [hfield, and_true]
    omega
  · rename_i hfield
    simp only [hfield, and_false, or_false, Bool.false_eq_true]
    omega

/-- A class is described by its members if the classes it needs are described by theirs. -/
theorem describes_of_stepMembers (hm : h.stepMembers of c = .ok m)
    (hneeds : ∀ d, h.Needs c d → h.Describes d (of d)) : h.Describes c m := by
  have habove : ∀ d ∈ h.inheritedFrom c, h.Describes d (of d) :=
    fun d hd ↦ hneeds d (Or.inl hd)
  have hdeclares : ∀ name, h.DeclaresField (HasField of) c name ↔
      h.DeclaresField h.CarriesField c name :=
    declaresField_congr fun d hd ↦ (hneeds d hd).hasField_iff
  have hfields : ∀ name, (∃ d ∈ h.inheritedFrom c, HasField of d name) ↔
      ∃ d ∈ h.inheritedFrom c, h.CarriesField d name := fun name ↦
    exists_congr fun d ↦ and_congr_right fun hd ↦ (habove d hd).hasField_iff name
  refine ⟨fun name ↦ ?_, fun name ↦ ?_, fun name ↦ ?_⟩
  · rw [hasField_stepMembers hm, carriesField_iff, hdeclares, hfields]
  · have hassociations : (∃ d ∈ h.inheritedFrom c, (of d).hasAssociation name = true) ↔
        ∃ d ∈ h.inheritedFrom c, h.CarriesAssociation d name :=
      exists_congr fun d ↦ and_congr_right fun hd ↦ (habove d hd).hasAssociation_iff name
    rw [hasAssociation_stepMembers hm, carriesAssociation_iff, hassociations, count_le_spare_iff,
      (inheritAll_iff name).1, ← hfields]
    rfl
  · have hsuppressed : (∃ d ∈ h.inheritedFrom c, (of d).isSuppressed name = true) ↔
        ∃ d ∈ h.inheritedFrom c, h.Suppressed d name :=
      exists_congr fun d ↦ and_congr_right fun hd ↦ (habove d hd).isSuppressed_iff name
    rw [isSuppressed_stepMembers hm, suppressed_iff, hsuppressed, hdeclares, Declares, not_or]

/-- The members in the table describe every class. -/
theorem members_describe (hmembers : h.memberTable = .ok table) (hc : c ∈ h.classes) :
    h.Describes c (table.membersOf c) := by
  obtain ⟨hgrounded, hhas⟩ := memberTable_eq_ok hmembers
  exact hgrounded.induct (fun _ _ _ hm hneeds ↦ describes_of_stepMembers hm hneeds) hc (hhas c hc)

end Hierarchy

end ClassMap
