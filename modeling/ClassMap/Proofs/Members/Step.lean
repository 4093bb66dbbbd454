import ClassMap.Members.Table
import ClassMap.Proofs.Members.Names
import ClassMap.Proofs.Members.Order

/-!
The members of one class, given those of the classes it needs. What a class has is what it
declares, what its nested members take in and what it inherits, less what its patches take away;
what is suppressed in it is what its patches take away or what is suppressed above, less what it
declares again.
-/

set_option autoImplicit false
set_option relaxedAutoImplicit false

namespace ClassMap

open Traversal

namespace OwnMembers

def hasField (own : OwnMembers) (name : String) : Bool :=
  own.fields.any (·.name == name)

def hasAssociation (own : OwnMembers) (name : String) : Bool :=
  own.associations.any (·.name == name)

variable {own result : OwnMembers} {className name other : String} {f : EffectiveField}
  {a : EffectiveAssociation}

theorem addField_eq_ok (h : own.addField className f = .ok result) :
    result = { own with fields := own.fields ++ [f] } := by
  unfold addField at h
  split at h
  · exact absurd h (by simp)
  · exact (Except.ok.inj h).symm

theorem addAssociation_eq_ok (h : own.addAssociation className a = .ok result) :
    result = { own with associations := own.associations ++ [a] } := by
  unfold addAssociation at h
  split at h
  · exact absurd h (by simp)
  · exact (Except.ok.inj h).symm

theorem hasField_addField (h : own.addField className f = .ok result) :
    result.hasField name = true ↔ own.hasField name = true ∨ f.name = name := by
  rw [addField_eq_ok h]
  simp [hasField]

theorem hasAssociation_addAssociation (h : own.addAssociation className a = .ok result) :
    result.hasAssociation name = true ↔ own.hasAssociation name = true ∨ a.name = name := by
  rw [addAssociation_eq_ok h]
  simp [hasAssociation]

theorem hasField_foldlM_addField {fields : List EffectiveField}
    (h : fields.foldlM (addField className) own = .ok result) :
    result.hasField name = true ↔ own.hasField name = true ∨ ∃ f ∈ fields, f.name = name := by
  induction fields generalizing own with
  | nil =>
    obtain rfl := pure_eq_ok_iff.mp h
    simp
  | cons f rest ih =>
    obtain ⟨middle, hmiddle, hrest⟩ := bind_eq_ok_iff.mp h
    rw [ih hrest, hasField_addField hmiddle, or_assoc]
    simp

/-- The fields of a nested member come in under names that start with its own. -/
theorem hasField_addNested {inner : EffectiveMembers}
    (h : own.addNested className other inner = .ok result) :
    result.hasField name = true ↔ own.hasField name = true ∨
      ∃ field, inner.hasField field = true ∧ other ++ nestedSeparator ++ field = name := by
  rw [hasField_foldlM_addField h]
  refine or_congr_right ?_
  simp only [List.mem_map, EffectiveMembers.hasField, List.any_eq_true, beq_iff_eq]
  constructor
  · intro hthere
    obtain ⟨f, ⟨g, hg, rfl⟩, rfl⟩ := hthere
    exact ⟨g.name, ⟨g, hg, rfl⟩, rfl⟩
  · intro hthere
    obtain ⟨field, ⟨g, hg, rfl⟩, rfl⟩ := hthere
    exact ⟨_, ⟨g, hg, rfl⟩, rfl⟩

theorem associations_addNested {inner : EffectiveMembers}
    (h : own.addNested className other inner = .ok result) :
    result.associations = own.associations :=
  foldlM_keeps (fun after ↦ after.associations = own.associations) h
    (fun _ _ _ _ hstep hbefore ↦ by rw [addField_eq_ok hstep]; exact hbefore) rfl

end OwnMembers

namespace Hierarchy

variable {h : Hierarchy} {c : ClassDecl} {of : ClassDecl → EffectiveMembers} {name : String}
  {d : DeclaredMapping}

/-- Adds what one mapping contributes, the members of nested classes being given. -/
def addMapping (h : Hierarchy) (of : ClassDecl → EffectiveMembers) (c : ClassDecl)
    (own : OwnMembers) (d : DeclaredMapping) : Except MappingError OwnMembers := do
  match ← h.contribution c d with
  | .field f => own.addField c.name f
  | .association a => own.addAssociation c.name a
  | .nested name inner => own.addNested c.name name (of inner)

/-- What a class takes over from above, the members of the classes there being given. -/
def inheritAll (h : Hierarchy) (of : ClassDecl → EffectiveMembers) (c : ClassDecl) :
    EffectiveMembers :=
  (h.inheritedFrom c).foldl (fun inherited above ↦ inherited.inherit (of above)) {}

/-- The members of a class, given those of the classes it needs. -/
def stepMembers (h : Hierarchy) (of : ClassDecl → EffectiveMembers) (c : ClassDecl) :
    Except MappingError EffectiveMembers := do
  let inherited ← (h.inheritAll of c).applyInheritedPatches c
  let own ← c.mappings.foldlM (h.addMapping of c) {}
  EffectiveMembers.complete c inherited own

/-- A mapping of a class makes a field of that name, by itself or by a nested member. -/
def MakesField (h : Hierarchy) (has : ClassDecl → String → Prop) (c : ClassDecl)
    (d : DeclaredMapping) (name : String) : Prop :=
  (d.kind = .field ∧ Text.trim d.name = name) ∨
    (d.kind = .nested ∧ ∃ inner field, h.nestedClass c d = .ok inner ∧ has inner field ∧
      Text.trim d.name ++ nestedSeparator ++ field = name)

def MakesAssociation (d : DeclaredMapping) (name : String) : Prop :=
  d.kind.isAssociation = true ∧ Text.trim d.name = name

/-- What one mapping contributes. -/
theorem contribution_eq_ok {contribution : Contribution}
    (hd : h.contribution c d = .ok contribution) :
    (∃ f, contribution = .field f ∧ d.kind = .field ∧ f.name = Text.trim d.name) ∨
    (∃ a, contribution = .association a ∧ d.kind.isAssociation = true ∧
      a.name = Text.trim d.name) ∨
    ∃ inner, contribution = .nested (Text.trim d.name) inner ∧ d.kind = .nested ∧
      h.nestedClass c d = .ok inner := by
  unfold Hierarchy.contribution at hd
  dsimp only at hd
  split at hd
  · exact absurd hd (by simp [throw, throwThe, MonadExceptOf.throw, bind, Except.bind])
  · cases hkind : d.kind with
    | field =>
      simp only [hkind] at hd
      obtain rfl := pure_eq_ok_iff.mp hd
      exact Or.inl ⟨_, rfl, rfl, rfl⟩
    | reference =>
      simp only [hkind] at hd
      obtain rfl := pure_eq_ok_iff.mp hd
      exact Or.inr (Or.inl ⟨_, rfl, rfl, rfl⟩)
    | collection =>
      simp only [hkind] at hd
      obtain rfl := pure_eq_ok_iff.mp hd
      exact Or.inr (Or.inl ⟨_, rfl, rfl, rfl⟩)
    | nested =>
      simp only [hkind, bind_eq_ok_iff] at hd
      obtain ⟨inner, hinner, hpure⟩ := hd
      obtain rfl := pure_eq_ok_iff.mp hpure
      exact Or.inr (Or.inr ⟨inner, rfl, rfl, hinner⟩)

/-- A class makes a field of that name by one of its mappings. -/
def DeclaresField (h : Hierarchy) (has : ClassDecl → String → Prop) (c : ClassDecl)
    (name : String) : Prop :=
  ∃ d ∈ c.mappings, h.MakesField has c d name

def DeclaresAssociation (c : ClassDecl) (name : String) : Prop :=
  ∃ d ∈ c.mappings, MakesAssociation d name

/-- The fields that the given members have. -/
def HasField (of : ClassDecl → EffectiveMembers) (c : ClassDecl) (name : String) : Prop :=
  (of c).hasField name = true

variable {own result : OwnMembers} {m : EffectiveMembers}

theorem addMapping_eq_ok (hadd : h.addMapping of c own d = .ok result) (name : String) :
    (result.hasField name = true ↔
        own.hasField name = true ∨ h.MakesField (HasField of) c d name) ∧
      (result.hasAssociation name = true ↔
        own.hasAssociation name = true ∨ MakesAssociation d name) := by
  obtain ⟨contribution, hcontribution, hrest⟩ := bind_eq_ok_iff.mp hadd
  rcases contribution_eq_ok hcontribution with ⟨f, rfl, hkind, hname⟩ | ⟨a, rfl, hkind, hname⟩ |
    ⟨inner, rfl, hkind, hinner⟩
  · constructor
    · rw [OwnMembers.hasField_addField hrest]
      simp [MakesField, hkind, hname]
    · rw [OwnMembers.hasAssociation, OwnMembers.addField_eq_ok hrest]
      simp [MakesAssociation, hkind, OwnMembers.hasAssociation, MappingKind.isAssociation]
  · have hnone : ¬ h.MakesField (HasField of) c d name := by
      rintro (⟨hfield, -⟩ | ⟨hnested, -⟩)
      · simp [hfield, MappingKind.isAssociation] at hkind
      · simp [hnested, MappingKind.isAssociation] at hkind
    constructor
    · rw [OwnMembers.hasField, OwnMembers.addAssociation_eq_ok hrest, or_iff_left hnone,
        OwnMembers.hasField]
    · rw [OwnMembers.hasAssociation_addAssociation hrest]
      simp [MakesAssociation, hkind, hname]
  · constructor
    · rw [OwnMembers.hasField_addNested hrest]
      simp [MakesField, hkind, hinner, HasField]
    · rw [OwnMembers.hasAssociation, OwnMembers.associations_addNested hrest]
      simp [MakesAssociation, hkind, OwnMembers.hasAssociation, MappingKind.isAssociation]

theorem foldlM_addMapping {mappings : List DeclaredMapping}
    (hadd : mappings.foldlM (h.addMapping of c) own = .ok result) (name : String) :
    (result.hasField name = true ↔
        own.hasField name = true ∨ ∃ d ∈ mappings, h.MakesField (HasField of) c d name) ∧
      (result.hasAssociation name = true ↔
        own.hasAssociation name = true ∨ ∃ d ∈ mappings, MakesAssociation d name) := by
  induction mappings generalizing own with
  | nil =>
    obtain rfl := pure_eq_ok_iff.mp hadd
    simp
  | cons d rest ih =>
    obtain ⟨middle, hmiddle, hrest⟩ := bind_eq_ok_iff.mp hadd
    obtain ⟨hfield, hassociation⟩ := addMapping_eq_ok hmiddle name
    obtain ⟨hfields, hassociations⟩ := ih hrest
    constructor
    · rw [hfields, hfield, or_assoc, List.exists_mem_cons_iff]
    · rw [hassociations, hassociation, or_assoc, List.exists_mem_cons_iff]

/-- What a class inherits is what some class above it has. -/
theorem inheritAll_iff (name : String) :
    ((h.inheritAll of c).hasField name = true ↔
        ∃ d ∈ h.inheritedFrom c, (of d).hasField name = true) ∧
      ((h.inheritAll of c).hasAssociation name = true ↔
        ∃ d ∈ h.inheritedFrom c, (of d).hasAssociation name = true) ∧
      ((h.inheritAll of c).isSuppressed name = true ↔
        ∃ d ∈ h.inheritedFrom c, (of d).isSuppressed name = true) := by
  have hfold : ∀ (above : List ClassDecl) (start : EffectiveMembers),
      ((above.foldl (fun m d ↦ m.inherit (of d)) start).hasField name = true ↔
        start.hasField name = true ∨ ∃ d ∈ above, (of d).hasField name = true) ∧
      ((above.foldl (fun m d ↦ m.inherit (of d)) start).hasAssociation name = true ↔
        start.hasAssociation name = true ∨ ∃ d ∈ above, (of d).hasAssociation name = true) ∧
      ((above.foldl (fun m d ↦ m.inherit (of d)) start).isSuppressed name = true ↔
        start.isSuppressed name = true ∨ ∃ d ∈ above, (of d).isSuppressed name = true) := by
    intro above
    induction above with
    | nil => exact fun start ↦ by simp
    | cons d rest ih =>
      intro start
      obtain ⟨hfield, hassociation, hsuppressed⟩ := ih (start.inherit (of d))
      rw [List.foldl_cons, hfield, hassociation, hsuppressed]
      simp [or_assoc]
  have hempty := hfold (h.inheritedFrom c) {}
  simpa [EffectiveMembers.hasField, EffectiveMembers.hasAssociation,
    EffectiveMembers.isSuppressed, inheritAll] using hempty

/-- Reading the ordering keys changes the order of the fields only. -/
theorem orderFields_eq_ok {className : String} {ordered : EffectiveMembers}
    (horder : m.orderFields className = .ok ordered) :
    ordered.fields.Perm m.fields ∧ ordered.associations = m.associations ∧
      ordered.suppressed = m.suppressed := by
  obtain ⟨keyed, hkeyed, hpure⟩ := bind_eq_ok_iff.mp horder
  obtain rfl := pure_eq_ok_iff.mp hpure
  have hitems : keyed.map (·.1) = m.fields := by
    refine (map_eq_map_of_mapM hkeyed fun f _ item hitem ↦ ?_).trans (List.map_id' m.fields)
    obtain ⟨key, -, hpair⟩ := bind_eq_ok_iff.mp hitem
    exact congrArg Prod.fst (pure_eq_ok_iff.mp hpair).symm
  exact ⟨hitems ▸ orderByKeys_perm keyed, rfl, rfl⟩

/-- The stages that a class goes through from what it inherits to its effective members. -/
theorem stepMembers_eq_ok (hm : h.stepMembers of c = .ok m) :
    ∃ inherited own patched, (h.inheritAll of c).applyInheritedPatches c = .ok inherited ∧
      c.mappings.foldlM (h.addMapping of c) {} = .ok own ∧
      (inherited.override own).applyNestedPatches c = .ok patched ∧
      m.fields.Perm patched.fields ∧ m.associations = patched.associations ∧
      m.suppressed = patched.suppressed := by
  simp only [stepMembers, EffectiveMembers.complete, bind_eq_ok_iff] at hm
  obtain ⟨inherited, hinherited, own, hown, patched, hpatched, horder⟩ := hm
  exact ⟨inherited, own, patched, hinherited, hown, hpatched, orderFields_eq_ok horder⟩

/-- Entries that give way to others of their name. -/
theorem any_filter_append {α : Type} (nameOf : α → String) (xs ys : List α) (name : String) :
    ((xs.filter fun x ↦ !ys.any (nameOf · == nameOf x)) ++ ys).any (nameOf · == name) =
      (ys.any (nameOf · == name) || xs.any (nameOf · == name)) := by
  rw [List.any_append, List.any_filter, Bool.or_comm]
  cases hy : ys.any (nameOf · == name) with
  | true => rfl
  | false =>
    have hkept : (fun x ↦ (!ys.any (nameOf · == nameOf x)) && nameOf x == name) =
        (nameOf · == name) := by
      funext x
      by_cases hx : nameOf x = name
      · rw [hx, hy]
        simp
      · rw [beq_false_of_ne hx, Bool.and_false]
    rw [hkept]

theorem hasField_override {inherited : EffectiveMembers} :
    (inherited.override own).hasField name = (own.hasField name || inherited.hasField name) :=
  any_filter_append EffectiveField.name inherited.fields own.fields name

theorem hasAssociation_override {inherited : EffectiveMembers} :
    (inherited.override own).hasAssociation name =
      (own.hasAssociation name || inherited.hasAssociation name) :=
  any_filter_append EffectiveAssociation.name inherited.associations own.associations name

theorem isSuppressed_override {inherited : EffectiveMembers} :
    (inherited.override own).isSuppressed name = true ↔
      inherited.isSuppressed name = true ∧ own.hasField name = false ∧
        own.hasAssociation name = false := by
  simp [EffectiveMembers.isSuppressed, EffectiveMembers.override, OwnMembers.hasField,
    OwnMembers.hasAssociation]

theorem own_eq_ok (hown : c.mappings.foldlM (h.addMapping of c) {} = .ok own) (name : String) :
    (own.hasField name = true ↔ h.DeclaresField (HasField of) c name) ∧
      (own.hasAssociation name = true ↔ DeclaresAssociation c name) := by
  obtain ⟨hfield, hassociation⟩ := foldlM_addMapping hown name
  rw [hfield, hassociation]
  simp [OwnMembers.hasField, OwnMembers.hasAssociation, DeclaresField, DeclaresAssociation]

/-- The fields of a class. -/
theorem hasField_stepMembers (hm : h.stepMembers of c = .ok m) :
    m.hasField name = true ↔
      (h.DeclaresField (HasField of) c name ∨
        (∃ d ∈ h.inheritedFrom c, HasField of d name) ∧ name ∉ c.inheritedRemovals) ∧
      name ∉ c.nestedRemovals := by
  obtain ⟨inherited, own, patched, hinherited, hown, hpatched, hperm, -⟩ := stepMembers_eq_ok hm
  have hfirst := EffectiveMembers.loses_applyInheritedPatches hinherited
  have hlast := EffectiveMembers.loses_applyNestedPatches hpatched
  have hsame : m.hasField name = patched.hasField name := hperm.any_eq
  rw [hsame, hlast.hasField_iff, hasField_override, Bool.or_eq_true, (own_eq_ok hown name).1,
    hfirst.hasField_iff, (inheritAll_iff name).1]
  rfl

/-- The associations of a class. -/
theorem hasAssociation_stepMembers (hm : h.stepMembers of c = .ok m) :
    m.hasAssociation name = true ↔
      DeclaresAssociation c name ∨
        (∃ d ∈ h.inheritedFrom c, (of d).hasAssociation name = true) ∧
          c.inheritedRemovals.count name ≤ (h.inheritAll of c).spare name := by
  obtain ⟨inherited, own, patched, hinherited, hown, hpatched, -, hassociations, -⟩ :=
    stepMembers_eq_ok hm
  have hsame : m.hasAssociation name = (inherited.override own).hasAssociation name := by
    rw [EffectiveMembers.hasAssociation, hassociations,
      EffectiveMembers.associations_foldlM_applyNestedPatch hpatched,
      EffectiveMembers.hasAssociation]
  rw [hsame, hasAssociation_override, Bool.or_eq_true, (own_eq_ok hown name).2,
    EffectiveMembers.hasAssociation_foldlM hinherited, (inheritAll_iff name).2.1]
  rfl

/-- The names suppressed in a class. -/
theorem isSuppressed_stepMembers (hm : h.stepMembers of c = .ok m) :
    m.isSuppressed name = true ↔
      (((∃ d ∈ h.inheritedFrom c, (of d).isSuppressed name = true) ∨
          name ∈ c.inheritedRemovals) ∧
        ¬ h.DeclaresField (HasField of) c name ∧ ¬ DeclaresAssociation c name) ∨
      name ∈ c.nestedRemovals := by
  obtain ⟨inherited, own, patched, hinherited, hown, hpatched, -, -, hsuppressed⟩ :=
    stepMembers_eq_ok hm
  have hfirst := EffectiveMembers.loses_applyInheritedPatches hinherited
  have hlast := EffectiveMembers.loses_applyNestedPatches hpatched
  have hsame : m.isSuppressed name = patched.isSuppressed name := by
    rw [EffectiveMembers.isSuppressed, hsuppressed, EffectiveMembers.isSuppressed]
  obtain ⟨hfield, hassociation⟩ := own_eq_ok hown name
  rw [hsame, hlast.isSuppressed_iff, isSuppressed_override, hfirst.isSuppressed_iff,
    (inheritAll_iff name).2.2, ← hfield, ← hassociation, Bool.not_eq_true, Bool.not_eq_true]

end Hierarchy

end ClassMap
