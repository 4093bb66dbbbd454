import ClassMap.Proofs.Inheritance
import ClassMap.Proofs.Members.Complete
import ClassMap.Proofs.Options.Reading
import ClassMap.Proofs.Patching

/-!
Fields of nested members. A class declares every field of the class that a nested member takes in,
under a name and with a column that begin with those of the member, however deep the members are
nested, and the descriptor of such a field is otherwise the one that it has in the class it comes
from. Its column is made from the column option as it is written, while the descriptor of the inner
field trims that option and keeps a pair of colons in its name; so the column is the one of the
inner field with the members before it for the fields with a plain column, and for no others
(`inlines_iff`).
-/

set_option autoImplicit false
set_option relaxedAutoImplicit false

namespace ClassMap

open Traversal

/-! ### Names along nested members -/

/-- The name of a field inside members nested in one another, the outermost first. -/
def nestedName (owners : List String) (name : String) : String :=
  owners.foldr (fun owner rest ↦ owner ++ nestedSeparator ++ rest) name

/-- The column of a field inside members nested in one another, the outermost first. -/
def nestedColumn (owners : List String) (column : String) : String :=
  owners.foldr (fun owner rest ↦ owner ++ "_" ++ rest) column

@[simp] theorem nestedName_nil (name : String) : nestedName [] name = name := rfl

@[simp] theorem nestedName_cons (owner : String) (owners : List String) (name : String) :
    nestedName (owner :: owners) name = owner ++ nestedSeparator ++ nestedName owners name := rfl

@[simp] theorem nestedColumn_cons (owner : String) (owners : List String) (column : String) :
    nestedColumn (owner :: owners) column = owner ++ "_" ++ nestedColumn owners column := rfl

theorem nestedColumn_injective {owners : List String} {column other : String}
    (heq : nestedColumn owners column = nestedColumn owners other) : column = other := by
  induction owners with
  | nil => exact heq
  | cons owner owners ih =>
    refine ih (String.ext ?_)
    simpa only [nestedColumn_cons, String.toList_append, List.append_cancel_left_eq] using
      congrArg String.toList heq

namespace EffectiveField

variable {f : EffectiveField} {className : String} {owner : String} {owners : List String}

/-! ### Plain columns -/

/-- The column of the descriptor of a field. -/
def column (f : EffectiveField) : String :=
  ((TagReader.text? ⟨f.declaredIn, f.tag⟩ "column") <|> f.defaultColumn).getD f.name

/-- The column option has no blanks around it, and a field without an option and a default has no
pair of colons in its name. -/
structure PlainColumn (f : EffectiveField) : Prop where
  trimmed : ∀ value, f.tag.get? "column" = some value → Text.trim value ≠ "" →
    Text.trim value = value
  flat : (∀ value, f.tag.get? "column" = some value → Text.trim value = "") →
    f.defaultColumn = none → flattenName f.name = f.name

theorem baseColumn_eq_column_iff : f.baseColumn = f.column ↔ f.PlainColumn := by
  have hdefault : f.defaultColumn.getD (flattenName f.name) = f.defaultColumn.getD f.name ↔
      (f.defaultColumn = none → flattenName f.name = f.name) := by
    cases f.defaultColumn <;> simp
  unfold baseColumn column TagReader.text?
  cases hgiven : f.tag.get? "column" with
  | none =>
    refine hdefault.trans ⟨fun hflat ↦ ⟨by simp [hgiven], fun _ ↦ hflat⟩, fun hplain ↦ ?_⟩
    exact hplain.flat (by simp [hgiven])
  | some value =>
    by_cases hblank : Text.trim value = ""
    · have hnothing : Text.trimmed? value = none := by simp [Text.trimmed?, hblank]
      have hempty : (Text.trim value).isEmpty = true := String.isEmpty_iff.mpr hblank
      simp only [hempty, if_true, Option.bind_some, hnothing]
      refine hdefault.trans ⟨fun hflat ↦ ⟨?_, fun _ ↦ hflat⟩, fun hplain ↦ ?_⟩
      · simp [hgiven, hblank]
      · exact hplain.flat (by simp [hgiven, hblank])
    · have hsome : Text.trimmed? value = some (Text.trim value) := by simp [Text.trimmed?, hblank]
      simp only [String.isEmpty_iff, hblank, if_false, Option.bind_some, hsome]
      refine ⟨fun heq ↦ ⟨?_, ?_⟩, fun hplain ↦ (hplain.trimmed value hgiven hblank).symm⟩
      · intro other hother _
        obtain rfl := Option.some.inj (hgiven.symm.trans hother)
        exact heq.symm
      · exact fun hnone ↦ absurd (hnone value hgiven) hblank

/-- A field inside nested members, as a field of the class around them all. -/
def inlinedAlong (f : EffectiveField) (className : String) (owners : List String) :
    EffectiveField where
  name := nestedName owners f.name
  declaredIn := className
  type := f.type
  tag := f.tag.erase "column"
  defaultColumn := some (nestedColumn owners f.baseColumn)

/-- The column that a field inside nested members passes on. -/
theorem baseColumn_inlinedAlong :
    (f.inlinedAlong className owners).baseColumn = nestedColumn owners f.baseColumn := by
  rw [baseColumn, inlinedAlong, Tag.get?_erase_self]
  rfl

theorem inlined_inlinedAlong (outer : String) :
    (f.inlinedAlong className owners).inlined outer owner =
      f.inlinedAlong outer (owner :: owners) := by
  have htag : (f.tag.erase "column").erase "column" = f.tag.erase "column" := by
    rw [Tag.erase, Tag.erase, List.filter_filter]
    simp only [Bool.and_self]
  rw [inlined, baseColumn_inlinedAlong]
  simp only [inlinedAlong, htag, nestedName_cons, nestedColumn_cons]

end EffectiveField

/-! ### Descriptors -/

namespace FieldDescriptor

variable {f : EffectiveField} {className inner : String} {owners : List String}
  {d : FieldDescriptor}

theorem parse_erase_column (tag : Tag) :
    FieldOptions.parse className (tag.erase "column") =
      (fun options ↦ { options with column := none }) <$> FieldOptions.parse className tag := by
  have hr : TagReader.Agree (· ≠ "column") ⟨className, tag⟩ ⟨className, tag.erase "column"⟩ :=
    ⟨rfl, rfl, fun key hkey ↦ Tag.get?_erase_of_ne hkey tag⟩
  have hcolumn : TagReader.text? ⟨className, tag.erase "column"⟩ "column" = none := by
    rw [TagReader.text?, Tag.get?_erase_self]
    rfl
  unfold FieldOptions.parse
  simp (disch := decide) only [hcolumn, hr.text?_eq, hr.flag_eq, hr.parsed?_eq, hr.unsigned?_eq,
    hr.signed?_eq, map_bind, map_pure]

/-- The descriptor of a field, as that of the field that it is inside some nested members. -/
def nested (d : FieldDescriptor) (className : String) (owners : List String) (column : String) :
    FieldDescriptor :=
  { d with
    name := nestedName owners d.name
    declaredIn := className
    column := nestedColumn owners column }

theorem storage_inlinedAlong_eq_ok_iff {options : FieldOptions} {storage : TypeMapping} :
    (f.inlinedAlong className owners).storage className { options with column := none } =
        .ok storage ↔
      f.storage className options = .ok storage := by
  unfold EffectiveField.storage EffectiveField.inlinedAlong
  cases options.jdbcType <;> cases f.type <;> simp

/-- A field is built inside nested members as it is built by itself, but for its name and its
column. -/
theorem build_inlinedAlong_eq_ok_iff :
    build className (f.inlinedAlong className owners) = .ok d ↔
      ∃ e, build inner f = .ok e ∧ d = e.nested className owners f.baseColumn := by
  have hparse : ∀ options, FieldOptions.parse className (f.tag.erase "column") = .ok options ↔
      ∃ given, FieldOptions.parse className f.tag = .ok given ∧
        options = { given with column := none } := by
    intro options
    rw [parse_erase_column]
    cases FieldOptions.parse className f.tag <;> simp [eq_comm]
  simp only [build_eq_ok_iff (a := inner) (b := className)]
  simp only [build, bind_eq_ok_iff, pure_eq_ok_iff]
  constructor
  · intro hbuild
    obtain ⟨_, hoptions, storage, hstorage, rfl⟩ := hbuild
    obtain ⟨options, hgiven, rfl⟩ := (hparse _).mp hoptions
    exact ⟨_, ⟨options, hgiven, storage, storage_inlinedAlong_eq_ok_iff.mp hstorage, rfl⟩, rfl⟩
  · intro hbuild
    obtain ⟨_, ⟨options, hoptions, storage, hstorage, rfl⟩, rfl⟩ := hbuild
    exact ⟨_, (hparse _).mpr ⟨options, hoptions, rfl⟩, storage,
      storage_inlinedAlong_eq_ok_iff.mpr hstorage, rfl⟩

theorem column_of_build (hbuild : build className f = .ok d) : d.column = f.column := by
  simp only [build, bind_eq_ok_iff, pure_eq_ok_iff] at hbuild
  obtain ⟨options, hoptions, storage, -, rfl⟩ := hbuild
  simp only [FieldOptions.parse, bind_eq_ok_iff, pure_eq_ok_iff] at hoptions
  obtain ⟨_, -, _, -, _, -, _, -, _, -, _, -, _, -, _, -, _, -, _, -, _, -, _, -, _, -, rfl⟩ :=
    hoptions
  rfl

end FieldDescriptor

/-! ### Declared and effective fields -/

namespace ClassDecl

/-- A class names a field inside its nested members in one of its patches. -/
def PatchesNested (c : ClassDecl) (name : String) : Prop :=
  ∃ tag ∈ c.tagsNamed TagName.modifyNested, (TagReader.mk c.name tag).text? "name" = some name

theorem not_patchesNested {c : ClassDecl} (hnone : c.tagsNamed TagName.modifyNested = [])
    (name : String) : ¬ c.PatchesNested name := by
  rintro ⟨tag, htag, -⟩
  rw [hnone] at htag
  exact absurd htag List.not_mem_nil

end ClassDecl

namespace OwnMembers

variable {own result : OwnMembers} {className name : String} {inner : EffectiveMembers}

theorem fields_foldlM_addField {fields : List EffectiveField}
    (hadd : fields.foldlM (addField className) own = .ok result) :
    result.fields = own.fields ++ fields := by
  induction fields generalizing own with
  | nil =>
    obtain rfl := pure_eq_ok_iff.mp hadd
    exact (List.append_nil own.fields).symm
  | cons f rest ih =>
    obtain ⟨middle, hmiddle, hrest⟩ := bind_eq_ok_iff.mp hadd
    rw [ih hrest, addField_eq_ok hmiddle, List.append_assoc, List.singleton_append]

theorem fields_addNested (hadd : own.addNested className name inner = .ok result) :
    result.fields = own.fields ++ inner.fields.map (·.inlined className name) :=
  fields_foldlM_addField hadd

end OwnMembers

namespace Hierarchy

variable {h : Hierarchy} {table : MemberTable} {c inner : ClassDecl}
  {of : ClassDecl → EffectiveMembers} {own result : OwnMembers} {mapping : DeclaredMapping}
  {mappings : List DeclaredMapping} {owner : String} {owners : List String} {f : EffectiveField}
  {m : EffectiveMembers}

/-- A class takes in the fields of another by a nested member. -/
def Nests (h : Hierarchy) (c : ClassDecl) (owner : String) (inner : ClassDecl) : Prop :=
  ∃ mapping ∈ c.mappings, mapping.kind = .nested ∧ Text.trim mapping.name = owner ∧
    h.nestedClass c mapping = .ok inner

/-- A mapping keeps the fields that have been declared before it. -/
theorem fields_subset_addMapping (hadd : h.addMapping of c own mapping = .ok result) :
    own.fields ⊆ result.fields := by
  obtain ⟨contribution, -, hrest⟩ := bind_eq_ok_iff.mp hadd
  cases contribution with
  | field f => exact OwnMembers.addField_eq_ok hrest ▸ List.subset_append_left _ _
  | association a => exact OwnMembers.addAssociation_eq_ok hrest ▸ List.Subset.refl _
  | nested name inner => exact OwnMembers.fields_addNested hrest ▸ List.subset_append_left _ _

/-- The fields that a nested member takes in are among the declared ones. -/
theorem mem_fields_of_nests (hown : c.mappings.foldlM (h.addMapping of c) {} = .ok own)
    (hnests : h.Nests c owner inner) (hf : f ∈ (of inner).fields) :
    f.inlined c.name owner ∈ own.fields := by
  obtain ⟨mapping, hmapping, hkind, rfl, hinner⟩ := hnests
  obtain ⟨before, after, hsplit⟩ := List.append_of_mem hmapping
  rw [hsplit] at hown
  simp only [List.foldlM_append, List.foldlM_cons, bind_eq_ok_iff] at hown
  obtain ⟨first, -, second, hadd, hlast⟩ := hown
  obtain ⟨contribution, hcontribution, hadded⟩ := bind_eq_ok_iff.mp hadd
  have hmem : f.inlined c.name (Text.trim mapping.name) ∈ second.fields := by
    rcases contribution_eq_ok hcontribution with ⟨_, -, hother, -⟩ | ⟨_, -, hother, -⟩ |
      ⟨found, rfl, -, hfound⟩
    · exact absurd (hkind.symm.trans hother) (by simp)
    · exact absurd hother (by simp [hkind, MappingKind.isAssociation])
    · obtain rfl := Except.ok.inj (hinner.symm.trans hfound)
      rw [OwnMembers.fields_addNested hadded]
      exact List.mem_append_right _ (List.mem_map_of_mem hf)
  exact foldlM_keeps (f.inlined c.name (Text.trim mapping.name) ∈ ·.fields) hlast
    (fun _ _ _ _ hstep hbefore ↦ fields_subset_addMapping hstep hbefore) hmem

/-- A declared field that no patch names is an effective one as it is. -/
theorem field?_of_mem_own (hm : h.stepMembers of c = .ok m)
    (hown : c.mappings.foldlM (h.addMapping of c) {} = .ok own) (hf : f ∈ own.fields)
    (hpatches : ¬ c.PatchesNested f.name) : m.field? f.name = some f := by
  have hdistinct := distinct_stepMembers hm
  obtain ⟨inherited, own', patched, hinherited, hown', hpatched, hperm, -⟩ := stepMembers_eq_ok hm
  obtain rfl := Except.ok.inj (hown.symm.trans hown')
  have hinheritedDistinct : inherited.Distinct :=
    EffectiveMembers.distinct_applyInheritedPatches hinherited distinct_inheritAll
  have hoverride : (inherited.override own).field? f.name = some f :=
    (hinheritedDistinct.override (distinct_own hown)).field?_eq_some_iff.mpr
      ⟨List.mem_append_right _ hf, rfl⟩
  have hleaves : (inherited.override own).Leaves patched f.name := by
    refine foldlM_keeps ((inherited.override own).Leaves · f.name) hpatched ?_
      (EffectiveMembers.Leaves.refl _ _)
    intro tag htag before after hstep hbefore
    exact hbefore.trans (EffectiveMembers.leaves_applyNestedPatch hstep
      fun hname ↦ hpatches ⟨tag, htag, hname⟩)
  have hordered : m.field? f.name = patched.field? f.name :=
    find?_eq_of_perm hperm hdistinct.fields
  rw [hordered, hleaves.field, hoverride]

/-- A class takes in a field of another through members nested in one another, and no class on the
way patches it, the outermost one aside. -/
inductive TakesIn (h : Hierarchy) (name : String) :
    ClassDecl → List String → ClassDecl → Prop
  | direct {c inner : ClassDecl} {owner : String} (hnests : h.Nests c owner inner) :
      TakesIn h name c [owner] inner
  | through {c middle inner : ClassDecl} {owner : String} {owners : List String}
      (hnests : h.Nests c owner middle) (hpatches : ¬ middle.PatchesNested (nestedName owners name))
      (hrest : TakesIn h name middle owners inner) : TakesIn h name c (owner :: owners) inner

theorem mem_classes_of_nests (hnests : h.Nests c owner inner) : inner ∈ h.classes := by
  obtain ⟨_, -, -, -, hinner⟩ := hnests
  exact mem_classes_of_nestedClass hinner

/-- What a class declares is there as soon as its members are. -/
theorem exists_own (hmembers : h.memberTable = .ok table) (hc : c ∈ h.classes) :
    ∃ own, c.mappings.foldlM (h.addMapping table.membersOf c) {} = .ok own ∧
      h.stepMembers table.membersOf c = .ok (table.membersOf c) := by
  obtain ⟨hgrounded, hhas⟩ := memberTable_eq_ok hmembers
  have hstep := (hgrounded.step hc (hhas c hc)).2
  obtain ⟨_, own, _, -, hown, -⟩ := stepMembers_eq_ok hstep
  exact ⟨own, hown, hstep⟩

/-- One nested member more. -/
theorem inlined_of_nests (hmembers : h.memberTable = .ok table) (hc : c ∈ h.classes)
    (hnests : h.Nests c owner inner) (hf : f ∈ (table.membersOf inner).fields) :
    (∃ own, c.mappings.foldlM (h.addMapping table.membersOf c) {} = .ok own ∧
      f.inlined c.name owner ∈ own.fields) ∧
    (¬ c.PatchesNested (f.inlined c.name owner).name →
      (table.membersOf c).field? (f.inlined c.name owner).name =
        some (f.inlined c.name owner)) := by
  obtain ⟨own, hown, hstep⟩ := exists_own hmembers hc
  have hmem := mem_fields_of_nests hown hnests hf
  exact ⟨⟨own, hown, hmem⟩, field?_of_mem_own hstep hown hmem⟩

/-- Nested members on the whole way. -/
theorem inlined_of_takesIn (hmembers : h.memberTable = .ok table) (hc : c ∈ h.classes)
    (hway : h.TakesIn f.name c owners inner) (hf : f ∈ (table.membersOf inner).fields) :
    (∃ own, c.mappings.foldlM (h.addMapping table.membersOf c) {} = .ok own ∧
      f.inlinedAlong c.name owners ∈ own.fields) ∧
    (¬ c.PatchesNested (nestedName owners f.name) →
      (table.membersOf c).field? (nestedName owners f.name) =
        some (f.inlinedAlong c.name owners)) := by
  induction hway with
  | direct hnests => exact inlined_of_nests hmembers hc hnests hf
  | @through c middle inner owner owners hnests hpatches _ ih =>
    have hfound := (ih (mem_classes_of_nests hnests) hf).2 hpatches
    have hmiddle := List.mem_of_find?_eq_some hfound
    have hone := inlined_of_nests hmembers hc hnests hmiddle
    rw [EffectiveField.inlined_inlinedAlong] at hone
    exact hone

/-- A field inside nested members is declared by the class around them, and unless the class patches
it, its descriptor is that of the inner field under the longer name and with the given column. -/
structure Inlines (h : Hierarchy) (table : MemberTable) (c : ClassDecl) (owners : List String)
    (inner : ClassDecl) (f : EffectiveField) (column : FieldDescriptor → String) : Prop where
  declared : ∃ own, c.mappings.foldlM (h.addMapping table.membersOf c) {} = .ok own ∧
    own.hasField (nestedName owners f.name) = true
  built : ¬ c.PatchesNested (nestedName owners f.name) →
    ∃ g, (table.membersOf c).field? (nestedName owners f.name) = some g ∧
      ∀ d, FieldDescriptor.build c.name g = .ok d ↔
        ∃ e, FieldDescriptor.build inner.name f = .ok e ∧ d = e.nested c.name owners (column e)

theorem inlines_baseColumn (hmembers : h.memberTable = .ok table) (hc : c ∈ h.classes)
    (hway : h.TakesIn f.name c owners inner) (hf : f ∈ (table.membersOf inner).fields) :
    h.Inlines table c owners inner f fun _ ↦ f.baseColumn := by
  obtain ⟨⟨own, hown, hmem⟩, hfound⟩ := inlined_of_takesIn hmembers hc hway hf
  have hhas : own.hasField (nestedName owners f.name) = true :=
    List.any_eq_true.mpr ⟨_, hmem, beq_self_eq_true _⟩
  exact ⟨⟨own, hown, hhas⟩, fun hpatches ↦ ⟨_, hfound hpatches, fun d ↦
    FieldDescriptor.build_inlinedAlong_eq_ok_iff⟩⟩

/-- A field that is built comes in with its own column only if this is plain. -/
theorem plainColumn_of_inlines {g : EffectiveField} {e : FieldDescriptor}
    (hg : (table.membersOf c).field? (nestedName owners f.name) = some g)
    (hbase : ∀ d, FieldDescriptor.build c.name g = .ok d ↔
      ∃ e, FieldDescriptor.build inner.name f = .ok e ∧ d = e.nested c.name owners f.baseColumn)
    (he : FieldDescriptor.build inner.name f = .ok e)
    (hpatches : ¬ c.PatchesNested (nestedName owners f.name))
    (hcolumn : h.Inlines table c owners inner f fun e ↦ e.column) : f.PlainColumn := by
  obtain ⟨g', hg', hclaimed⟩ := hcolumn.built hpatches
  obtain rfl := Option.some.inj (hg.symm.trans hg')
  obtain ⟨e', he', heq⟩ := (hclaimed _).mp ((hbase _).mpr ⟨e, he, rfl⟩)
  obtain rfl := Except.ok.inj (he.symm.trans he')
  have hsame : f.baseColumn = e.column :=
    nestedColumn_injective (congrArg FieldDescriptor.column heq)
  exact EffectiveField.baseColumn_eq_column_iff.mp
    (hsame.trans (FieldDescriptor.column_of_build he))

/-- Every field of a class comes into the classes that have a member of it nested in them, at any
depth, with its base column; and it comes in with its own column exactly when that is plain, unless
it is patched or cannot be built at all. -/
theorem inlines_iff (hmembers : h.memberTable = .ok table) (hc : c ∈ h.classes)
    (hway : h.TakesIn f.name c owners inner) (hf : f ∈ (table.membersOf inner).fields) :
    (h.Inlines table c owners inner f fun _ ↦ f.baseColumn) ∧
      ((h.Inlines table c owners inner f fun e ↦ e.column) ↔
        (¬ c.PatchesNested (nestedName owners f.name) →
          (∃ e, FieldDescriptor.build inner.name f = .ok e) → f.PlainColumn)) := by
  have hbase := inlines_baseColumn hmembers hc hway hf
  refine ⟨hbase, fun hcolumn hpatches hbuilds ↦ ?_, fun hplain ↦ ⟨hbase.declared, ?_⟩⟩
  · obtain ⟨e, he⟩ := hbuilds
    obtain ⟨g, hg, hnested⟩ := hbase.built hpatches
    exact plainColumn_of_inlines hg hnested he hpatches hcolumn
  · intro hpatches
    obtain ⟨g, hg, hnested⟩ := hbase.built hpatches
    refine ⟨g, hg, fun d ↦ (hnested d).trans (exists_congr fun e ↦ and_congr_right fun he ↦ ?_)⟩
    have hsame : f.baseColumn = e.column :=
      (EffectiveField.baseColumn_eq_column_iff.mpr (hplain hpatches ⟨e, he⟩)).trans
        (FieldDescriptor.column_of_build he).symm
    rw [hsame]

end Hierarchy

/-- A place on a map. -/
def spot : ClassDecl where
  name := "Spot"
  tags := [⟨"ojb.class", []⟩]
  members := [⟨"north", "int", [⟨"ojb.field", [("column", "NORTH")]⟩]⟩]

/-- An address with the place it is at, whose column for the city is written with blanks. -/
def address : ClassDecl where
  name := "Address"
  tags := [⟨"ojb.class", []⟩]
  members := [⟨"city", "String", [⟨"ojb.field", [("column", " CITY ")]⟩]⟩,
    ⟨"spot", "Spot", [⟨"ojb.nested", []⟩]⟩]

/-- A customer with an address. -/
def customer : ClassDecl where
  name := "Customer"
  tags := [⟨"ojb.class", []⟩]
  members := [⟨"id", "int", [⟨"ojb.field", [("primarykey", "true")]⟩]⟩,
    ⟨"home", "Address", [⟨"ojb.nested", []⟩]⟩]

def customers : Hierarchy where
  classes := [spot, address, customer]
  nodup := by decide

def north : EffectiveField :=
  ⟨"north", "Spot", some "int", ⟨"ojb.field", [("column", "NORTH")]⟩, none⟩

def city : EffectiveField :=
  ⟨"city", "Address", some "String", ⟨"ojb.field", [("column", " CITY ")]⟩, none⟩

theorem customers_nests_address : customers.Nests customer "home" address :=
  ⟨⟨"home", .nested, ⟨"ojb.nested", []⟩, some ⟨"home", "Address", [⟨"ojb.nested", []⟩]⟩⟩,
    by decide +kernel, rfl, by decide +kernel, by decide +kernel⟩

theorem address_nests_spot : customers.Nests address "spot" spot :=
  ⟨⟨"spot", .nested, ⟨"ojb.nested", []⟩, some ⟨"spot", "Spot", [⟨"ojb.nested", []⟩]⟩⟩,
    by decide +kernel, rfl, by decide +kernel, by decide +kernel⟩

theorem exists_table_customers :
    ∃ table, customers.memberTable = .ok table ∧ north ∈ (table.membersOf spot).fields ∧
      city ∈ (table.membersOf address).fields ∧
      (table.membersOf customer).field? "home::city" =
        some (city.inlinedAlong "Customer" ["home"]) := by
  have hok : customers.memberTable.map (fun table ↦
      (table.membersOf spot).fields.contains north &&
        (table.membersOf address).fields.contains city &&
        (table.membersOf customer).field? "home::city" ==
          some (city.inlinedAlong "Customer" ["home"])) = .ok true := by
    decide +kernel
  obtain ⟨table, htable, hfields⟩ := exists_eq_ok_of_map hok
  simp only [Bool.and_eq_true, List.contains_iff_mem, beq_iff_eq] at hfields
  exact ⟨table, htable, hfields.1.1, hfields.1.2, hfields.2⟩

/-- A field two members down keeps its plain column. -/
theorem inlines_iff_customers :
    ∃ table, customers.memberTable = .ok table ∧ customer ∈ customers.classes ∧
      customers.TakesIn "north" customer ["home", "spot"] spot ∧
      north ∈ (table.membersOf spot).fields ∧
      customers.Inlines table customer ["home", "spot"] spot north fun e ↦ e.column := by
  obtain ⟨table, htable, hnorth, -, -⟩ := exists_table_customers
  have hc : customer ∈ customers.classes := by decide +kernel
  have hway : customers.TakesIn "north" customer ["home", "spot"] spot :=
    .through customers_nests_address (ClassDecl.not_patchesNested (by decide +kernel) _)
      (.direct address_nests_spot)
  have hplain : north.PlainColumn := by
    constructor
    · intro value hvalue _
      obtain rfl : "NORTH" = value := Option.some.inj hvalue
      decide +kernel
    · exact fun _ _ ↦ by decide +kernel
  exact ⟨table, htable, hc, hway, hnorth,
    (Hierarchy.inlines_iff htable hc hway hnorth).2.mpr fun _ _ ↦ hplain⟩

/-- The blanks around the column of the city come between the columns of the two members. -/
theorem not_inlines_city :
    ∃ table, customers.memberTable = .ok table ∧ customer ∈ customers.classes ∧
      customers.Nests customer "home" address ∧ city ∈ (table.membersOf address).fields ∧
      ¬ customer.PatchesNested "home::city" ∧
      ¬ customers.Inlines table customer ["home"] address city fun e ↦ e.column := by
  obtain ⟨table, htable, -, hcity, hfound⟩ := exists_table_customers
  have hpatches : ¬ customer.PatchesNested "home::city" :=
    ClassDecl.not_patchesNested (by decide +kernel) _
  refine ⟨table, htable, by decide +kernel, customers_nests_address, hcity, hpatches, ?_⟩
  intro hcolumn
  have hok : (FieldDescriptor.build "Address" city).toBool = true := by decide +kernel
  obtain ⟨e, he⟩ := exists_eq_ok_of_toBool hok
  have hplain := Hierarchy.plainColumn_of_inlines hfound
    (fun d ↦ FieldDescriptor.build_inlinedAlong_eq_ok_iff) he hpatches hcolumn
  have htrimmed := hplain.trimmed " CITY " rfl (by decide +kernel)
  exact absurd htrimmed (by decide +kernel)

end ClassMap
