import ClassMap.Proofs.Hierarchy.Mapped
import ClassMap.Proofs.Options.Reading
import ClassMap.Proofs.Resolution.Scope
import ClassMap.Resolution

/-!
Scopes that cannot be told apart by what is read of them. The classes of one are those of the other
under a map that leaves every class where it stands, the members of each class are read as those of
the class it comes from, and the built fields are the very same. So whatever is looked up for a
class, fields, tables and other classes, is what is looked up for the class it comes from.
-/

set_option autoImplicit false
set_option relaxedAutoImplicit false

namespace ClassMap

open Traversal

/-! ### What is read of members -/

/-- A field with the same options as another, wherever they stand in its tag. -/
structure EffectiveField.ReadsAs (f f' : EffectiveField) : Prop where
  name : f'.name = f.name
  declaredIn : f'.declaredIn = f.declaredIn
  type : f'.type = f.type
  defaultColumn : f'.defaultColumn = f.defaultColumn
  tag : Tag.Agree FieldOptions.keys f.tag f'.tag

/-- An association with the same options as another, wherever they stand in its tag. -/
structure EffectiveAssociation.ReadsAs (a a' : EffectiveAssociation) : Prop where
  name : a'.name = a.name
  isCollection : a'.isCollection = a.isCollection
  declaredIn : a'.declaredIn = a.declaredIn
  type : a'.type = a.type
  reference : Tag.Agree ReferenceOptions.keys a.tag a'.tag
  collection : Tag.Agree CollectionOptions.keys a.tag a'.tag

/-- Members that are read one as the other. -/
structure EffectiveMembers.ReadsAs (m m' : EffectiveMembers) : Prop where
  fields : List.Forall₂ EffectiveField.ReadsAs m.fields m'.fields
  associations : List.Forall₂ EffectiveAssociation.ReadsAs m.associations m'.associations
  suppressed : m'.suppressed = m.suppressed

theorem FieldDescriptor.build_eq {f f' : EffectiveField} (hf : f.ReadsAs f') (className : String) :
    build className f' = build className f := by
  have hstorage : ∀ options, f'.storage className options = f.storage className options := by
    intro options
    rw [EffectiveField.storage, EffectiveField.storage, hf.name, hf.type, hf.tag.name]
  have hoptions : ∀ options storage,
      ofOptions f' options storage = ofOptions f options storage := by
    intro options storage
    rw [ofOptions, ofOptions, hf.name, hf.declaredIn, hf.type, hf.defaultColumn]
  simp only [build, FieldOptions.parse_eq hf.tag, hstorage, hoptions]

theorem FieldDescriptor.mapM_build_eq {m m' : EffectiveMembers} (hm : m.ReadsAs m')
    (className : String) :
    m'.fields.mapM (build className) = m.fields.mapM (build className) :=
  mapM_eq_of_forall₂ hm.fields fun _ _ hf ↦ build_eq hf className

/-! ### What is read of classes -/

/-- A map of declarations, with a map of their tags, that keeps all that is read of a class for its
table and its associations. -/
structure KeepsTables (h : Hierarchy) (φ : ClassDecl → ClassDecl) (ψ : Tag → Tag) : Prop
    extends KeepsPersistence h φ ψ where
  isInterface : ∀ c, (φ c).isInterface = c.isInterface
  options : ∀ c, (φ c).options = c.options
  indexTags : ∀ c, (φ c).tagsNamed TagName.index = (c.tagsNamed TagName.index).map ψ
  indexed : ∀ tag, Tag.Agree IndexOptions.keys tag (ψ tag)

namespace Scope

variable {φ : ClassDecl → ClassDecl} {ψ : Tag → Tag} {s s' : Scope} {c : ClassDecl}
  {a a' : EffectiveAssociation}

/-- The second scope has the classes of the first under a map, the same fields, and members that are
read as those of the first. -/
structure Mirrors {s : Scope} (hφ : KeepsTables s.hierarchy φ ψ) (s' : Scope) : Prop where
  hierarchy : s'.hierarchy = s.hierarchy.mapped hφ.toKeepsPlace
  checks : s'.checks = s.checks
  classes : s'.classes = s.classes.map (PersistentClass.mapped φ)
  members : ∀ c ∈ s.hierarchy.classes, (s.membersOf c).ReadsAs (s'.membersOf (φ c))
  fields : s'.fields = s.fields

theorem Built.extentsOf_subset {h : Hierarchy} {checks : ChecksMode} (hs : Built h checks s) :
    s.extentsOf c ⊆ h.classes := by
  intro e he
  rw [extentsOf] at he
  split at he
  · rename_i p hfound
    obtain ⟨⟨q, hq, rfl⟩, -⟩ := hs.mem_extents (List.mem_of_find?_eq_some hfound) he
    exact hs.mem_classes hq
  · exact absurd he List.not_mem_nil

namespace Mirrors

variable {hφ : KeepsTables s.hierarchy φ ψ} (hm : Mirrors hφ s')
include hm

/-! ### Fields -/

theorem fieldsOf_eq (c : ClassDecl) : s'.fieldsOf (φ c) = s.fieldsOf c := by
  rw [fieldsOf, fieldsOf, hm.fields, hφ.name]

theorem primaryKeys_eq (c : ClassDecl) : s'.primaryKeys (φ c) = s.primaryKeys c := by
  rw [primaryKeys, primaryKeys, hm.fieldsOf_eq]

theorem field_eq (hc : c ∈ s.hierarchy.classes) : s'.field (φ c) = s.field c := by
  have hsuppressed : (s'.membersOf (φ c)).isSuppressed = (s.membersOf c).isSuppressed := by
    funext other
    rw [EffectiveMembers.isSuppressed, EffectiveMembers.isSuppressed, (hm.members c hc).suppressed]
  funext name use
  rw [field, field, findField, findField, hm.fieldsOf_eq, hφ.name, hsuppressed]

theorem ownsConstraints_eq (c : ClassDecl) (ha : a.ReadsAs a') :
    s'.ownsConstraints (φ c) a' = s.ownsConstraints c a := by
  have hnames : (fun p : PersistentClass ↦ p.decl.name == a.declaredIn) ∘
      PersistentClass.mapped φ = fun p ↦ p.decl.name == a.declaredIn :=
    funext fun p ↦ congrArg (· == a.declaredIn) (hφ.name p.decl)
  rw [ownsConstraints, ownsConstraints, ha.declaredIn, hm.classes, List.any_map, hnames, hφ.name]

theorem areCompatible_eq {one two : String} (hone : heeds s.hierarchy.classes one = true)
    (htwo : heeds s.hierarchy.classes two = true) :
    s'.hierarchy.areCompatible one two = s.hierarchy.areCompatible one two := by
  rw [hm.hierarchy, Hierarchy.areCompatible_mapped hφ.toKeepsPlace hone htwo]

theorem checkContainer_eq {type : String} (htype : s.hierarchy.DeclaresType type)
    (className member : String) (collectionClass : Option String) :
    s'.hierarchy.checkContainer className member type collectionClass =
      s.hierarchy.checkContainer className member type collectionClass := by
  have hheeds := (Hierarchy.heeds_of_declaresType htype).1
  rw [hm.hierarchy]
  exact Hierarchy.checkContainer_congr_of_asked
    (fun name hname ↦ Hierarchy.isSubtypeName_mapped hφ.toKeepsPlace (hheeds name hname))
    (Hierarchy.typeExists_mapped hφ.toKeepsPlace) className member collectionClass

/-! ### Classes -/

variable (hs : Built s.hierarchy s.checks s)
include hs

omit hm in
theorem beq_eq (hφ : KeepsPlace s.hierarchy φ) (hc : c ∈ s.hierarchy.classes) :
    ∀ p ∈ s.classes, ((p.mapped φ).decl == φ c) = (p.decl == c) :=
  fun _ hp ↦ Hierarchy.beq_mapped hφ (hs.mem_classes hp) hc

theorem isPersistent_eq (hc : c ∈ s.hierarchy.classes) :
    s'.isPersistent (φ c) = s.isPersistent c := by
  have hall : s.classes.map (fun p ↦ (p.mapped φ).decl == φ c) = s.classes.map (·.decl == c) :=
    List.map_congr_left (beq_eq hs hφ.toKeepsPlace hc)
  have hany := congrArg (List.any · id) hall
  rw [List.any_map, List.any_map] at hany
  rw [isPersistent, isPersistent, hm.classes, List.any_map]
  exact hany

theorem extentsOf_eq (hc : c ∈ s.hierarchy.classes) :
    s'.extentsOf (φ c) = (s.extentsOf c).map φ := by
  have hfound : s.classes.find? (fun p ↦ (p.mapped φ).decl == φ c) =
      s.classes.find? (·.decl == c) := by
    rw [← List.head?_filter, List.filter_congr (beq_eq hs hφ.toKeepsPlace hc), List.head?_filter]
  have hmapped : s'.classes.find? (·.decl == φ c) =
      (s.classes.find? (·.decl == c)).map (PersistentClass.mapped φ) := by
    rw [hm.classes, List.find?_map, ← hfound]
    rfl
  rw [extentsOf, extentsOf, hmapped]
  cases s.classes.find? (·.decl == c) with
  | none => rfl
  | some p => rfl

theorem persistentClass_eq (className target : String) (use : ClassUse) :
    s'.persistentClass className target use = φ <$> s.persistentClass className target use := by
  rw [persistentClass, persistentClass, hm.hierarchy, Hierarchy.find?_mapped]
  cases hfind : s.hierarchy.find? target with
  | none => rfl
  | some d =>
    have hd : d ∈ s.hierarchy.classes := Hierarchy.mem_of_declared? hfind
    simp only [Option.map_some, hm.isPersistent_eq hs hd]
    split
    · rfl
    · rfl

/-! ### Tables -/

theorem tableOf_eq (hc : c ∈ s.hierarchy.classes) : s'.tableOf (φ c) = s.tableOf c := by
  rw [tableOf, tableOf, hm.isPersistent_eq hs hc, hφ.options, hφ.name]

theorem tablesOf_eq (hc : c ∈ s.hierarchy.classes) : s'.tablesOf (φ c) = s.tablesOf c := by
  rw [tablesOf, tablesOf, hm.extentsOf_eq hs hc, ← List.map_cons, List.filterMap_map]
  refine List.filterMap_congr fun d hd ↦ hm.tableOf_eq hs ?_
  rcases List.mem_cons.mp hd with rfl | hd
  · exact hc
  · exact hs.extentsOf_subset hd

theorem uniformTable_eq (hc : c ∈ s.hierarchy.classes) :
    s'.uniformTable (φ c) = s.uniformTable c := by
  rw [uniformTable, uniformTable, hm.tablesOf_eq hs hc]

omit hs in
theorem index_eq (hc : c ∈ s.hierarchy.classes) (tag : Tag) :
    s'.index (φ c) (ψ tag) = s.index c tag := by
  simp only [index, hφ.name, IndexOptions.parse_eq (hφ.indexed tag), hm.field_eq hc]

omit hs in
theorem columnChanges_eq (c : ClassDecl) (table : String) :
    s'.columnChanges (φ c) table = s.columnChanges c table := by
  rw [columnChanges, columnChanges, hφ.options, hm.fieldsOf_eq, hφ.name]

/-- A persistent class adds the same table. -/
theorem addTable_eq (tables : List Table) {p : PersistentClass} (hp : p ∈ s.classes) :
    s'.addTable tables (p.mapped φ) = s.addTable tables p := by
  have hc := hs.mem_classes hp
  have hindexes : ∀ (table : String) (tables : List Table),
      ((φ p.decl).tagsNamed TagName.index).foldlM (s'.addIndex (φ p.decl) table) tables =
        (p.decl.tagsNamed TagName.index).foldlM (s.addIndex p.decl table) tables := by
    intro table tables
    rw [hφ.indexTags, List.foldlM_map]
    refine foldlM_congr fun tag _ tables ↦ ?_
    rw [addIndex, addIndex, hm.index_eq hc, hφ.name]
  rw [addTable, addTable, PersistentClass.mapped, hm.tableOf_eq hs hc]
  cases s.tableOf p.decl with
  | none => rfl
  | some table => simp only [hm.columnChanges_eq, hindexes]

theorem foldlM_addTable_eq :
    s'.classes.foldlM s'.addTable [] = s.classes.foldlM s.addTable [] := by
  rw [hm.classes, List.foldlM_map]
  exact foldlM_congr fun _ hp tables ↦ hm.addTable_eq hs tables hp

end Mirrors

end Scope

end ClassMap
