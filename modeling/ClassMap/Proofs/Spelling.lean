import ClassMap.Proofs.Resolution.Classes
import ClassMap.Proofs.Spelling.Plan

/-!
The case of physical names. Declarations that differ in the case of their tables, join tables and
columns only plan the same changes to the schema up to case, and tables and columns come out the
same in all of them. Indices and constraints need not. An index that is declared twice has to be
spelled the same, the name of its table included, or nothing is resolved; a constraint that is
declared twice with other spellings of its columns is there twice. Nothing else depends on case.
-/

set_option autoImplicit false
set_option relaxedAutoImplicit false

namespace ClassMap

open Traversal

variable {decls decls' : List ClassDecl} {checks : ChecksMode} {databaseName : String}
  {r r' : Repository}

/-- Declarations that differ in nothing but the case of the names of tables, join tables and columns
that their tags give. -/
def SpelledLike (decls decls' : List ClassDecl) : Prop :=
  decls.map ClassDecl.folded = decls'.map ClassDecl.folded

instance (decls decls' : List ClassDecl) : Decidable (SpelledLike decls decls') :=
  inferInstanceAs (Decidable (_ = _))

/-- The changes to an empty schema that a list of declarations asks for. -/
def plannedChanges (decls : List ClassDecl) (checks : ChecksMode) :
    Except MappingError (List SchemaChange) := do
  let h ← Hierarchy.ofDeclarations decls
  let s ← Scope.build h checks
  return (← s.plan).2

/-- What is planned for the declarations, if anything is, has a property. -/
def Plans (decls : List ClassDecl) (checks : ChecksMode) (P : List SchemaChange → Prop) : Prop :=
  ∀ changes, plannedChanges decls checks = .ok changes → P changes

instance (decls : List ClassDecl) (checks : ChecksMode) (P : List SchemaChange → Prop)
    [DecidablePred P] : Decidable (Plans decls checks P) :=
  match h : plannedChanges decls checks with
  | .error _ => isTrue fun _ hplanned ↦ nomatch h.symm.trans hplanned
  | .ok changes => decidable_of_iff (P changes)
    ⟨fun hP _ hplanned ↦ Except.ok.inj (h.symm.trans hplanned) ▸ hP, fun hall ↦ hall changes h⟩

/-- The declarations spell each index of a table in one way. -/
def SpellsIndicesOnce (decls : List ClassDecl) (checks : ChecksMode) : Prop :=
  Plans decls checks SchemaChange.IndicesOnce

/-- The declarations spell the columns of each constraint of a table in one way. -/
def SpellsConstraintsOnce (decls : List ClassDecl) (checks : ChecksMode) : Prop :=
  Plans decls checks SchemaChange.ConstraintsOnce

instance (decls : List ClassDecl) (checks : ChecksMode) :
    Decidable (SpellsIndicesOnce decls checks) :=
  inferInstanceAs (Decidable (Plans ..))

instance (decls : List ClassDecl) (checks : ChecksMode) :
    Decidable (SpellsConstraintsOnce decls checks) :=
  inferInstanceAs (Decidable (Plans ..))

/-- Both lists are resolved or neither is, and to schemas that are equal up to the case of names. -/
def SpellingIrrelevant (decls decls' : List ClassDecl) (checks : ChecksMode)
    (databaseName : String) : Prop :=
  ((∃ r, resolveDeclarations decls checks databaseName = .ok r) ↔
      ∃ r, resolveDeclarations decls' checks databaseName = .ok r) ∧
    ∀ r r', resolveDeclarations decls checks databaseName = .ok r →
      resolveDeclarations decls' checks databaseName = .ok r' → r.schema.folded = r'.schema.folded

/-! ### Planning and making the changes -/

/-- Planning and making the changes to the schema come to the tables that are resolved. -/
theorem tables_of_resolveDeclarations
    (hr : resolveDeclarations decls checks databaseName = .ok r) :
    (plannedChanges decls checks >>= SchemaChange.applyAll []) = .ok r.schema.tables ∧
      r.schema.databaseName = databaseName := by
  obtain ⟨h, hdecls, hresolve⟩ := resolveDeclarations_eq_ok_iff.mp hr
  obtain ⟨s, changes, hbuild, hplan, happly, hname⟩ := Hierarchy.resolve_eq_ok_iff.mp hresolve
  refine ⟨bind_eq_ok_iff.mpr ⟨changes, ?_, happly⟩, hname⟩
  exact bind_eq_ok_iff.mpr ⟨h, hdecls, bind_eq_ok_iff.mpr ⟨s, hbuild,
    bind_eq_ok_iff.mpr ⟨_, hplan, rfl⟩⟩⟩

/-- Declarations are resolved exactly when changes are planned that agree. -/
theorem exists_resolveDeclarations_iff :
    (∃ r, resolveDeclarations decls checks databaseName = .ok r) ↔
      ∃ changes, plannedChanges decls checks = .ok changes ∧ SchemaChange.Agree changes := by
  constructor
  · intro hresolved
    obtain ⟨r, hr⟩ := hresolved
    obtain ⟨changes, hplanned, hmade⟩ :=
      bind_eq_ok_iff.mp (tables_of_resolveDeclarations hr).1
    exact ⟨changes, hplanned, SchemaChange.agree_of_applyAll hmade⟩
  · intro hagreed
    obtain ⟨changes, hplanned, hagree⟩ := hagreed
    obtain ⟨tables, hmade⟩ := SchemaChange.exists_applyAll_iff.mpr hagree
    obtain ⟨h, hdecls, hlater⟩ := bind_eq_ok_iff.mp hplanned
    obtain ⟨s, hbuild, hlater⟩ := bind_eq_ok_iff.mp hlater
    obtain ⟨⟨classes, _⟩, hplan, hlast⟩ := bind_eq_ok_iff.mp hlater
    obtain rfl := Except.ok.inj hlast
    exact ⟨⟨classes, ⟨databaseName, tables⟩⟩, resolveDeclarations_eq_ok_iff.mpr ⟨h, hdecls,
      Hierarchy.resolve_eq_ok_iff.mpr ⟨s, _, hbuild, hplan, hmade, rfl⟩⟩⟩

theorem spellsIndicesOnce_of_resolved
    (hresolved : ∃ r, resolveDeclarations decls checks databaseName = .ok r) :
    SpellsIndicesOnce decls checks := by
  obtain ⟨changes, hplanned, hagree⟩ := exists_resolveDeclarations_iff.mp hresolved
  intro _ hchanges
  exact Except.ok.inj (hplanned.symm.trans hchanges) ▸ hagree.indicesOnce

namespace SpelledLike

theorem symm (hspelled : SpelledLike decls decls') : SpelledLike decls' decls :=
  Eq.symm hspelled

theorem matches_ofDeclarations (hspelled : SpelledLike decls decls') :
    Matches Hierarchy.folded (Hierarchy.ofDeclarations decls)
      (Hierarchy.ofDeclarations decls') := by
  have hnames : decls.map (·.name) = decls'.map (·.name) :=
    map_eq_map_of_map_eq hspelled fun _ _ heq ↦ ClassDecl.name_eq_of_folded_eq heq
  refine matches_iff.mpr ⟨?_, fun h h' hdecls hdecls' ↦ ?_⟩
  · rw [Hierarchy.exists_ofDeclarations_iff, Hierarchy.exists_ofDeclarations_iff, hnames]
  · simp only [Hierarchy.folded, Hierarchy.mk.injEq]
    rw [Hierarchy.classes_of_ofDeclarations hdecls, Hierarchy.classes_of_ofDeclarations hdecls']
    exact hspelled

theorem matches_build {h h' : Hierarchy} (hh : h.folded = h'.folded) (checks : ChecksMode) :
    Matches (fun _ ↦ ()) (Scope.build h checks) (Scope.build h' checks) :=
  matches_iff.mpr
    ⟨⟨fun ⟨_, hs⟩ ↦ (Scope.built_of_build hs).exists_build_of_folded_eq hh,
        fun ⟨_, ht⟩ ↦ (Scope.built_of_build ht).exists_build_of_folded_eq hh.symm⟩,
      fun _ _ _ _ ↦ rfl⟩

/-- The changes that are planned are the same up to case. -/
theorem matches_plannedChanges (hspelled : SpelledLike decls decls') (checks : ChecksMode) :
    Matches (List.map SchemaChange.folded) (plannedChanges decls checks)
      (plannedChanges decls' checks) := by
  refine hspelled.matches_ofDeclarations.bind fun h h' _ _ hh ↦ ?_
  refine (matches_build hh checks).bind fun s t hs ht _ ↦ ?_
  have hsame : s.SpelledLike t :=
    (Scope.built_of_build hs).spelledLike (Scope.built_of_build ht) hh
  exact hsame.matches_plan.bind fun _ _ _ _ heq ↦ .pure heq

variable (hspelled : SpelledLike decls decls')
include hspelled

/-- Declarations that spell their indices once are resolved when they are resolved in another
spelling. -/
theorem exists_resolved (hone : SpellsIndicesOnce decls checks)
    (hresolved : ∃ r, resolveDeclarations decls' checks databaseName = .ok r) :
    ∃ r, resolveDeclarations decls checks databaseName = .ok r := by
  obtain ⟨changes', hplanned', hagree⟩ := exists_resolveDeclarations_iff.mp hresolved
  obtain ⟨changes, hplanned, heq⟩ :=
    (hspelled.symm.matches_plannedChanges checks).exists_ok hplanned'
  exact exists_resolveDeclarations_iff.mpr
    ⟨changes, hplanned, hagree.of_folded_eq heq.symm (hone changes hplanned)⟩

/-- Schemas of declarations in two spellings are the same up to case and repeated constraints. -/
theorem merged_eq (hr : resolveDeclarations decls checks databaseName = .ok r)
    (hr' : resolveDeclarations decls' checks databaseName = .ok r') :
    r.schema.merged = r'.schema.merged := by
  obtain ⟨htables, hname⟩ := tables_of_resolveDeclarations hr
  obtain ⟨htables', hname'⟩ := tables_of_resolveDeclarations hr'
  have hmatch : Matches (List.map Table.merged)
      (plannedChanges decls checks >>= SchemaChange.applyAll [])
      (plannedChanges decls' checks >>= SchemaChange.applyAll []) :=
    (hspelled.matches_plannedChanges checks).bind fun changes changes' hplanned hplanned' heq ↦
      SchemaChange.matches_applyAll heq (spellsIndicesOnce_of_resolved ⟨r, hr⟩ changes hplanned)
        (spellsIndicesOnce_of_resolved ⟨r', hr'⟩ changes' hplanned')
  rw [Schema.merged, Schema.merged, hname, hname',
    (matches_iff.mp hmatch).2 _ _ htables htables']

end SpelledLike

/-- Without repeated constraints, schemas are merged by folding their names. -/
theorem SpellsConstraintsOnce.merged_eq_folded (hone : SpellsConstraintsOnce decls checks)
    (hr : resolveDeclarations decls checks databaseName = .ok r) :
    r.schema.merged = r.schema.folded := by
  obtain ⟨changes, hplanned, hmade⟩ := bind_eq_ok_iff.mp (tables_of_resolveDeclarations hr).1
  rw [Schema.merged, Schema.folded, (hone changes hplanned).map_merged hmade]

/-- A list with the schema of a list that spells constraints once spells them once itself. -/
theorem SpellsConstraintsOnce.of_folded_eq (hone : SpellsConstraintsOnce decls checks)
    (hr : resolveDeclarations decls checks databaseName = .ok r)
    (hr' : resolveDeclarations decls' checks databaseName = .ok r')
    (hfolded : r.schema.folded = r'.schema.folded) : SpellsConstraintsOnce decls' checks := by
  obtain ⟨changes, hplanned, hmade⟩ := bind_eq_ok_iff.mp (tables_of_resolveDeclarations hr).1
  obtain ⟨_, hplanned', hmade'⟩ := bind_eq_ok_iff.mp (tables_of_resolveDeclarations hr').1
  intro changes' hchanges'
  obtain rfl := Except.ok.inj (hchanges'.symm.trans hplanned')
  exact (hone changes hplanned).of_made hmade hmade' (congrArg Schema.tables hfolded)

/-- What the case of physical names decides. Declarations that are resolved are resolved in another
spelling exactly when that spells each index once, and always to the same schema but for repeated
constraints. So with constraints that are spelled once, case is irrelevant exactly as long as the
other spelling spells indices and constraints once as well. -/
theorem resolve_upToCase (hspelled : SpelledLike decls decls') (checks : ChecksMode)
    (databaseName : String) :
    ((∃ r, resolveDeclarations decls checks databaseName = .ok r) →
      ((∃ r', resolveDeclarations decls' checks databaseName = .ok r') ↔
        SpellsIndicesOnce decls' checks)) ∧
    (∀ r r', resolveDeclarations decls checks databaseName = .ok r →
      resolveDeclarations decls' checks databaseName = .ok r' →
        r.schema.merged = r'.schema.merged) ∧
    (SpellsConstraintsOnce decls checks →
      (SpellingIrrelevant decls decls' checks databaseName ↔
        ((∃ r, resolveDeclarations decls checks databaseName = .ok r) →
          SpellsIndicesOnce decls' checks ∧ SpellsConstraintsOnce decls' checks) ∧
        ((∃ r', resolveDeclarations decls' checks databaseName = .ok r') →
          SpellsIndicesOnce decls checks))) := by
  refine ⟨fun hresolved ↦ ?resolved, fun r r' hr hr' ↦ hspelled.merged_eq hr hr',
    fun honce ↦ ⟨fun hsame ↦ ⟨fun hresolved ↦ ?spelled, fun hresolved' ↦ ?indices⟩,
      fun hspells ↦ ⟨⟨fun hresolved ↦ ?forth, fun hresolved' ↦ ?back⟩, fun r r' hr hr' ↦ ?schema⟩⟩⟩
  case resolved =>
    exact ⟨spellsIndicesOnce_of_resolved,
      fun hone ↦ hspelled.symm.exists_resolved hone hresolved⟩
  case spelled =>
    obtain ⟨r, hr⟩ := hresolved
    obtain ⟨r', hr'⟩ := hsame.1.mp ⟨r, hr⟩
    exact ⟨spellsIndicesOnce_of_resolved ⟨r', hr'⟩,
      honce.of_folded_eq hr hr' (hsame.2 r r' hr hr')⟩
  case indices => exact spellsIndicesOnce_of_resolved (hsame.1.mpr hresolved')
  case forth => exact hspelled.symm.exists_resolved (hspells.1 hresolved).1 hresolved
  case back => exact hspelled.exists_resolved (hspells.2 hresolved') hresolved'
  case schema =>
    have honce' := (hspells.1 ⟨r, hr⟩).2
    rw [← honce.merged_eq_folded hr, ← honce'.merged_eq_folded hr', hspelled.merged_eq hr hr']

/-- Two classes with an indexed field, the second below the first, and the tables they name. -/
def sketches (table subtable : String) : List ClassDecl :=
  [{ name := "Base"
     tags := [⟨"ojb.class", [("table", table)]⟩]
     members := [⟨"id", "int", [⟨"ojb.field", [("primarykey", "true")]⟩]⟩,
       ⟨"name", "java.lang.String", [⟨"ojb.field", [("column", "NAME"), ("indexed", "true")]⟩]⟩] },
   { name := "Sub"
     superclass := some "Base"
     tags := [⟨"ojb.class", [("table", subtable)]⟩] }]

theorem spelledLike_sketches {table table' subtable subtable' : String}
    (htable : Text.foldLatin table = Text.foldLatin table')
    (hsubtable : Text.foldLatin subtable = Text.foldLatin subtable') :
    SpelledLike (sketches table subtable) (sketches table' subtable') := by
  simp [SpelledLike, sketches, ClassDecl.folded, Tag.folded, Tag.foldValue, Tag.physicalKeys,
    htable, hsubtable]

theorem foldLatin_shapes : Text.foldLatin "SHAPES" = Text.foldLatin "shapes" := by
  rw [← String.toList_inj, Text.toList_foldLatin, Text.toList_foldLatin]
  decide

theorem resolve_upToCase_sketches :
    SpelledLike (sketches "SHAPES" "SHAPES") (sketches "shapes" "shapes") ∧
      (∃ r r', resolveDeclarations (sketches "SHAPES" "SHAPES") .strict "atelier" = .ok r ∧
        resolveDeclarations (sketches "shapes" "shapes") .strict "atelier" = .ok r' ∧
        r.schema ≠ r'.schema ∧ r.schema.merged = r'.schema.merged) ∧
      SpellingIrrelevant (sketches "SHAPES" "SHAPES") (sketches "shapes" "shapes") .strict
        "atelier" := by
  have hspelled : SpelledLike (sketches "SHAPES" "SHAPES") (sketches "shapes" "shapes") :=
    spelledLike_sketches foldLatin_shapes foldLatin_shapes
  obtain ⟨hresolves, hmerged, hirrelevant⟩ := resolve_upToCase hspelled .strict "atelier"
  have hindices : SpellsIndicesOnce (sketches "SHAPES" "SHAPES") .strict := by decide +kernel
  have hindices' : SpellsIndicesOnce (sketches "shapes" "shapes") .strict := by decide +kernel
  have hconstraints : SpellsConstraintsOnce (sketches "SHAPES" "SHAPES") .strict := by
    decide +kernel
  have hconstraints' : SpellsConstraintsOnce (sketches "shapes" "shapes") .strict := by
    decide +kernel
  have hok : (resolveDeclarations (sketches "SHAPES" "SHAPES") .strict "atelier").toBool =
      true := by decide +kernel
  have hother : (·.schema) <$> resolveDeclarations (sketches "SHAPES" "SHAPES") .strict "atelier" ≠
      (·.schema) <$> resolveDeclarations (sketches "shapes" "shapes") .strict "atelier" := by
    decide +kernel
  obtain ⟨r, hr⟩ := exists_eq_ok_of_toBool hok
  obtain ⟨r', hr'⟩ := (hresolves ⟨r, hr⟩).mpr hindices'
  refine ⟨hspelled, ⟨r, r', hr, hr', fun heq ↦ hother ?_, hmerged r r' hr hr'⟩,
    (hirrelevant hconstraints).mpr ⟨fun _ ↦ ⟨hindices', hconstraints'⟩, fun _ ↦ hindices⟩⟩
  rw [hr, hr']
  exact congrArg Except.ok heq

/-- A table that two classes spell differently has two spellings of one index, and nothing is
resolved. -/
theorem not_spellingIrrelevant_sketches :
    SpelledLike (sketches "SHAPES" "SHAPES") (sketches "SHAPES" "shapes") ∧
      ¬ SpellingIrrelevant (sketches "SHAPES" "SHAPES") (sketches "SHAPES" "shapes") .strict
        "atelier" := by
  refine ⟨spelledLike_sketches rfl foldLatin_shapes, fun hsame ↦ ?_⟩
  have hok : (resolveDeclarations (sketches "SHAPES" "SHAPES") .strict "atelier").toBool =
      true := by decide +kernel
  have honce : SpellsIndicesOnce (sketches "SHAPES" "shapes") .strict :=
    spellsIndicesOnce_of_resolved (hsame.1.mp (exists_eq_ok_of_toBool hok))
  have hindices : (do
      let changes ← plannedChanges (sketches "SHAPES" "shapes") .strict
      return changes.filterMap fun (c : SchemaChange) ↦ c.index?.map (Prod.mk c.tableName)) =
        .ok [("SHAPES", ⟨"SHAPES_NAME_IDX", false, ["NAME"]⟩),
          ("shapes", ⟨"shapes_NAME_IDX", false, ["NAME"]⟩)] := by
    decide +kernel
  obtain ⟨changes, hplanned, hlast⟩ := bind_eq_ok_iff.mp hindices
  have hplaced : ∀ entry ∈ changes.filterMap fun c ↦ c.index?.map (Prod.mk c.tableName),
      ∃ c ∈ changes, c.tableName = entry.1 ∧ c.index? = some entry.2 := by
    intro entry hentry
    obtain ⟨c, hc, hindex⟩ := List.mem_filterMap.mp hentry
    obtain ⟨i, hi, rfl⟩ := Option.map_eq_some_iff.mp hindex
    exact ⟨c, hc, rfl, hi⟩
  rw [pure_eq_ok_iff.mp hlast] at hplaced
  obtain ⟨c, hc, hname, hi⟩ := hplaced _ List.mem_cons_self
  obtain ⟨d, hd, hname', hj⟩ := hplaced _ (List.mem_cons_of_mem _ List.mem_cons_self)
  have htables : sameTable c.tableName d.tableName = true := by
    rw [hname, hname']
    exact sameTable_of_foldLatin_eq foldLatin_shapes
  have hfold : Text.foldLatin "SHAPES_NAME_IDX" = Text.foldLatin "shapes_NAME_IDX" := by
    rw [← String.toList_inj, Text.toList_foldLatin, Text.toList_foldLatin]
    decide
  have heq := honce changes hplanned c hc d hd htables _ hi _ hj (by
    rw [Index.folded, Index.folded, hfold])
  exact absurd heq (by decide)

end ClassMap
