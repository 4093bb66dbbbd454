import ClassMap.Proofs.Columns
import ClassMap.Proofs.Resolution.Reordering

/-!
The order of declarations does not matter. A list of declarations is resolved exactly when any
rearrangement of it is, and both come to the same mapping: every class has the same descriptor but
for the order of its extents, and every table has the same columns.
-/

set_option autoImplicit false
set_option relaxedAutoImplicit false

namespace ClassMap

/-- Two lists of entries that are named alike, each name occurring once, with entries that are alike
under each name. -/
structure SameEntries {α : Type} (nameOf : α → String) (alike : α → α → Prop)
    (xs ys : List α) : Prop where
  nodup : (xs.map nameOf).Nodup
  names : (xs.map nameOf).Perm (ys.map nameOf)
  alike : ∀ x ∈ xs, ∀ y ∈ ys, nameOf x = nameOf y → alike x y

/-- Descriptors that differ in the order of the extents at most. -/
structure ClassDescriptor.SameButExtents (c d : ClassDescriptor) : Prop where
  extents : c.extents.Perm d.extents
  others : d = { c with extents := d.extents }

/-- Columns that store the same, whatever the spelling of their names. -/
structure Column.SameStorage (c d : Column) : Prop where
  jdbcType : c.jdbcType = d.jdbcType
  size : c.size = d.size
  primaryKey : c.primaryKey = d.primaryKey
  required : c.required = d.required
  autoIncrement : c.autoIncrement = d.autoIncrement

/-- Tables with the same columns. Names of columns are told apart without regard to the case of `A`
to `Z`. -/
def Table.SameColumns (t u : Table) : Prop :=
  SameEntries (fun c ↦ Text.foldLatin c.name) Column.SameStorage t.columns u.columns

/-- Repositories with the same classes and the same tables. Names of tables are told apart by their
small forms. -/
structure Repository.SameMapping (r other : Repository) : Prop where
  classes : SameEntries (·.name) ClassDescriptor.SameButExtents r.classes other.classes
  tables : SameEntries (fun t ↦ Text.lower t.name) Table.SameColumns r.schema.tables
    other.schema.tables

/-- Columns that gather the same declarations are the same. -/
theorem Column.Gathers.sameStorage {c d : Column} {added others : List Column}
    (hc : c.Gathers added) (hd : d.Gathers others) (hsame : ∀ a, a ∈ added ↔ a ∈ others)
    (hname : Text.sameName c.name d.name = true) : c.SameStorage d := by
  have hsameName : ∀ a : Column, Text.sameName a.name c.name = Text.sameName a.name d.name := by
    intro a
    rw [Text.sameName, Text.sameName, Text.sameName_iff.mp hname]
  obtain ⟨a, ha, hfound⟩ := hc.declared
  have htype : c.type = d.type :=
    (hc.type_eq a ha hfound).symm.trans (hd.type_eq a ((hsame a).mp ha) (hsameName a ▸ hfound))
  have hmark : ∀ mark, Column.IsMark mark → mark c = mark d := by
    intro mark hmark
    rw [Bool.eq_iff_iff, hc.mark_iff mark hmark, hd.mark_iff mark hmark]
    simp only [hsame, hsameName]
  obtain ⟨hjdbcType, hsize⟩ := ColumnType.mk.inj htype
  exact ⟨hjdbcType, hsize, hmark _ isMark_primaryKey, hmark _ isMark_required,
    hmark _ isMark_autoIncrement⟩

/-- Tables that reflect the same columns have the same columns. -/
theorem Table.Reflects.sameColumns {t u : Table} {added others : List Column}
    {constraints constraints' : List ForeignKey} (ht : t.Reflects added constraints)
    (hu : u.Reflects others constraints') (hsame : ∀ a, a ∈ added ↔ a ∈ others) :
    t.SameColumns u := by
  have hnames : ∀ {t : Table} {added : List Column} {constraints : List ForeignKey},
      t.Reflects added constraints → ∀ name,
        name ∈ t.columns.map (fun c ↦ Text.foldLatin c.name) ↔
          ∃ a ∈ added, Text.foldLatin a.name = name := by
    intro t added constraints ht name
    rw [List.mem_map]
    constructor
    · rintro ⟨c, hc, rfl⟩
      obtain ⟨a, ha, hname⟩ := (ht.gathers c hc).declared
      exact ⟨a, ha, Text.sameName_iff.mp hname⟩
    · rintro ⟨a, ha, rfl⟩
      obtain ⟨c, hc, hname⟩ := ht.complete a ha
      exact ⟨c, hc, (Text.sameName_iff.mp hname).symm⟩
  constructor
  case nodup => exact ht.nodup
  case names =>
    refine (List.perm_ext_iff_of_nodup ht.nodup hu.nodup).mpr fun name ↦ ?_
    rw [hnames ht, hnames hu]
    simp only [hsame]
  case alike =>
    intro c hc d hd hname
    exact (ht.gathers c hc).sameStorage (hu.gathers d hd) hsame (Text.sameName_iff.mpr hname)

namespace SchemaChange

variable {changes others : List SchemaChange} {table other : String}

/-- The columns declared for a table do not depend on the order of the changes. -/
theorem SameStructure.mem_columnsOf_iff (h : SameStructure changes others)
    (hname : sameTable table other = true) (a : Column) :
    a ∈ columnsOf changes table ↔ a ∈ columnsOf others other := by
  rw [SchemaChange.mem_columnsOf_iff, SchemaChange.mem_columnsOf_iff]
  refine exists_congr fun name ↦ exists_congr fun owner ↦ and_congr (h _ rfl) ?_
  rw [sameTable_comm, sameTable_congr hname, sameTable_comm]

end SchemaChange

namespace Repository

variable {r r' : Repository} {decls decls' : List ClassDecl} {checks : ChecksMode}
  {h h' : Hierarchy} {s s' : Scope} {changes changes' : List SchemaChange} {name : String}

/-- Classes that are described alike ask for the same tables. -/
theorem mem_tableNames_iff (hclasses : ∀ c ∈ r.classes, ∃ d ∈ r'.classes, c.SameButExtents d)
    (hclasses' : ∀ d ∈ r'.classes, ∃ c ∈ r.classes, c.SameButExtents d) :
    name ∈ r.tableNames ↔ name ∈ r'.tableNames := by
  have hfields : ∀ {c d : ClassDescriptor}, c.SameButExtents d →
      d.table = c.table ∧ d.collections = c.collections := by
    intro c d hsame
    rw [hsame.others]
    exact ⟨rfl, rfl⟩
  simp only [tableNames, List.mem_append, List.mem_filterMap, List.mem_flatMap]
  constructor
  · intro hasked
    rcases hasked with ⟨c, hc, htable⟩ | ⟨c, hc, hcollection⟩
    · obtain ⟨d, hd, hsame⟩ := hclasses c hc
      exact Or.inl ⟨d, hd, (hfields hsame).1.trans htable⟩
    · obtain ⟨d, hd, hsame⟩ := hclasses c hc
      exact Or.inr ⟨d, hd, (hfields hsame).2 ▸ hcollection⟩
  · intro hasked
    rcases hasked with ⟨d, hd, htable⟩ | ⟨d, hd, hcollection⟩
    · obtain ⟨c, hc, hsame⟩ := hclasses' d hd
      exact Or.inl ⟨c, hc, (hfields hsame).1.symm.trans htable⟩
    · obtain ⟨c, hc, hsame⟩ := hclasses' d hd
      exact Or.inr ⟨c, hc, (hfields hsame).2 ▸ hcollection⟩

namespace ResolvedIn

/-- Classes resolved from the same declarations are described alike. -/
theorem sameClasses (hr : r.ResolvedIn decls checks h s changes)
    (hr' : r'.ResolvedIn decls' checks h' s' changes') (hscopes : s.Reorders s') :
    SameEntries (·.name) ClassDescriptor.SameButExtents r.classes r'.classes := by
  constructor
  case nodup =>
    rw [Scope.map_name_of_plan hr.planned]
    exact hr.built.nodup_names
  case names =>
    rw [Scope.map_name_of_plan hr.planned, Scope.map_name_of_plan hr'.planned]
    have hnames := hscopes.decls.map ClassDecl.name
    rwa [List.map_map, List.map_map] at hnames
  case alike =>
    intro c hc d hd hname
    obtain ⟨p, hp, part, hclass⟩ := Scope.exists_classPlan_of_mem hr.planned hc
    obtain ⟨q, hq, part', hclass'⟩ := Scope.exists_classPlan_of_mem hr'.planned hd
    have hc' : s.Describes p c := Scope.describes_of_classPlan hp hclass
    have hd' : s'.Describes q d := Scope.describes_of_classPlan hq hclass'
    have hdecl : p.decl = q.decl := by
      obtain ⟨o, ho, hdecl⟩ := hscopes.symm.exists_mem hq
      have hnames : p.decl.name = o.decl.name := by
        rw [← hc'.name, hname, hd'.name, hdecl]
      rw [hr.built.eq_of_name_eq hp ho hnames, hdecl]
    obtain ⟨others, hothers⟩ := hscopes.exists_classPlan hdecl hclass
    obtain ⟨rfl, -⟩ := Prod.mk.inj (Except.ok.inj (hclass'.symm.trans hothers))
    refine ⟨?_, rfl⟩
    rw [hc'.extents]
    exact (hscopes.extents p hp q hq hdecl).map _

/-- Whatever is resolved from the same declarations is the same mapping. -/
theorem sameMapping (hr : r.ResolvedIn decls checks h s changes)
    (hr' : r'.ResolvedIn decls' checks h' s' changes') (hsame : h.Reorders h') :
    r.SameMapping r' := by
  have hscopes : s.Reorders s' := hr.built.reorders hr'.built hsame
  have hclasses := hr.sameClasses hr' hscopes
  have hmade := SchemaChange.made_of_applyAll hr.applied
  have hmade' := SchemaChange.made_of_applyAll hr'.applied
  refine ⟨hclasses, hmade.nodup, ?_, ?_⟩
  · have hforward : ∀ c ∈ r.classes, ∃ d ∈ r'.classes, c.SameButExtents d := by
      intro c hc
      obtain ⟨d, hd, hname⟩ :=
        List.mem_map.mp (hclasses.names.mem_iff.mp (List.mem_map_of_mem hc))
      exact ⟨d, hd, hclasses.alike c hc d hd hname.symm⟩
    have hbackward : ∀ d ∈ r'.classes, ∃ c ∈ r.classes, c.SameButExtents d := by
      intro d hd
      obtain ⟨c, hc, hname⟩ :=
        List.mem_map.mp (hclasses.names.mem_iff.mpr (List.mem_map_of_mem hd))
      exact ⟨c, hc, hclasses.alike c hc d hd hname⟩
    have hlower : ∀ tables : List Table, tables.map (fun t ↦ Text.lower t.name) =
        (tables.map (·.name)).map Text.lower := by
      intro tables
      rw [List.map_map]
      rfl
    refine (List.perm_ext_iff_of_nodup hmade.nodup hmade'.nodup).mpr fun name ↦ ?_
    rw [hlower, hlower, hr.exactSchema.tables, hr'.exactSchema.tables, mem_map_lower_firstNames,
      mem_map_lower_firstNames, List.mem_map, List.mem_map]
    simp only [mem_tableNames_iff hforward hbackward]
  · intro t ht u hu hname
    have hstructure := hscopes.sameStructure_plan hr.planned hr'.planned
    exact (hmade.reflects t ht).sameColumns (hmade'.reflects u hu)
      (hstructure.mem_columnsOf_iff (sameTable_iff.mpr hname))

/-- Declarations that are resolved in one order are resolved in any. -/
theorem exists_resolved (hr : r.ResolvedIn decls checks h s changes) (hperm : decls.Perm decls')
    (databaseName : String) : ∃ r', resolveDeclarations decls' checks databaseName = .ok r' := by
  have hnodup : (decls'.map (·.name)).Nodup :=
    (hperm.map _).nodup_iff.mp (hr.decls_eq ▸ h.nodup)
  obtain ⟨h', hdecls'⟩ := Hierarchy.exists_ofDeclarations hnodup
  have hsame : h.Reorders h' := by
    rw [Hierarchy.Reorders, hr.decls_eq, Hierarchy.classes_of_ofDeclarations hdecls']
    exact hperm
  obtain ⟨s', hbuild⟩ := hr.built.exists_build hsame
  have hscopes : s.Reorders s' := hr.built.reorders (Scope.built_of_build hbuild) hsame
  obtain ⟨classes, changes', hplan⟩ := hscopes.exists_plan hr.planned
  have hagree : SchemaChange.Agree changes' :=
    (SchemaChange.agree_of_applyAll hr.applied).of_sameStructure
      (hscopes.sameStructure_plan hr.planned hplan)
  obtain ⟨tables, happly⟩ := SchemaChange.exists_applyAll_iff.mpr hagree
  refine ⟨⟨classes, ⟨databaseName, tables⟩⟩, resolveDeclarations_eq_ok_iff.mpr ⟨h', hdecls', ?_⟩⟩
  exact Hierarchy.resolve_eq_ok_iff.mpr ⟨s', changes', hbuild, hplan, happly, rfl⟩

end ResolvedIn

end Repository

/-- Declarations are resolved in every order or in none, and always to the same mapping. -/
theorem declarationOrder_irrelevant {decls decls' : List ClassDecl} (hperm : decls.Perm decls')
    (checks : ChecksMode) (databaseName : String) :
    ((∃ r, resolveDeclarations decls checks databaseName = .ok r) ↔
        ∃ r, resolveDeclarations decls' checks databaseName = .ok r) ∧
      ∀ r r', resolveDeclarations decls checks databaseName = .ok r →
        resolveDeclarations decls' checks databaseName = .ok r' → r.SameMapping r' := by
  refine ⟨⟨fun ⟨r, hr⟩ ↦ ?_, fun ⟨r, hr⟩ ↦ ?_⟩, fun r r' hr hr' ↦ ?_⟩
  · obtain ⟨h, s, changes, hresolved⟩ := exists_resolvedIn hr
    exact hresolved.exists_resolved hperm databaseName
  · obtain ⟨h, s, changes, hresolved⟩ := exists_resolvedIn hr
    exact hresolved.exists_resolved hperm.symm databaseName
  · obtain ⟨h, s, changes, hresolved⟩ := exists_resolvedIn hr
    obtain ⟨h', s', changes', hresolved'⟩ := exists_resolvedIn hr'
    refine hresolved.sameMapping hresolved' ?_
    rw [Hierarchy.Reorders, hresolved.decls_eq, hresolved'.decls_eq]
    exact hperm

/-- Cars and trucks share a table, which either may be the first to name. -/
def fleet : List ClassDecl :=
  [{ name := "Vehicle"
     tags := [⟨"ojb.class", [("generate-table-info", "false")]⟩]
     members := [⟨"id", "int", [⟨"ojb.field", [("primarykey", "true")]⟩]⟩] },
   { name := "Car"
     superclass := some "Vehicle"
     tags := [⟨"ojb.class", [("table", "VEHICLES")]⟩]
     members := [⟨"seats", "int", [⟨"ojb.field", []⟩]⟩] },
   { name := "Truck"
     superclass := some "Vehicle"
     tags := [⟨"ojb.class", [("table", "vehicles")]⟩]
     members := [⟨"load", "long", [⟨"ojb.field", [("nullable", "false")]⟩]⟩,
       ⟨"escort", "Car", [⟨"ojb.reference", [("foreignkey", "id")]⟩]⟩] }]

theorem declarationOrder_irrelevant_fleet :
    fleet.Perm fleet.reverse ∧
      ∃ r r', resolveDeclarations fleet .strict "depot" = .ok r ∧
        resolveDeclarations fleet.reverse .strict "depot" = .ok r' ∧ r ≠ r' ∧
        r.SameMapping r' := by
  have hperm : fleet.Perm fleet.reverse := (List.reverse_perm fleet).symm
  obtain ⟨hiff, hsame⟩ := declarationOrder_irrelevant hperm .strict "depot"
  have hok : (resolveDeclarations fleet .strict "depot").toBool = true := by decide +kernel
  obtain ⟨r, hr⟩ := Traversal.exists_eq_ok_of_toBool hok
  obtain ⟨r', hr'⟩ := hiff.mp ⟨r, hr⟩
  have hne : resolveDeclarations fleet .strict "depot" ≠
      resolveDeclarations fleet.reverse .strict "depot" := by decide +kernel
  refine ⟨hperm, r, r', hr, hr', ?_, hsame r r' hr hr'⟩
  rintro rfl
  exact hne (hr.trans hr'.symm)

end ClassMap
