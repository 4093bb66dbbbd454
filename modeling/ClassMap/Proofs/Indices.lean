import ClassMap.Proofs.Schema.Agreement
import ClassMap.Proofs.TableLookup
import ClassMap.Proofs.Text.Entries
import ClassMap.Proofs.Constraints

/-!
Indices of tables. The indices of all classes that share a table are kept together, under one name
each; an index whose name is taken already is accepted only if it is the one that is there. So the
indices of a resolved table are those that its classes ask for, with an indexed field or with a tag,
and whatever a class asks for stays as it was asked for, whichever classes come after it
(`indices_kept`).
-/

set_option autoImplicit false
set_option relaxedAutoImplicit false

namespace ClassMap

open Traversal

/-- A tag declares an index: its name, the names of its fields, and whether it is unique. -/
structure Tag.DeclaresIndex (tag : Tag) (index : String) (names : List String) (unique : Bool) :
    Prop where
  kind : tag.name = "ojb.index"
  name : tag.Says "name" index
  fields : tag.Lists "fields" names
  unique : unique = true ↔ tag.SwitchesOn "unique"

namespace Repository

/-- An index that a class of the repository asks for in a table. -/
inductive Indexes (r : Repository) (decls : List ClassDecl) (table : String) : Index → Prop
  | field {c : ClassDescriptor} {f : FieldDescriptor} {name : String} (hc : c ∈ r.classes)
      (hname : c.table = some name) (htable : sameTable name table = true) (hf : f ∈ c.fields)
      (hindexed : f.indexed = true) :
      Indexes r decls table ⟨name ++ "_" ++ f.column ++ "_IDX", false, [f.column]⟩
  | tag {c : ClassDescriptor} {decl : ClassDecl} {tag : Tag} {index name : String}
      {names : List String} {unique : Bool} {fields : List FieldDescriptor} (hc : c ∈ r.classes)
      (hname : c.table = some name) (htable : sameTable name table = true) (hdecl : decl ∈ decls)
      (hsame : decl.name = c.name) (htag : tag ∈ decl.tags)
      (hdeclares : tag.DeclaresIndex index names unique)
      (hfields : names.map c.field? = fields.map some) :
      Indexes r decls table ⟨index, unique, fields.map (·.column)⟩

/-- The index of a tag is in a table of the schema, with the columns of the fields that the tag
names, in that order. -/
def HasDeclaredIndex (c : ClassDescriptor) (tag : Tag) (t : Table) : Prop :=
  ∃ (index : String) (names : List String) (unique : Bool) (fields : List FieldDescriptor),
    tag.DeclaresIndex index names unique ∧ names.map c.field? = fields.map some ∧
      ∃ i ∈ t.indices, Text.sameName i.name index = true ∧ i.unique = unique ∧
        i.columns = fields.map (·.column)

/-- The table of a class has an index for each indexed field and for each index tag of the class. -/
def IndexesClass (r : Repository) (decls : List ClassDecl) (c : ClassDescriptor) : Prop :=
  ∀ name, c.table = some name → ∃ t ∈ r.schema.tables, sameTable name t.name = true ∧
    (∀ f ∈ c.fields, f.indexed = true →
      ∃ i ∈ t.indices, i.unique = false ∧ i.columns = [f.column]) ∧
    ∀ decl ∈ decls, decl.name = c.name → ∀ tag ∈ decl.tags, tag.name = "ojb.index" →
      HasDeclaredIndex c tag t

/-- The tables of a repository have the indices that its classes ask for. -/
structure KeepsIndices (r : Repository) (decls : List ClassDecl) : Prop where
  classes : ∀ c ∈ r.classes, r.IndexesClass decls c
  mem_iff : ∀ t ∈ r.schema.tables, ∀ i, i ∈ t.indices ↔ r.Indexes decls t.name i
  nodup : ∀ t ∈ r.schema.tables, (t.indices.map fun i ↦ Text.foldLatin i.name).Nodup
  columns : ∀ t ∈ r.schema.tables, ∀ i ∈ t.indices, ∀ name ∈ i.columns,
    ∃ column, t.column? name = some column

end Repository

/-! ### What a class asks for -/

theorem ClassDecl.mem_tagsNamed_iff {c : ClassDecl} {tag : Tag} {name : String} :
    tag ∈ c.tagsNamed name ↔ tag ∈ c.tags ∧ tag.name = name := by
  rw [ClassDecl.tagsNamed, List.mem_filter, beq_iff_eq]

/-- The options that are read from an index tag are what the tag declares. -/
theorem IndexOptions.declaresIndex {className : String} {tag : Tag} {options : IndexOptions}
    (hkind : tag.name = TagName.index) (hoptions : IndexOptions.parse className tag = .ok options) :
    tag.DeclaresIndex options.name options.fields options.unique := by
  simp only [IndexOptions.parse, bind_eq_ok_iff, pure_eq_ok_iff] at hoptions
  obtain ⟨names, hnames, name, hname, unique, hunique, rfl⟩ := hoptions
  exact ⟨hkind, TagReader.says_of_required hname, TagReader.lists_of_someEntries hnames,
    TagReader.eq_true_iff_switchesOn hunique⟩

/-- A tag declares one index. -/
theorem Tag.DeclaresIndex.eq {tag : Tag} {index other : String} {names others : List String}
    {unique unique' : Bool} (h : tag.DeclaresIndex index names unique)
    (hother : tag.DeclaresIndex other others unique') :
    index = other ∧ names = others ∧ unique = unique' :=
  ⟨h.name.eq hother.name, h.fields.eq hother.fields,
    Bool.eq_iff_iff.mpr (h.unique.trans hother.unique.symm)⟩

namespace Scope

variable {s : Scope} {p : PersistentClass} {c : ClassDecl} {a : EffectiveAssociation}
  {association : Association} {changes : List SchemaChange} {name owner : String} {index : Index}

/-- The index of a tag has the columns of the fields that the tag names. -/
theorem index_eq_ok {tag : Tag} (hindex : s.index c tag = .ok index) :
    ∃ options fields, IndexOptions.parse c.name tag = .ok options ∧
      (options.fields.mapM fun name ↦ s.field c name (.indexed options.name)) = .ok fields ∧
        index = ⟨options.name, options.unique, fields.map (·.column)⟩ := by
  simp only [Scope.index, bind_eq_ok_iff, pure_eq_ok_iff] at hindex
  obtain ⟨options, hoptions, columns, hcolumns, rfl⟩ := hindex
  have hstep : ∀ name ∈ options.fields, ∀ column,
      (do return (← s.field c name (.indexed options.name)).column) = Except.ok column →
        ∃ f, s.field c name (.indexed options.name) = .ok f ∧ f.column = id column := by
    intro name _ column hcolumn
    obtain ⟨f, hf, hpure⟩ := bind_eq_ok_iff.mp hcolumn
    exact ⟨f, hf, pure_eq_ok_iff.mp hpure⟩
  obtain ⟨fields, hfields, hmap⟩ := exists_mapM_map_eq hstep hcolumns
  rw [List.map_id] at hmap
  exact ⟨options, fields, hoptions, hfields, by rw [hmap]⟩

/-- The names that a tag lists are trimmed, as the entries of an option. -/
theorem trimmed_of_indexOptions {className : String} {tag : Tag} {options : IndexOptions}
    (hoptions : IndexOptions.parse className tag = .ok options) :
    ∀ name ∈ options.fields, Text.Trimmed name := by
  simp only [IndexOptions.parse, bind_eq_ok_iff, pure_eq_ok_iff] at hoptions
  obtain ⟨names, hnames, _, -, _, -, rfl⟩ := hoptions
  intro name hname
  rw [(TagReader.entries_of_someEntries hnames).1] at hname
  exact TagReader.trimmed_of_mem_entries hname

/-- The indices that a class asks for are those of its fields and of its tags, in its own table. -/
theorem index_mem_tableChanges_iff (hchanges : s.tableChanges p = .ok changes) :
    .index name index owner ∈ changes ↔
      owner = p.decl.name ∧ s.tableOf p.decl = some name ∧
        ((∃ f ∈ s.fieldsOf p.decl, f.indexed = true ∧
            index = ⟨name ++ "_" ++ f.column ++ "_IDX", false, [f.column]⟩) ∨
          ∃ tag ∈ p.decl.tagsNamed TagName.index, s.index p.decl tag = .ok index) := by
  cases htable : s.tableOf p.decl with
  | none => simp [tableChanges_eq_nil hchanges htable]
  | some table =>
    simp only [tableChanges, htable, bind_eq_ok_iff, pure_eq_ok_iff] at hchanges
    obtain ⟨indices, hindices, rfl⟩ := hchanges
    rw [List.mem_append, mem_columnChanges_iff]
    constructor
    · intro hmem
      rcases hmem with (hfirst | ⟨f, hf, hcolumn | ⟨hindexed, hfield⟩⟩) | htag
      · exact absurd hfirst (by simp)
      · exact absurd hcolumn (by simp)
      · obtain ⟨rfl, rfl, rfl⟩ := SchemaChange.index.inj hfield
        exact ⟨rfl, rfl, Or.inl ⟨f, hf, hindexed, rfl⟩⟩
      · obtain ⟨tag, hmem, hread⟩ := exists_of_mem_mapM hindices htag
        obtain ⟨found, hfound, hpure⟩ := bind_eq_ok_iff.mp hread
        obtain ⟨rfl, rfl, rfl⟩ := SchemaChange.index.inj (pure_eq_ok_iff.mp hpure)
        exact ⟨rfl, rfl, Or.inr ⟨tag, hmem, hfound⟩⟩
    · intro hasked
      obtain ⟨rfl, hname, hcases⟩ := hasked
      obtain rfl := Option.some.inj hname
      rcases hcases with ⟨f, hf, hindexed, rfl⟩ | ⟨tag, htag, hread⟩
      · exact Or.inl (Or.inr ⟨f, hf, Or.inr ⟨hindexed, rfl⟩⟩)
      · obtain ⟨change, hchange, hmade⟩ := exists_mapM_of_mem hindices htag
        rw [hread] at hmade
        obtain rfl := Except.ok.inj hmade
        exact Or.inr hchange

/-- Every index tag of a class with a table has been read. -/
theorem exists_index (hchanges : s.tableChanges p = .ok changes)
    (htable : s.tableOf p.decl = some name) {tag : Tag}
    (htag : tag ∈ p.decl.tagsNamed TagName.index) : ∃ index, s.index p.decl tag = .ok index := by
  simp only [tableChanges, htable, bind_eq_ok_iff] at hchanges
  obtain ⟨indices, hindices, -⟩ := hchanges
  obtain ⟨change, -, hmade⟩ := exists_mapM_of_mem hindices htag
  obtain ⟨index, hindex, -⟩ := bind_eq_ok_iff.mp hmade
  exact ⟨index, hindex⟩

/-- Associations ask for no index. -/
theorem index_notMem_of_association
    (hplan : s.associationPlan c a = .ok (association, changes)) :
    .index name index owner ∉ changes := by
  intro hmem
  rcases associationPlan_eq_ok_iff.mp hplan with ⟨-, d, -, hcollection⟩ | ⟨-, d, -, hreference⟩
  · obtain ⟨options, element, hresolved⟩ := collectionPlan_eq_ok hcollection
    rcases hresolved.keys_cases with ⟨-, hkeys⟩ | ⟨joinTable, -, hkeys⟩
    · obtain ⟨_, -, -, hiff⟩ := inverseKeys_eq_ok hkeys
      simp [hiff] at hmem
    · obtain ⟨-, -, constraints, rfl, hiff⟩ := joinKeys_eq_ok hkeys
      simp [joinTableChanges, hiff] at hmem
  · obtain ⟨target, keys, hresolved⟩ := resolveReference_eq_ok hreference
    simp [hresolved.mem_changes] at hmem

end Scope

/-! ### What a table holds -/

theorem SchemaChange.mem_indicesOf_iff {changes : List SchemaChange} {table : String}
    {index : Index} :
    index ∈ (changesOf changes table).filterMap index? ↔
      ∃ name owner, .index name index owner ∈ changes ∧ sameTable name table = true := by
  rw [List.mem_filterMap]
  constructor
  · intro hindices
    obtain ⟨c, hc, hindex⟩ := hindices
    obtain ⟨hmem, hname⟩ := List.mem_filter.mp hc
    cases c with
    | index name added owner =>
      obtain rfl := Option.some.inj hindex
      exact ⟨name, owner, hmem, hname⟩
    | table | column | foreignKey => exact absurd hindex (by simp [index?])
  · intro hchange
    obtain ⟨name, owner, hmem, hname⟩ := hchange
    exact ⟨_, List.mem_filter.mpr ⟨hmem, hname⟩, rfl⟩

namespace Repository

variable {r : Repository} {decls : List ClassDecl} {checks : ChecksMode} {h : Hierarchy}
  {s : Scope} {changes : List SchemaChange} {c : ClassDescriptor} {p : PersistentClass}
  {t : Table} {table : String} {index : Index}

namespace ResolvedIn

/-- The index of a tag, in the words of the descriptor of its class. -/
theorem declared_of_index (hd : s.Describes p c) {tag : Tag} (hkind : tag.name = TagName.index)
    (hindex : s.index p.decl tag = .ok index) :
    ∃ (names : List String) (fields : List FieldDescriptor),
      tag.DeclaresIndex index.name names index.unique ∧ names.map c.field? = fields.map some ∧
        index.columns = fields.map (·.column) := by
  obtain ⟨options, fields, hoptions, hfields, rfl⟩ := Scope.index_eq_ok hindex
  have hnames := Scope.map_field?_of_mapM hd (Scope.trimmed_of_indexOptions hoptions) hfields
  exact ⟨options.fields, fields, IndexOptions.declaresIndex hkind hoptions, hnames, rfl⟩

/-- A class is declared once. -/
theorem decl_eq_of_name (hr : r.ResolvedIn decls checks h s changes) (hd : s.Describes p c)
    {decl : ClassDecl} (hdecl : decl ∈ decls) (hname : decl.name = c.name) : decl = p.decl := by
  rw [← hr.decls_eq] at hdecl
  exact Hierarchy.eq_of_name_eq hdecl (hr.built.mem_classes hd.mem) (hname.trans hd.name)

/-- The changes that a class makes for its table. -/
theorem exists_tableChanges (hr : r.ResolvedIn decls checks h s changes) (hp : p ∈ s.classes) :
    ∃ part, s.tableChanges p = .ok part ∧ ∀ change ∈ part, change ∈ changes := by
  obtain ⟨_, _, htables, -⟩ := Scope.plan_eq_ok hr.planned
  obtain ⟨part, -, hpart⟩ := exists_mapM_of_mem htables hp
  exact ⟨part, hpart, fun change hchange ↦
    (Scope.mem_plan_iff hr.planned).mpr (Or.inl ⟨p, hp, part, hpart, hchange⟩)⟩

/-- A class asks for an index exactly when the plan has a change for it. -/
theorem mem_changes_iff_indexes (hr : r.ResolvedIn decls checks h s changes) :
    (∃ name owner, .index name index owner ∈ changes ∧ sameTable name table = true) ↔
      r.Indexes decls table index := by
  constructor
  · intro hchange
    obtain ⟨name, owner, hmem, htable⟩ := hchange
    rcases (Scope.mem_plan_iff hr.planned).mp hmem with ⟨p, hp, part, hpart, hindex⟩ |
      ⟨p, -, a, -, association, part, hplan, hindex⟩
    · obtain ⟨c, hc, hd⟩ := Scope.exists_mem_describes hr.planned hp
      obtain ⟨-, hname, hcases⟩ := (Scope.index_mem_tableChanges_iff hpart).mp hindex
      rw [← hd.table] at hname
      rcases hcases with ⟨f, hf, hindexed, rfl⟩ | ⟨tag, htag, hread⟩
      · exact .field hc hname htable (hd.fields ▸ hf) hindexed
      · obtain ⟨htag, hkind⟩ := ClassDecl.mem_tagsNamed_iff.mp htag
        obtain ⟨names, fields, hdeclares, hfields, hcolumns⟩ := declared_of_index hd hkind hread
        have hdecl : p.decl ∈ decls := hr.decls_eq ▸ hr.built.mem_classes hp
        have hindexes := Indexes.tag hc hname htable hdecl hd.name.symm htag hdeclares hfields
        rwa [← hcolumns] at hindexes
    · exact absurd hindex (Scope.index_notMem_of_association hplan)
  · intro hasked
    cases hasked with
    | @field c f name hc hname htable hf hindexed =>
      obtain ⟨p, hd⟩ := Scope.exists_describes_of_mem hr.planned hc
      obtain ⟨part, hpart, hchanges⟩ := hr.exists_tableChanges hd.mem
      have hindex : .index name ⟨name ++ "_" ++ f.column ++ "_IDX", false, [f.column]⟩
          p.decl.name ∈ part :=
        (Scope.index_mem_tableChanges_iff hpart).mpr
          ⟨rfl, hd.table ▸ hname, Or.inl ⟨f, hd.fields ▸ hf, hindexed, rfl⟩⟩
      exact ⟨name, p.decl.name, hchanges _ hindex, htable⟩
    | @tag c decl tag index name names unique fields hc hname htable hdecl hsame htag hdeclares
        hfields =>
      obtain ⟨p, hd⟩ := Scope.exists_describes_of_mem hr.planned hc
      obtain ⟨part, hpart, hchanges⟩ := hr.exists_tableChanges hd.mem
      obtain rfl := hr.decl_eq_of_name hd hdecl hsame
      rw [hd.table] at hname
      have hnamed := ClassDecl.mem_tagsNamed_iff.mpr ⟨htag, hdeclares.kind⟩
      obtain ⟨⟨_, _, columns⟩, hread⟩ := Scope.exists_index hpart hname hnamed
      obtain ⟨_, fields', hdeclares', hfields', hcolumns⟩ :=
        declared_of_index hd hdeclares.kind hread
      obtain ⟨rfl, rfl, rfl⟩ := hdeclares.eq hdeclares'
      obtain rfl := keys_unique hfields hfields'
      obtain rfl : columns = fields.map (·.column) := hcolumns
      exact ⟨name, p.decl.name, hchanges _ ((Scope.index_mem_tableChanges_iff hpart).mpr
        ⟨rfl, hname, Or.inr ⟨tag, hnamed, hread⟩⟩), htable⟩

theorem mem_indices_iff (hr : r.ResolvedIn decls checks h s changes) (ht : t ∈ r.schema.tables) :
    index ∈ t.indices ↔ r.Indexes decls t.name index := by
  rw [(SchemaChange.kept_indexed.of_applyAll hr.applied t ht).mem_iff,
    SchemaChange.mem_indicesOf_iff, hr.mem_changes_iff_indexes]

/-- The columns of an index are columns of fields that are stored in the same table. -/
theorem exists_column?_of_indexes (hr : r.ResolvedIn decls checks h s changes)
    (ht : t ∈ r.schema.tables) (hindexes : r.Indexes decls t.name index) {name : String}
    (hname : name ∈ index.columns) : ∃ column, t.column? name = some column := by
  cases hindexes with
  | field hc htable hsame hf hindexed =>
    obtain rfl := List.mem_singleton.mp hname
    obtain ⟨column, hcolumn, -⟩ := hr.exactSchema.exists_column? hc htable ht hsame hf
    exact ⟨column, hcolumn⟩
  | tag hc htable hsame hdecl hdeclName htag hdeclares hfields =>
    obtain ⟨f, hf, rfl⟩ := List.mem_map.mp hname
    obtain ⟨column, hcolumn, -⟩ := hr.exactSchema.exists_column? hc htable ht hsame
      (mem_fields_of_map_field? hfields f hf)
    exact ⟨column, hcolumn⟩

theorem indexesClass (hr : r.ResolvedIn decls checks h s changes) (hc : c ∈ r.classes) :
    r.IndexesClass decls c := by
  intro name hname
  obtain ⟨t, ht, htable, -⟩ := hr.exactSchema.exists_class_table hc hname
  refine ⟨t, ht, htable, fun f hf hindexed ↦ ?_, fun decl hdecl hsame tag htag hkind ↦ ?_⟩
  · exact ⟨_, (hr.mem_indices_iff ht).mpr (.field hc hname htable hf hindexed), rfl, rfl⟩
  · obtain ⟨p, hd⟩ := Scope.exists_describes_of_mem hr.planned hc
    obtain ⟨part, hpart, -⟩ := hr.exists_tableChanges hd.mem
    have hnamed : tag ∈ p.decl.tagsNamed TagName.index := by
      rw [← hr.decl_eq_of_name hd hdecl hsame]
      exact ClassDecl.mem_tagsNamed_iff.mpr ⟨htag, hkind⟩
    obtain ⟨index, hread⟩ := Scope.exists_index hpart (hd.table ▸ hname) hnamed
    obtain ⟨names, fields, hdeclares, hfields, -⟩ := declared_of_index hd hkind hread
    have hthere := (hr.mem_indices_iff ht).mpr
      (.tag hc hname htable hdecl hsame htag hdeclares hfields)
    exact ⟨index.name, names, index.unique, fields, hdeclares, hfields, _, hthere,
      Text.sameName_self _, rfl, rfl⟩

end ResolvedIn

end Repository

/-- No index that a class asks for is lost or changed, whatever other classes ask for in the same
table, and none is made up: every table has exactly the indices that are asked for in it, each under
a name of its own and over columns of the table. -/
theorem indices_kept {decls : List ClassDecl} {checks : ChecksMode} {databaseName : String}
    {r : Repository} (hr : resolveDeclarations decls checks databaseName = .ok r) :
    r.KeepsIndices decls := by
  obtain ⟨h, s, changes, hresolved⟩ := exists_resolvedIn hr
  constructor
  case classes => exact fun c hc ↦ hresolved.indexesClass hc
  case mem_iff => exact fun t ht i ↦ hresolved.mem_indices_iff ht
  case nodup =>
    exact fun t ht ↦ (SchemaChange.kept_indexed.of_applyAll hresolved.applied t ht).nodup
  case columns =>
    exact fun t ht i hi name hname ↦
      hresolved.exists_column?_of_indexes ht ((hresolved.mem_indices_iff ht).mp hi) hname

/-- Two classes share a table and an index of it, which the second one declares again. -/
def moorings : List ClassDecl :=
  [{ name := "Mooring"
     tags := [⟨"ojb.class", [("table", "MOORING")]⟩,
       ⟨"ojb.index", [("name", "BY_PLACE"), ("fields", "pier, id"), ("unique", "true")]⟩]
     members := [⟨"id", "int", [⟨"ojb.field", [("primarykey", "true")]⟩]⟩,
       ⟨"pier", "java.lang.String",
         [⟨"ojb.field", [("column", "PIER_NO"), ("indexed", "true")]⟩]⟩] },
   { name := "Buoy", superclass := some "Mooring"
     tags := [⟨"ojb.class", [("table", "MOORING")]⟩,
       ⟨"ojb.index", [("name", "BY_PLACE"), ("fields", "pier,id"), ("unique", "true")]⟩,
       ⟨"ojb.index", [("name", "by_light"), ("fields", "light")]⟩]
     members := [⟨"light", "boolean", [⟨"ojb.field", [("indexed", "true")]⟩]⟩] }]

/-- The indices of the one table that the moorings have. -/
def mooringIndices : List Index :=
  [⟨"MOORING_PIER_NO_IDX", false, ["PIER_NO"]⟩, ⟨"BY_PLACE", true, ["PIER_NO", "id"]⟩,
    ⟨"MOORING_light_IDX", false, ["light"]⟩, ⟨"by_light", false, ["light"]⟩]

theorem indices_kept_moorings :
    ∃ r, resolveDeclarations moorings .strict "harbour" = .ok r ∧
      r.schema.tables.map (·.indices) = [mooringIndices] ∧ r.KeepsIndices moorings := by
  have htables : ((resolveDeclarations moorings .strict "harbour").map fun r ↦
      r.schema.tables.map (·.indices)) = .ok [mooringIndices] := by
    decide +kernel
  obtain ⟨r, hr, hindices⟩ := exists_eq_ok_of_map htables
  exact ⟨r, hr, hindices, indices_kept hr⟩

end ClassMap
