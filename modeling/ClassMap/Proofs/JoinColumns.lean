import ClassMap.Proofs.Keys
import ClassMap.Proofs.Resolution.JoinTable

/-!
The columns of join tables. No column of a join table leads to both sides of a collection. But a
column that one side names twice is checked no further than any column two classes share, so keys
of one type are merged in it; a collection keeps all its keys apart exactly when neither of its two
lists repeats a name (`keys_apart_iff`).
-/

set_option autoImplicit false
set_option relaxedAutoImplicit false

namespace ClassMap

open Traversal

/-- No two of the names are the same, in any case of letters. -/
def DistinctNames (names : List String) : Prop :=
  names.Pairwise fun a b ↦ Text.sameName a b = false

/-- The columns of a join table that the keys of a collection are found as, one for each primary
key of the owner and then of the elements. -/
structure Table.HoldsKeys (t : Table) (d : CollectionDescriptor) (c element : ClassDescriptor)
    (columns : List Column) : Prop where
  found : (d.foreignKeys ++ d.remoteForeignKeys).map t.column? = columns.map some
  types : List.Forall₂ (fun column primaryKey ↦ column.jdbcType = primaryKey.jdbcType ∧
    column.size = primaryKey.columnSize) columns (c.primaryKeys ++ element.primaryKeys)

/-- A collection over a join table names every key differently, so that the table has one column
for each primary key of either side. -/
structure Repository.KeepsKeysApart (r : Repository) (c : ClassDescriptor)
    (d : CollectionDescriptor) : Prop where
  names : DistinctNames (d.foreignKeys ++ d.remoteForeignKeys)
  columns : ∃ element ∈ r.classes, element.name = d.elementClassRef ∧
    ∃ t ∈ r.schema.tables, (∃ joinTable, d.indirectionTable = some joinTable ∧
      sameTable joinTable t.name = true) ∧
      ∃ columns, t.HoldsKeys d c element columns ∧ columns.Nodup

variable {names others : List String} {primaryKeys : List FieldDescriptor} {t : Table}
  {columns : List Column}

theorem distinctNames_append_iff :
    DistinctNames (names ++ others) ↔ DistinctNames names ∧ DistinctNames others ∧
      ∀ name ∈ names, ∀ other ∈ others, Text.sameName name other = false :=
  List.pairwise_append

theorem Table.KeyedBy.exists_columns (h : t.KeyedBy names primaryKeys) :
    ∃ columns : List Column, names.map t.column? = columns.map some ∧
      List.Forall₂ (fun column primaryKey ↦ column.jdbcType = primaryKey.jdbcType ∧
        column.size = primaryKey.columnSize) columns primaryKeys := by
  induction h with
  | nil => exact ⟨[], rfl, .nil⟩
  | cons hcolumn _ ih =>
    obtain ⟨column, hfound, htype⟩ := hcolumn
    obtain ⟨columns, hcolumns, htypes⟩ := ih
    refine ⟨column :: columns, ?_, .cons htype htypes⟩
    rw [List.map_cons, List.map_cons, hfound, hcolumns]

theorem map_foldLatin_columns (hfound : names.map t.column? = columns.map some) :
    columns.map (fun column ↦ Text.foldLatin column.name) = names.map Text.foldLatin := by
  induction names generalizing columns with
  | nil => simpa using hfound
  | cons name names ih =>
    cases columns with
    | nil => simp at hfound
    | cons column columns =>
      obtain ⟨hcolumn, hrest⟩ := List.cons.inj hfound
      have hname := Text.sameName_iff.mp (Table.column?_eq_some hcolumn).2
      rw [List.map_cons, List.map_cons, hname, ih hrest]

/-- Columns found under different names are different. -/
theorem nodup_columns (hfound : names.map t.column? = columns.map some)
    (hnames : DistinctNames names) : columns.Nodup := by
  have hnodup : (names.map Text.foldLatin).Nodup := by
    refine List.pairwise_map.mpr (hnames.imp fun {a b} hdistinct ↦ ?_)
    rw [Ne, ← Text.sameName_iff, hdistinct]
    exact Bool.false_ne_true
  rw [← map_foldLatin_columns hfound] at hnodup
  exact hnodup.of_map _

namespace Repository.ResolvedIn

variable {r : Repository} {decls : List ClassDecl} {checks : ChecksMode} {h : Hierarchy}
  {s : Scope} {changes : List SchemaChange} {c : ClassDescriptor} {d : CollectionDescriptor}
  {joinTable : String}

/-- No column leads to both sides. -/
theorem sameName_eq_false (hr : r.ResolvedIn decls checks h s changes) (hc : c ∈ r.classes)
    (hd : d ∈ c.collections) (hjoin : d.indirectionTable = some joinTable) :
    ∀ key ∈ d.foreignKeys, ∀ other ∈ d.remoteForeignKeys, Text.sameName key other = false := by
  obtain ⟨p, q, a, part, options, element, helement, hp, hq, href, ha, hplan, hresolved⟩ :=
    hr.exists_resolvedCollection hc hd
  rcases hresolved.keys_cases with ⟨hnone, -⟩ | ⟨table, -, hkeys⟩
  · exact absurd (hjoin.symm.trans hnone) (by simp)
  · obtain ⟨_, -, -, hdisjoint⟩ := Scope.joinKeys_checked hkeys
    rw [hresolved.foreignKeys_eq]
    exact hdisjoint

theorem keepsKeysApart_iff (hr : r.ResolvedIn decls checks h s changes) (hc : c ∈ r.classes)
    (hd : d ∈ c.collections) (hjoin : d.indirectionTable = some joinTable) :
    r.KeepsKeysApart c d ↔ DistinctNames d.foreignKeys ∧ DistinctNames d.remoteForeignKeys := by
  constructor
  · intro hapart
    obtain ⟨hown, hremote, -⟩ := distinctNames_append_iff.mp hapart.names
    exact ⟨hown, hremote⟩
  · rintro ⟨hown, hremote⟩
    have hnames : DistinctNames (d.foreignKeys ++ d.remoteForeignKeys) :=
      distinctNames_append_iff.mpr ⟨hown, hremote, hr.sameName_eq_false hc hd hjoin⟩
    obtain ⟨_, _, _, _, _, element, helement, -, -, href, -, -, -⟩ :=
      hr.exists_resolvedCollection hc hd
    obtain ⟨t, ht, hname, howner, hother⟩ := hr.exists_joinTable hc hd helement href hjoin
    have hkeyed : t.KeyedBy (d.foreignKeys ++ d.remoteForeignKeys)
        (c.primaryKeys ++ element.primaryKeys) := List.rel_append howner hother
    obtain ⟨columns, hfound, htypes⟩ := hkeyed.exists_columns
    exact ⟨hnames, element, helement, href, t, ht, ⟨joinTable, hjoin, hname⟩, columns,
      ⟨hfound, htypes⟩, nodup_columns hfound hnames⟩

end Repository.ResolvedIn

/-- A column never leads to both sides of a collection, and all of its keys are kept apart exactly
when neither side repeats a column. -/
theorem keys_apart_iff {decls : List ClassDecl} {checks : ChecksMode} {databaseName : String}
    {r : Repository} (hr : resolveDeclarations decls checks databaseName = .ok r) :
    ∀ c ∈ r.classes, ∀ d ∈ c.collections, d.isManyToMany = true →
      (∀ key ∈ d.foreignKeys, ∀ other ∈ d.remoteForeignKeys, Text.sameName key other = false) ∧
      (r.KeepsKeysApart c d ↔
        DistinctNames d.foreignKeys ∧ DistinctNames d.remoteForeignKeys) := by
  obtain ⟨h, s, changes, hresolved⟩ := exists_resolvedIn hr
  intro c hc d hd hmany
  obtain ⟨joinTable, hjoin⟩ := Option.isSome_iff_exists.mp hmany
  exact ⟨hresolved.sameName_eq_false hc hd hjoin, hresolved.keepsKeysApart_iff hc hd hjoin⟩

/-- A route is found by its day and its line, and both are written to one column of the stops. -/
def timetable : List ClassDecl :=
  [{ name := "Route"
     tags := [⟨"ojb.class", []⟩]
     members := [⟨"day", "int", [⟨"ojb.field", [("primarykey", "true")]⟩]⟩,
       ⟨"line", "int", [⟨"ojb.field", [("primarykey", "true")]⟩]⟩,
       ⟨"stops", "Stop[]", [⟨"ojb.collection", [("indirection-table", "ROUTE_STOP"),
         ("foreignkey", "ROUTE,ROUTE"), ("remote-foreignkey", "STOP")]⟩]⟩] },
   { name := "Stop"
     tags := [⟨"ojb.class", []⟩]
     members := [⟨"id", "int", [⟨"ojb.field", [("primarykey", "true")]⟩]⟩] }]

theorem keys_apart_iff_timetable :
    ∃ r, resolveDeclarations timetable .strict "transit" = .ok r ∧
      ∃ c ∈ r.classes, ∃ d ∈ c.collections, d.isManyToMany = true ∧
        (∀ key ∈ d.foreignKeys, ∀ other ∈ d.remoteForeignKeys, Text.sameName key other = false) ∧
        (r.KeepsKeysApart c d ↔
          DistinctNames d.foreignKeys ∧ DistinctNames d.remoteForeignKeys) := by
  have hmany : (do
      let r ← resolveDeclarations timetable .strict "transit"
      return r.classes.any fun c ↦ c.collections.any (·.isManyToMany)) = .ok true := by
    decide +kernel
  obtain ⟨r, hr, hpure⟩ := bind_eq_ok_iff.mp hmany
  obtain ⟨c, hc, hcollections⟩ := List.any_eq_true.mp (pure_eq_ok_iff.mp hpure)
  obtain ⟨d, hd, hjoined⟩ := List.any_eq_true.mp hcollections
  exact ⟨r, hr, c, hc, d, hd, hjoined, keys_apart_iff hr c hc d hd hjoined⟩

/-- The join table has one column for the two keys of a route. -/
theorem not_keys_apart_timetable :
    ∃ r, resolveDeclarations timetable .strict "transit" = .ok r ∧
      ∃ c ∈ r.classes, ∃ d ∈ c.collections, d.isManyToMany = true ∧ ¬ r.KeepsKeysApart c d := by
  have hrepeated : (do
      let r ← resolveDeclarations timetable .strict "transit"
      return r.classes.any fun c ↦ c.collections.any fun d ↦
        d.isManyToMany && d.foreignKeys == ["ROUTE", "ROUTE"]) = .ok true := by
    decide +kernel
  obtain ⟨r, hr, hpure⟩ := bind_eq_ok_iff.mp hrepeated
  obtain ⟨c, hc, hcollections⟩ := List.any_eq_true.mp (pure_eq_ok_iff.mp hpure)
  obtain ⟨d, hd, hboth⟩ := List.any_eq_true.mp hcollections
  obtain ⟨hmany, hkeys⟩ := Bool.and_eq_true_iff.mp hboth
  refine ⟨r, hr, c, hc, d, hd, hmany, fun hapart ↦ ?_⟩
  have hown : DistinctNames d.foreignKeys := (distinctNames_append_iff.mp hapart.names).1
  rw [beq_iff_eq.mp hkeys] at hown
  simp [DistinctNames] at hown

end ClassMap
