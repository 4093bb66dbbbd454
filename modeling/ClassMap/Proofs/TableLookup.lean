import ClassMap.Proofs.Columns
import ClassMap.Proofs.Text.Lower

/-!
Classes and the tables they are stored in. A schema is built with one table for all names that have
the same small form, and the table keeps the name that came first; it is looked up without regard
to the case of `A` to `Z` only. So a class finds its table, with a column of the right type for each
of its fields, as long as classes that share a table spell its other letters alike
(`tables_found_iff`). Join tables do not matter here: they come after the tables of all classes, so
a name that a class gives to a table is never kept out by them.
-/

set_option autoImplicit false
set_option relaxedAutoImplicit false

namespace ClassMap

open Traversal

variable {names more : List String} {name : String}

/-- What is first in a part of the names stays so when more names follow. -/
theorem mem_firstNames_append (h : name ∈ firstNames names) :
    name ∈ firstNames (names ++ more) := by
  induction more using List.reverseRecOn with
  | nil => rwa [List.append_nil]
  | append_singleton rest last ih =>
    rw [← List.append_assoc, firstNames_append_singleton, appendName]
    split
    · exact ih
    · exact List.mem_append_left _ ih

/-- What is found under a name has the name, but for the case of its Latin letters. -/
theorem Schema.table?_eq_some {s : Schema} {t : Table} (h : s.table? name = some t) :
    t ∈ s.tables ∧ Text.sameName t.name name = true :=
  ⟨List.mem_of_find?_eq_some h, Text.sameName_iff.mpr (by simpa using List.find?_some h)⟩

theorem Schema.exists_table? {s : Schema} {t : Table} (ht : t ∈ s.tables)
    (hname : Text.sameName t.name name = true) : ∃ found, s.table? name = some found := by
  refine Option.isSome_iff_exists.mp (List.find?_isSome.mpr ⟨t, ht, ?_⟩)
  simpa using Text.sameName_iff.mp hname

theorem Table.exists_column? {t : Table} {c : Column} (hc : c ∈ t.columns)
    (hname : Text.sameName c.name name = true) : ∃ found, t.column? name = some found := by
  refine Option.isSome_iff_exists.mp (List.find?_isSome.mpr ⟨c, hc, ?_⟩)
  simpa using Text.sameName_iff.mp hname

namespace Repository

/-- The table of a class is found under the name the class has for it, and there each field of the
class is found under the name of its column, with the type of the field. -/
def FindsTable (r : Repository) (c : ClassDescriptor) : Prop :=
  ∀ name, c.table = some name → ∃ t, r.schema.table? name = some t ∧
    ∀ f ∈ c.fields, ∃ column, t.column? f.column = some column ∧ column.jdbcType = f.jdbcType

/-- Classes whose tables have the same small form spell them alike, but for the case of their Latin
letters. -/
def SpellsTablesAlike (r : Repository) : Prop :=
  ∀ c ∈ r.classes, ∀ d ∈ r.classes, ∀ name other, c.table = some name → d.table = some other →
    sameTable name other = true → Text.sameName name other = true

variable {r : Repository} {members : MemberTable} {c : ClassDescriptor}

namespace ExactSchema

/-- The name of a table that a class is stored in comes from a class. -/
theorem exists_class_table (hr : r.ExactSchema members) (hc : c ∈ r.classes)
    (hname : c.table = some name) : ∃ t ∈ r.schema.tables, sameTable name t.name = true ∧
      ∃ d ∈ r.classes, d.table = some t.name := by
  have hasked : name ∈ r.classes.filterMap (·.table) := List.mem_filterMap.mpr ⟨c, hc, hname⟩
  obtain ⟨first, hfirst, hsame⟩ := exists_mem_firstNames hasked
  have hthere : first ∈ r.schema.tables.map (·.name) := by
    rw [hr.tables, tableNames]
    exact mem_firstNames_append hfirst
  obtain ⟨t, ht, rfl⟩ := List.mem_map.mp hthere
  obtain ⟨d, hd, htable⟩ := List.mem_filterMap.mp (mem_of_mem_firstNames hfirst)
  exact ⟨t, ht, hsame, d, hd, htable⟩

/-- Tables of one small form are one table. -/
theorem table_unique (hr : r.ExactSchema members) {t u : Table} (ht : t ∈ r.schema.tables)
    (hu : u ∈ r.schema.tables) (hname : sameTable t.name u.name = true) : t = u :=
  List.inj_on_of_nodup_map hr.nodup_tables ht hu (sameTable_iff.mp hname)

/-- A field of a class has a column of its type in every table filed under the name that the class
has for its own. -/
theorem exists_column? (hr : r.ExactSchema members) (hc : c ∈ r.classes)
    (hname : c.table = some name) {t : Table} (ht : t ∈ r.schema.tables)
    (htable : sameTable name t.name = true) {f : FieldDescriptor} (hf : f ∈ c.fields) :
    ∃ column, t.column? f.column = some column ∧ column.jdbcType = f.jdbcType := by
  have hlists : r.Lists t.name f.column :=
    Or.inl ⟨c, hc, name, hname, htable, f, hf, Text.sameName_iff.mpr rfl⟩
  obtain ⟨column, hcolumn, hsame⟩ := (hr.columns t ht f.column).mpr hlists
  obtain ⟨found, hfound⟩ := Table.exists_column? hcolumn hsame
  obtain ⟨hmem, hspelling⟩ := Table.column?_eq_some hfound
  have htype := hr.types t ht found hmem f.toColumn (.of_field hc hname htable hf)
    (Text.sameName_symm hspelling)
  exact ⟨found, hfound, htype.1.symm⟩

theorem findsTable (hr : r.ExactSchema members) (halike : r.SpellsTablesAlike)
    (hc : c ∈ r.classes) : r.FindsTable c := by
  intro name hname
  obtain ⟨t, ht, hsame, d, hd, htable⟩ := hr.exists_class_table hc hname
  have hspelling := halike c hc d hd name t.name hname htable hsame
  obtain ⟨found, hfound⟩ := Schema.exists_table? ht (Text.sameName_symm hspelling)
  obtain ⟨hmem, hfoundName⟩ := Schema.table?_eq_some hfound
  have hfiled : sameTable name found.name = true :=
    sameTable_iff.mpr (Text.lower_eq_of_sameName (Text.sameName_symm hfoundName))
  exact ⟨found, hfound, fun f hf ↦ hr.exists_column? hc hname hmem hfiled hf⟩

/-- Two classes of one table can both find it only if they spell its name alike: there is no second
table for either of them. -/
theorem spellsTablesAlike (hr : r.ExactSchema members)
    (hfinds : ∀ c ∈ r.classes, r.FindsTable c) : r.SpellsTablesAlike := by
  intro c hc d hd name other hname hother hsame
  obtain ⟨t, ht, -⟩ := hfinds c hc name hname
  obtain ⟨u, hu, -⟩ := hfinds d hd other hother
  obtain ⟨htmem, htname⟩ := Schema.table?_eq_some ht
  obtain ⟨humem, huname⟩ := Schema.table?_eq_some hu
  have hone : sameTable t.name u.name = true := by
    rw [sameTable_iff, Text.lower_eq_of_sameName htname, Text.lower_eq_of_sameName huname]
    exact sameTable_iff.mp hsame
  obtain rfl := hr.table_unique htmem humem hone
  exact Text.sameName_trans (Text.sameName_symm htname) huname

end ExactSchema

end Repository

/-- Every class of a resolved repository finds its table, and a column of its type for each of its
fields there, exactly when classes that are stored in one table spell its name alike but for the
case of the letters `A` to `Z`. -/
theorem tables_found_iff {decls : List ClassDecl} {checks : ChecksMode} {databaseName : String}
    {r : Repository} (hr : resolveDeclarations decls checks databaseName = .ok r) :
    (∀ c ∈ r.classes, r.FindsTable c) ↔ r.SpellsTablesAlike := by
  obtain ⟨h, s, changes, hresolved⟩ := exists_resolvedIn hr
  have hexact := hresolved.exactSchema
  exact ⟨hexact.spellsTablesAlike, fun halike c hc ↦ hexact.findsTable halike hc⟩

/-- The table of one class is spelled in capital letters by the other. -/
theorem tables_found_iff_campus :
    ∃ r, resolveDeclarations campus .strict "campus" = .ok r ∧
      ((∀ c ∈ r.classes, r.FindsTable c) ↔ r.SpellsTablesAlike) := by
  have hok : (resolveDeclarations campus .strict "campus").toBool = true := by decide +kernel
  obtain ⟨r, hr⟩ := exists_eq_ok_of_toBool hok
  exact ⟨r, hr, tables_found_iff hr⟩

/-- Two classes that share a table whose name is one letter with an accent. -/
def accented : List ClassDecl :=
  [{ name := "River"
     tags := [⟨"ojb.class", [("table", "Ä")]⟩]
     members := [⟨"id", "int", [⟨"ojb.field", [("primarykey", "true")]⟩]⟩] },
   { name := "Brook"
     tags := [⟨"ojb.class", [("table", "ä")]⟩]
     members := [⟨"id", "int", [⟨"ojb.field", [("primarykey", "true")]⟩]⟩] }]

/-- The table that the second class was merged into cannot be looked up under its name. -/
theorem not_findsTable_accented :
    ∃ r, resolveDeclarations accented .strict "default" = .ok r ∧
      ∃ c ∈ r.classes, c.table = some "ä" ∧ ¬ r.FindsTable c := by
  have hlost : (do
      let r ← resolveDeclarations accented .strict "default"
      return r.classes.any (fun c ↦ c.table == some "ä") && (r.schema.table? "ä").isNone) =
        .ok true := by
    decide +kernel
  obtain ⟨r, hr, hpure⟩ := bind_eq_ok_iff.mp hlost
  obtain ⟨hclass, hnone⟩ := Bool.and_eq_true_iff.mp (pure_eq_ok_iff.mp hpure)
  obtain ⟨c, hc, htable⟩ := List.any_eq_true.mp hclass
  refine ⟨r, hr, c, hc, eq_of_beq htable, fun hfinds ↦ ?_⟩
  obtain ⟨t, ht, -⟩ := hfinds "ä" (eq_of_beq htable)
  rw [ht] at hnone
  exact Bool.noConfusion hnone

end ClassMap
