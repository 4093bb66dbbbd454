import ClassMap.Proofs.Columns
import ClassMap.Proofs.Constraints
import ClassMap.Proofs.Entries

/-!
Keys of associations. Whatever way an association has come to a class, its keys stand one by one
across from the primary key they lead to, in the order of the effective fields: fields of the same
type where fields lead there, columns of the same type and size where a join table does
(`keys_paired`).
-/

set_option autoImplicit false
set_option relaxedAutoImplicit false

namespace ClassMap

open Traversal

/-- Names of fields of a class, as many as there are primary keys, each of the type of the primary
key it stands across from. -/
def ClassDescriptor.KeyedBy (c : ClassDescriptor) (names : List String)
    (primaryKeys : List FieldDescriptor) : Prop :=
  List.Forall₂ (fun name primaryKey ↦ ∃ f, c.field? name = some f ∧
    f.jdbcType = primaryKey.jdbcType) names primaryKeys

/-- Names of columns of a table, as many as there are primary keys, each of the type and size of
the primary key it stands across from. -/
def Table.KeyedBy (t : Table) (names : List String) (primaryKeys : List FieldDescriptor) : Prop :=
  List.Forall₂ (fun name primaryKey ↦ ∃ column, t.column? name = some column ∧
    column.jdbcType = primaryKey.jdbcType ∧ column.size = primaryKey.columnSize) names primaryKeys

/-- Every association of a class is keyed by the primary key of the class it leads to, or of the
class itself. -/
structure ClassDescriptor.Keyed (c : ClassDescriptor) (r : Repository) : Prop where
  references : ∀ d ∈ c.references, ∃ target ∈ r.classes, target.name = d.classRef ∧
    d.foreignKeys ≠ [] ∧ c.KeyedBy d.foreignKeys target.primaryKeys
  collections : ∀ d ∈ c.collections, ∃ element ∈ r.classes, element.name = d.elementClassRef ∧
    (d.indirectionTable = none → element.KeyedBy d.foreignKeys c.primaryKeys) ∧
    ∀ joinTable, d.indirectionTable = some joinTable →
      ∃ t ∈ r.schema.tables, sameTable joinTable t.name = true ∧
        t.KeyedBy d.foreignKeys c.primaryKeys ∧
        t.KeyedBy d.remoteForeignKeys element.primaryKeys

variable {c element target : ClassDescriptor} {names : List String}
  {keys primaryKeys : List FieldDescriptor}

/-- Fields that match a primary key are keys under the names they are found by. -/
theorem keyedBy_of_keysMatch (hmatch : KeysMatch keys primaryKeys)
    (hnames : names.map c.field? = keys.map some) : c.KeyedBy names primaryKeys := by
  induction hmatch generalizing names with
  | nil =>
    rw [List.map_eq_nil_iff.mp hnames]
    exact List.Forall₂.nil
  | @cons key primaryKey keys primaryKeys htype _ ih =>
    cases names with
    | nil => exact absurd hnames (by simp)
    | cons name names =>
      obtain ⟨hname, hrest⟩ := List.cons.inj hnames
      exact List.Forall₂.cons ⟨key, hname, htype⟩ (ih hrest)

namespace Repository.ResolvedIn

variable {r : Repository} {decls : List ClassDecl} {checks : ChecksMode} {h : Hierarchy}
  {s : Scope} {changes : List SchemaChange} {t : Table} {a : Column}

/-- A column that is asked for in a table is found there under its name, with its type and size. -/
theorem column?_of_contributes (hr : r.ResolvedIn decls checks h s changes)
    (ht : t ∈ r.schema.tables) (ha : r.Contributes s.members t.name a) :
    ∃ column, t.column? a.name = some column ∧ column.jdbcType = a.jdbcType ∧
      column.size = a.size := by
  have hexact := hr.exactSchema
  obtain ⟨column, hcolumn, hname, -⟩ := hr.exists_column ht ha
  have hfound : t.column? a.name = some column :=
    (find?_eq_some_iff_of_nodup (hexact.nodup_columns t ht)).mpr
      ⟨hcolumn, Text.sameName_iff.mp hname⟩
  obtain ⟨htype, hsize⟩ := hexact.types t ht column hcolumn a ha (Text.sameName_symm hname)
  exact ⟨column, hfound, htype.symm, hsize.symm⟩

/-- Keys that are all asked for as columns of a table are keys of the table. -/
theorem keyedBy_of_contributes (hr : r.ResolvedIn decls checks h s changes)
    (ht : t ∈ r.schema.tables) {isKey : Bool} (hlength : names.length = primaryKeys.length)
    (hcolumns : ∀ pair ∈ names.zip primaryKeys,
      r.Contributes s.members t.name (pair.2.joinColumn pair.1 isKey)) :
    t.KeyedBy names primaryKeys := by
  refine List.forall₂_iff_zip.mpr ⟨hlength, fun {name primaryKey} hpair ↦ ?_⟩
  exact hr.column?_of_contributes ht (hcolumns (name, primaryKey) hpair)

/-- The join table of a collection is there and has the keys of both sides. -/
theorem exists_joinTable (hr : r.ResolvedIn decls checks h s changes) (hc : c ∈ r.classes)
    {d : CollectionDescriptor} (hd : d ∈ c.collections) (helement : element ∈ r.classes)
    (href : element.name = d.elementClassRef) {joinTable : String}
    (hjoin : d.indirectionTable = some joinTable) :
    ∃ t ∈ r.schema.tables, sameTable joinTable t.name = true ∧
      t.KeyedBy d.foreignKeys c.primaryKeys ∧
      t.KeyedBy d.remoteForeignKeys element.primaryKeys := by
  obtain ⟨p, q, a, part, options, found, hfound, hp, hq, href', ha, hplan, hresolved⟩ :=
    hr.exists_resolvedCollection hc hd
  obtain rfl := hr.eq_of_name_eq hfound helement (href'.trans href.symm)
  have htable : ∃ change ∈ part, change.tableName = joinTable := by
    rcases hresolved.keys_cases with ⟨hnone, -⟩ | ⟨table, htable, hkeys⟩
    · rw [hnone] at hjoin
      exact absurd hjoin (by simp)
    · obtain rfl : table = joinTable := Option.some.inj (htable.symm.trans hjoin)
      obtain ⟨-, -, constraints, rfl, -⟩ := Scope.joinKeys_eq_ok hkeys
      exact ⟨_, List.mem_append_left _ List.mem_cons_self, rfl⟩
  obtain ⟨change, hchange, rfl⟩ := htable
  have hasked : change ∈ changes :=
    (Scope.mem_plan_iff hr.planned).mpr (Or.inr ⟨p, hp.mem, a, ha, _, part, hplan, hchange⟩)
  obtain ⟨t, ht, hname⟩ := hr.exists_table hasked
  have hmem : (a, .collection d) ∈ c.resolved s.members := by
    rw [resolved_eq hp, hp.mem_zip_associations_iff]
    exact ⟨ha, part, hplan⟩
  have hcontributes : ∀ pair ∈ d.joinPairs c found, r.Contributes s.members t.name
      (pair.2.joinColumn pair.1 options.indirectionTablePrimaryKeys) :=
    fun pair hpair ↦
      .of_joinPair hc hmem hjoin hname (hp.name ▸ hresolved.parsed) hfound href' hpair
  obtain ⟨hown, hremote⟩ := hresolved.length_eq hjoin
  rw [← primaryKeys_eq hp] at hown
  rw [← primaryKeys_eq hq] at hremote
  have howner : t.KeyedBy d.foreignKeys c.primaryKeys :=
    hr.keyedBy_of_contributes ht hown fun pair hpair ↦
      hcontributes pair (List.mem_append_left _ hpair)
  have hother : t.KeyedBy d.remoteForeignKeys found.primaryKeys :=
    hr.keyedBy_of_contributes ht hremote fun pair hpair ↦
      hcontributes pair (List.mem_append_right _ hpair)
  exact ⟨t, ht, hname, howner, hother⟩

theorem keyed (hr : r.ResolvedIn decls checks h s changes) (hc : c ∈ r.classes) : c.Keyed r := by
  constructor
  case references =>
    intro d hd
    obtain ⟨p, hp⟩ := Scope.exists_describes_of_mem hr.planned hc
    obtain ⟨a, -, part, -, hplan⟩ := hp.exists_of_mem_references hd
    obtain ⟨decl, keys, hresolved⟩ := Scope.resolveReference_eq_ok hplan
    obtain ⟨q, target, htarget, hq, rfl, hname⟩ :=
      hr.exists_describes hresolved.declared hresolved.persistent
    have hkeys : d.foreignKeys.map c.field? = keys.map some :=
      Scope.map_field?_of_mapM hp hresolved.trimmed hresolved.keys_eq
    have hmatch : KeysMatch keys target.primaryKeys := primaryKeys_eq hq ▸ hresolved.keysMatch
    exact ⟨target, htarget, hname, hresolved.nonempty, keyedBy_of_keysMatch hmatch hkeys⟩
  case collections =>
    intro d hd
    obtain ⟨p, q, a, part, options, element, helement, hp, hq, href, -, -, hresolved⟩ :=
      hr.exists_resolvedCollection hc hd
    refine ⟨element, helement, href, fun hdirect ↦ ?_, fun joinTable hjoin ↦ ?_⟩
    · obtain ⟨keys, -, hmatch, hkeys⟩ := exists_keys hq hresolved hdirect
      rw [← primaryKeys_eq hp] at hmatch
      exact keyedBy_of_keysMatch hmatch hkeys
    · exact hr.exists_joinTable hc hd helement href hjoin

end Repository.ResolvedIn

end ClassMap
