import ClassMap.Proofs.Options
import ClassMap.Proofs.Resolution.TableOrder
import ClassMap.Proofs.Schema.Run

/-!
No column of a resolved schema is lost and none is invented. The tables are those the classes and
the collections ask for, in the order in which they are first asked for; a column is there when a
field or a key of a join table asks for it, with the type and size that all of these agree on and
with every mark that one of them sets. What is asked for is told by the fields alone
(`Contributes`), and resolution makes these columns of them (`Contributes.of_field`,
`Contributes.of_joinPair`).
-/

set_option autoImplicit false
set_option relaxedAutoImplicit false

namespace ClassMap

open Traversal

/-- The effective associations of a class, each with what it was resolved to. -/
def ClassDescriptor.resolved (c : ClassDescriptor) (members : MemberTable) :
    List (EffectiveAssociation × Association) :=
  ((members.lookup c.name).getD {}).associations.zip c.associations

/-- The columns that a collection names in its join table, each with the primary key it leads to. -/
def CollectionDescriptor.joinPairs (d : CollectionDescriptor) (c element : ClassDescriptor) :
    List (String × FieldDescriptor) :=
  d.foreignKeys.zip c.primaryKeys ++ d.remoteForeignKeys.zip element.primaryKeys

/-- The members of a class are described in the order of its effective members. -/
structure ClassDescriptor.InOrderOf (c : ClassDescriptor) (m : EffectiveMembers) : Prop where
  fields : c.fields.map (·.name) = m.fields.map (·.name)
  associations : c.associations.map (·.name) = m.associations.map (·.name)

/-- The size of the columns for a field: the precision and the scale of a decimal type, as far as
they are given, and the length of any other type. -/
inductive FieldDescriptor.HasSize (f : FieldDescriptor) : Option String → Prop
  | length (htype : f.jdbcType ≠ .decimal ∧ f.jdbcType ≠ .numeric) :
      HasSize f (f.length.map fun length ↦ length.toNat.repr)
  | scaled {precision scale : UInt32} (htype : f.jdbcType = .decimal ∨ f.jdbcType = .numeric)
      (hprecision : f.precision = some precision) (hscale : f.scale = some scale) :
      HasSize f (some (precision.toNat.repr ++ "," ++ scale.toNat.repr))
  | unscaled {precision : UInt32} (htype : f.jdbcType = .decimal ∨ f.jdbcType = .numeric)
      (hprecision : f.precision = some precision) (hscale : f.scale = none) :
      HasSize f (some precision.toNat.repr)
  | unsized (htype : f.jdbcType = .decimal ∨ f.jdbcType = .numeric)
      (hprecision : f.precision = none) : HasSize f none

theorem JdbcType.hasPrecision_iff {type : JdbcType} :
    type.hasPrecision = true ↔ type = .decimal ∨ type = .numeric := by
  cases type <;> simp [hasPrecision]

theorem JdbcType.hasLength_eq_false {type : JdbcType} (h : type.hasPrecision = true) :
    type.hasLength = false := by
  rcases hasPrecision_iff.mp h with rfl | rfl <;> rfl

namespace FieldDescriptor

variable {f : FieldDescriptor} {size : Option String}

theorem columnSize_of_hasPrecision (h : f.jdbcType.hasPrecision = true) :
    f.columnSize = f.precision.map fun precision ↦
      f.scale.elim precision.toNat.repr fun scale ↦
        precision.toNat.repr ++ "," ++ scale.toNat.repr := by
  rw [columnSize, JdbcType.hasLength_eq_false h, if_neg Bool.false_ne_true, if_pos h]
  cases f.precision <;> cases f.scale <;> rfl

theorem columnSize_of_not_hasPrecision (h : ¬ f.jdbcType.hasPrecision = true) :
    f.columnSize = f.length.map (·.toNat.repr) := by
  rw [columnSize, if_neg h, ite_self]

/-- The sizes that resolution gives to columns are the ones described. -/
theorem hasSize_iff : f.HasSize size ↔ size = f.columnSize := by
  constructor
  · intro hsize
    cases hsize with
    | length htype =>
      rw [columnSize_of_not_hasPrecision (by simpa [JdbcType.hasPrecision_iff] using htype)]
    | scaled htype hprecision hscale =>
      rw [columnSize_of_hasPrecision (JdbcType.hasPrecision_iff.mpr htype), hprecision, hscale]
      rfl
    | unscaled htype hprecision hscale =>
      rw [columnSize_of_hasPrecision (JdbcType.hasPrecision_iff.mpr htype), hprecision, hscale]
      rfl
    | unsized htype hprecision =>
      rw [columnSize_of_hasPrecision (JdbcType.hasPrecision_iff.mpr htype), hprecision]
      rfl
  · rintro rfl
    by_cases htype : f.jdbcType.hasPrecision = true
    · rw [columnSize_of_hasPrecision htype]
      rw [JdbcType.hasPrecision_iff] at htype
      cases hprecision : f.precision with
      | none => exact .unsized htype hprecision
      | some precision =>
        cases hscale : f.scale with
        | none => exact .unscaled htype hprecision hscale
        | some scale => exact .scaled htype hprecision hscale
    · rw [columnSize_of_not_hasPrecision htype]
      exact .length (by simpa [JdbcType.hasPrecision_iff] using htype)

end FieldDescriptor

namespace Repository

/-- A column that the classes of a repository ask for in a table, as the field or the primary key it
is for has it. -/
inductive Contributes (r : Repository) (members : MemberTable) (table : String) : Column → Prop
  | field {c : ClassDescriptor} {f : FieldDescriptor} {name : String} {size : Option String}
      (hc : c ∈ r.classes) (hname : c.table = some name) (htable : sameTable name table = true)
      (hf : f ∈ c.fields) (hsize : f.HasSize size) :
      Contributes r members table
        { name := f.column
          jdbcType := f.jdbcType
          size := size
          primaryKey := f.primaryKey
          required := f.primaryKey || !f.nullable
          autoIncrement := f.autoincrement == .database
          defaultValue := f.defaultValue
          description := f.columnDocumentation }
  | join {c element : ClassDescriptor} {a : EffectiveAssociation} {d : CollectionDescriptor}
      {name : String} {pair : String × FieldDescriptor} {size : Option String} {isKey : Bool}
      (hc : c ∈ r.classes) (ha : (a, .collection d) ∈ c.resolved members)
      (hname : d.indirectionTable = some name) (htable : sameTable name table = true)
      (helement : element ∈ r.classes) (href : element.name = d.elementClassRef)
      (hpair : pair ∈ d.joinPairs c element) (hsize : pair.2.HasSize size)
      (hkey : isKey = true ↔ a.tag.SwitchesOn "indirection-table-primarykeys") :
      Contributes r members table
        { name := pair.1
          jdbcType := pair.2.jdbcType
          size := size
          primaryKey := isKey
          required := isKey }

/-- The tables that a repository asks for, those of the classes and then the join tables. -/
def tableNames (r : Repository) : List String :=
  r.classes.filterMap (·.table) ++
    r.classes.flatMap fun c ↦ c.collections.filterMap (·.indirectionTable)

/-- A field has its column there, or a collection lists it for its join table. -/
def Lists (r : Repository) (table column : String) : Prop :=
  (∃ c ∈ r.classes, ∃ name, c.table = some name ∧ sameTable name table = true ∧
    ∃ f ∈ c.fields, Text.sameName f.column column = true) ∨
  ∃ c ∈ r.classes, ∃ d ∈ c.collections, ∃ name, d.indirectionTable = some name ∧
    sameTable name table = true ∧
      ∃ key ∈ d.foreignKeys ++ d.remoteForeignKeys, Text.sameName key column = true

/-- The schema of a repository is exactly what its classes ask for. -/
structure ExactSchema (r : Repository) (members : MemberTable) : Prop where
  tables : r.schema.tables.map (·.name) = firstNames r.tableNames
  nodup_tables : (r.schema.tables.map fun t ↦ Text.lower t.name).Nodup
  nodup_columns : ∀ t ∈ r.schema.tables, (t.columns.map fun c ↦ Text.foldLatin c.name).Nodup
  columns : ∀ t ∈ r.schema.tables, ∀ name,
    (∃ c ∈ t.columns, Text.sameName c.name name = true) ↔ r.Lists t.name name
  contributed : ∀ t ∈ r.schema.tables, ∀ c ∈ t.columns, ∃ a, r.Contributes members t.name a ∧
    Text.sameName a.name c.name = true
  types : ∀ t ∈ r.schema.tables, ∀ c ∈ t.columns, ∀ a, r.Contributes members t.name a →
    Text.sameName a.name c.name = true → a.jdbcType = c.jdbcType ∧ a.size = c.size
  primaryKey : ∀ t ∈ r.schema.tables, ∀ c ∈ t.columns, c.primaryKey = true ↔
    ∃ a, r.Contributes members t.name a ∧ Text.sameName a.name c.name = true ∧ a.primaryKey = true
  required : ∀ t ∈ r.schema.tables, ∀ c ∈ t.columns, c.required = true ↔
    ∃ a, r.Contributes members t.name a ∧ Text.sameName a.name c.name = true ∧ a.required = true
  autoIncrement : ∀ t ∈ r.schema.tables, ∀ c ∈ t.columns, c.autoIncrement = true ↔
    ∃ a, r.Contributes members t.name a ∧ Text.sameName a.name c.name = true ∧
      a.autoIncrement = true

variable {r : Repository} {decls : List ClassDecl} {checks : ChecksMode} {h : Hierarchy}
  {s : Scope} {changes : List SchemaChange} {c d : ClassDescriptor} {p q : PersistentClass}
  {collection : CollectionDescriptor} {members : MemberTable} {table name owner : String}
  {added : Column}

theorem resolved_eq (hd : s.Describes p d) :
    d.resolved s.members = (s.membersOf p.decl).associations.zip d.associations := by
  rw [ClassDescriptor.resolved, hd.name, Scope.membersOf]

theorem primaryKeys_eq (hd : s.Describes p d) : d.primaryKeys = s.primaryKeys p.decl := by
  rw [ClassDescriptor.primaryKeys, hd.fields, Scope.primaryKeys]

theorem joinPairs_eq (hc : s.Describes p c) (hd : s.Describes q d) :
    collection.joinPairs c d = s.joinPairs p.decl q.decl collection := by
  rw [CollectionDescriptor.joinPairs, primaryKeys_eq hc, primaryKeys_eq hd, Scope.joinPairs]

/-- A collection of a class was resolved from one of its effective associations. -/
theorem exists_mem_resolved (hd : s.Describes p d) (hmem : collection ∈ d.collections) :
    ∃ a changes, (a, .collection collection) ∈ d.resolved s.members ∧
      s.collectionPlan p.decl a = .ok (collection, changes) := by
  obtain ⟨a, ha, changes, hkind, hplan⟩ := hd.exists_of_mem_collections hmem
  refine ⟨a, changes, ?_, hplan⟩
  rw [resolved_eq hd, hd.mem_zip_associations_iff]
  exact ⟨ha, changes, Scope.associationPlan_eq_ok_iff.mpr (Or.inl ⟨hkind, _, rfl, hplan⟩)⟩

/-- What stands across from an effective association is a collection only if the association is
planned as one. -/
theorem collectionPlan_of_mem_resolved {a : EffectiveAssociation} (hd : s.Describes p d)
    (ha : (a, .collection collection) ∈ d.resolved s.members) :
    a ∈ (s.membersOf p.decl).associations ∧
      ∃ changes, s.associationPlan p.decl a = .ok (.collection collection, changes) ∧
        s.collectionPlan p.decl a = .ok (collection, changes) := by
  rw [resolved_eq hd, hd.mem_zip_associations_iff] at ha
  obtain ⟨hmem, changes, hplan⟩ := ha
  refine ⟨hmem, changes, hplan, ?_⟩
  rcases Scope.associationPlan_eq_ok_iff.mp hplan with ⟨-, _, heq, hcollection⟩ | ⟨-, _, heq, -⟩
  · exact Association.collection.inj heq ▸ hcollection
  · exact absurd heq (by simp)

namespace Contributes

/-- A column is asked for under every spelling of its table. -/
theorem congr (hadded : r.Contributes members name added) (hname : sameTable name table = true) :
    r.Contributes members table added := by
  cases hadded with
  | field hc htable hsame hf hsize =>
    exact .field hc htable (sameTable_trans hsame hname) hf hsize
  | join hc ha hjoin hsame helement href hpair hsize hkey =>
    exact .join hc ha hjoin (sameTable_trans hsame hname) helement href hpair hsize hkey

/-- The column that resolution makes of a field is asked for. -/
theorem of_field {f : FieldDescriptor} (hc : c ∈ r.classes) (hname : c.table = some name)
    (htable : sameTable name table = true) (hf : f ∈ c.fields) :
    r.Contributes members table f.toColumn :=
  .field hc hname htable hf (FieldDescriptor.hasSize_iff.mpr rfl)

/-- The columns that resolution makes of the keys of a join table are asked for. -/
theorem of_joinPair {a : EffectiveAssociation} {options : CollectionOptions}
    {pair : String × FieldDescriptor} (hc : c ∈ r.classes)
    (ha : (a, .collection collection) ∈ c.resolved members)
    (hname : collection.indirectionTable = some name) (htable : sameTable name table = true)
    (hoptions : CollectionOptions.parse c.name a.tag = .ok options) (hd : d ∈ r.classes)
    (href : d.name = collection.elementClassRef) (hpair : pair ∈ collection.joinPairs c d) :
    r.Contributes members table
      (pair.2.joinColumn pair.1 options.indirectionTablePrimaryKeys) :=
  .join hc ha hname htable hd href hpair (FieldDescriptor.hasSize_iff.mpr rfl)
    (CollectionOptions.indirectionTablePrimaryKeys_of_parse hoptions)

end Contributes

namespace ResolvedIn

/-- The element class of a collection, as it is described. -/
theorem exists_element (hr : r.ResolvedIn decls checks h s changes)
    {a : EffectiveAssociation} {collectionChanges : List SchemaChange}
    (hplan : s.collectionPlan p.decl a = .ok (collection, collectionChanges)) :
    ∃ options q, ∃ element ∈ r.classes, s.Describes q element ∧
      element.name = collection.elementClassRef ∧
      s.ResolvedCollection p.decl a collection collectionChanges options q.decl := by
  obtain ⟨options, element, hresolved⟩ := Scope.collectionPlan_eq_ok hplan
  obtain ⟨q, d, hd, hdescribes, rfl, hname⟩ :=
    hr.exists_describes hresolved.declared hresolved.persistent
  exact ⟨options, q, d, hd, hdescribes, hname, hresolved⟩

/-- A column that a class asks for with its table. -/
theorem contributes_of_tableChanges (hr : r.ResolvedIn decls checks h s changes)
    (hp : p ∈ s.classes) {part : List SchemaChange} (hpart : s.tableChanges p = .ok part)
    (hcolumn : .column name added owner ∈ part) : r.Contributes s.members name added := by
  obtain ⟨-, hname, f, hf, rfl⟩ := (Scope.column_mem_tableChanges_iff hpart).mp hcolumn
  obtain ⟨c, hc, hdescribes⟩ := Scope.exists_mem_describes hr.planned hp
  have hfield : f ∈ c.fields := by
    rw [hdescribes.fields]
    exact hf
  exact .of_field hc (hdescribes.table.trans hname) (sameTable_self name) hfield

/-- A column that a class asks for with one of its associations. -/
theorem contributes_of_association (hr : r.ResolvedIn decls checks h s changes)
    (hp : p ∈ s.classes) {a : EffectiveAssociation}
    (ha : a ∈ (s.membersOf p.decl).associations) {association : Association}
    {part : List SchemaChange} (hplan : s.associationPlan p.decl a = .ok (association, part))
    (hcolumn : .column name added owner ∈ part) : r.Contributes s.members name added := by
  obtain ⟨c, hc, hdescribes⟩ := Scope.exists_mem_describes hr.planned hp
  rcases Scope.associationPlan_eq_ok_iff.mp hplan with ⟨-, collection, rfl, hcollection⟩ |
    ⟨-, reference, rfl, hreference⟩
  · obtain ⟨options, q, element, helement, hq, href, hresolved⟩ := hr.exists_element hcollection
    obtain ⟨-, hname, pair, hpair, rfl⟩ := hresolved.column_mem_iff.mp hcolumn
    have hmem : (a, .collection collection) ∈ c.resolved s.members := by
      rw [resolved_eq hdescribes, hdescribes.mem_zip_associations_iff]
      exact ⟨ha, part, hplan⟩
    have hparsed : CollectionOptions.parse c.name a.tag = .ok options := by
      rw [hdescribes.name]
      exact hresolved.parsed
    have hpair' : pair ∈ collection.joinPairs c element := by
      rw [joinPairs_eq hdescribes hq]
      exact hpair
    exact .of_joinPair hc hmem hname (sameTable_self name) hparsed helement href hpair'
  · obtain ⟨target, keys, hresolved⟩ := Scope.resolveReference_eq_ok hreference
    obtain ⟨-, _, _, -, -, heq⟩ := (hresolved.mem_changes _).mp hcolumn
    exact absurd heq (by simp)

/-- The class that a collection was resolved against is the one under the name it keeps. -/
theorem resolvedCollection_of_mem (hr : r.ResolvedIn decls checks h s changes)
    {a : EffectiveAssociation} (hc : s.Describes p c)
    (ha : (a, .collection collection) ∈ c.resolved s.members) (hd : s.Describes q d)
    (href : d.name = collection.elementClassRef) :
    ∃ part options, s.associationPlan p.decl a = .ok (.collection collection, part) ∧
      s.ResolvedCollection p.decl a collection part options q.decl := by
  obtain ⟨-, part, hplan, hcollection⟩ := collectionPlan_of_mem_resolved hc ha
  obtain ⟨options, q', found, -, -, -, hresolved⟩ := hr.exists_element hcollection
  have hdecl : q.decl = q'.decl := hr.decl_eq hd (by rw [href]; exact hresolved.declared)
  rw [← hdecl] at hresolved
  exact ⟨part, options, hplan, hresolved⟩

/-- What a class asks for in a table is a change of the plan. -/
theorem exists_column_of_contributes (hr : r.ResolvedIn decls checks h s changes)
    (hcontributes : r.Contributes s.members table added) :
    ∃ name owner, .column name added owner ∈ changes ∧ sameTable name table = true := by
  cases hcontributes with
  | @field c f name size hc hname htable hf hsize =>
    obtain rfl := FieldDescriptor.hasSize_iff.mp hsize
    obtain ⟨p, hdescribes⟩ := Scope.exists_describes_of_mem hr.planned hc
    obtain ⟨_, _, htables, -⟩ := Scope.plan_eq_ok hr.planned
    obtain ⟨part, -, hpart⟩ := exists_mapM_of_mem htables hdescribes.mem
    rw [hdescribes.fields] at hf
    have hcolumn : .column name f.toColumn p.decl.name ∈ part :=
      (Scope.column_mem_tableChanges_iff hpart).mpr
        ⟨rfl, hdescribes.table.symm.trans hname, f, hf, rfl⟩
    have hchange : .column name f.toColumn p.decl.name ∈ changes :=
      (Scope.mem_plan_iff hr.planned).mpr (Or.inl ⟨p, hdescribes.mem, part, hpart, hcolumn⟩)
    exact ⟨name, p.decl.name, hchange, htable⟩
  | @join c element a collection name pair size isKey hc ha hname htable helement href hpair hsize
      hkey =>
    obtain rfl := FieldDescriptor.hasSize_iff.mp hsize
    obtain ⟨p, hdescribes⟩ := Scope.exists_describes_of_mem hr.planned hc
    obtain ⟨q, hq⟩ := Scope.exists_describes_of_mem hr.planned helement
    obtain ⟨hmem, -⟩ := collectionPlan_of_mem_resolved hdescribes ha
    obtain ⟨part, options, hplan, hresolved⟩ :=
      hr.resolvedCollection_of_mem hdescribes ha hq href
    obtain rfl : isKey = options.indirectionTablePrimaryKeys := by
      rw [Bool.eq_iff_iff, hkey,
        CollectionOptions.indirectionTablePrimaryKeys_of_parse hresolved.parsed]
    rw [joinPairs_eq hdescribes hq] at hpair
    have hcolumn : .column name (pair.2.joinColumn pair.1 options.indirectionTablePrimaryKeys)
        p.decl.name ∈ part :=
      hresolved.column_mem_iff.mpr ⟨rfl, hname, pair, hpair, rfl⟩
    have hchange := (Scope.mem_plan_iff hr.planned).mpr
      (Or.inr ⟨p, hdescribes.mem, a, hmem, _, part, hplan, hcolumn⟩)
    exact ⟨name, p.decl.name, hchange, htable⟩

/-- The columns declared for a table are those that the classes ask for. -/
theorem mem_columnsOf_iff (hr : r.ResolvedIn decls checks h s changes) :
    added ∈ SchemaChange.columnsOf changes table ↔ r.Contributes s.members table added := by
  rw [SchemaChange.mem_columnsOf_iff]
  constructor
  · intro hdeclared
    obtain ⟨name, owner, hmem, htable⟩ := hdeclared
    rcases (Scope.mem_plan_iff hr.planned).mp hmem with ⟨p, hp, part, hpart, hcolumn⟩ |
      ⟨p, hp, a, ha, association, part, hplan, hcolumn⟩
    · exact (hr.contributes_of_tableChanges hp hpart hcolumn).congr htable
    · exact (hr.contributes_of_association hp ha hplan hcolumn).congr htable
  · exact fun hcontributes ↦ hr.exists_column_of_contributes hcontributes

/-- Every key that a collection lists for its join table is paired with a primary key. -/
theorem exists_mem_joinPairs {name key : String} {options : CollectionOptions}
    {element : ClassDescriptor} {a : EffectiveAssociation} {parts : List SchemaChange}
    (hc : s.Describes p c) (hd : s.Describes q element)
    (hresolved : s.ResolvedCollection p.decl a collection parts options q.decl)
    (hname : collection.indirectionTable = some name) :
    key ∈ collection.foreignKeys ++ collection.remoteForeignKeys ↔
      ∃ pair ∈ collection.joinPairs c element, pair.1 = key := by
  obtain ⟨hown, hremote⟩ := hresolved.length_eq hname
  have hkeys : (collection.joinPairs c element).map (·.1) =
      collection.foreignKeys ++ collection.remoteForeignKeys := by
    rw [joinPairs_eq hc hd, Scope.joinPairs, List.map_append, List.map_fst_zip hown.le,
      List.map_fst_zip hremote.le]
  rw [← hkeys, List.mem_map]

/-- A column is listed when some contribution has its name. -/
theorem lists_iff (hr : r.ResolvedIn decls checks h s changes) {name : String} :
    r.Lists table name ↔
      ∃ a, r.Contributes s.members table a ∧ Text.sameName a.name name = true := by
  constructor
  · intro hlists
    rcases hlists with ⟨c, hc, owner, howner, htable, f, hf, hname⟩ |
      ⟨c, hc, collection, hcollection, joinTable, hjoin, htable, key, hkey, hname⟩
    · exact ⟨f.toColumn, .of_field hc howner htable hf, hname⟩
    · obtain ⟨p, hdescribes⟩ := Scope.exists_describes_of_mem hr.planned hc
      obtain ⟨a, parts, ha, hplan⟩ := exists_mem_resolved hdescribes hcollection
      obtain ⟨options, q, element, helement, hq, href, hresolved⟩ := hr.exists_element hplan
      obtain ⟨pair, hpair, rfl⟩ :=
        (exists_mem_joinPairs hdescribes hq hresolved hjoin).mp hkey
      have hparsed := hresolved.parsed
      rw [← hdescribes.name] at hparsed
      exact ⟨_, .of_joinPair hc ha hjoin htable hparsed helement href hpair, hname⟩
  · intro hasked
    obtain ⟨a, hcontributes, hname⟩ := hasked
    cases hcontributes with
    | @field c f owner size hc howner htable hf =>
      exact Or.inl ⟨c, hc, owner, howner, htable, f, hf, hname⟩
    | @join c element a collection joinTable pair size isKey hc ha hjoin htable helement href
        hpair =>
      obtain ⟨p, hdescribes⟩ := Scope.exists_describes_of_mem hr.planned hc
      obtain ⟨q, hq⟩ := Scope.exists_describes_of_mem hr.planned helement
      obtain ⟨part, options', -, hresolved⟩ := hr.resolvedCollection_of_mem hdescribes ha hq href
      have hlisted : collection ∈ c.collections :=
        List.mem_filterMap.mpr ⟨_, (List.of_mem_zip ha).2, rfl⟩
      have hkey : pair.1 ∈ collection.foreignKeys ++ collection.remoteForeignKeys :=
        (exists_mem_joinPairs hdescribes hq hresolved hjoin).mpr ⟨pair, hpair, rfl⟩
      exact Or.inr ⟨c, hc, collection, hlisted, joinTable, hjoin, htable, pair.1, hkey, hname⟩

/-- The schema of a resolved repository is made of what its classes ask for, and of nothing
else. -/
theorem exactSchema (hr : r.ResolvedIn decls checks h s changes) : r.ExactSchema s.members := by
  have hmade := SchemaChange.made_of_applyAll hr.applied
  have hmark : ∀ t ∈ r.schema.tables, ∀ c ∈ t.columns, ∀ mark, Column.IsMark mark →
      (mark c = true ↔ ∃ a, r.Contributes s.members t.name a ∧
        Text.sameName a.name c.name = true ∧ mark a = true) := by
    intro t ht c hc mark hmark
    rw [((hmade.reflects t ht).gathers c hc).mark_iff mark hmark]
    simp only [hr.mem_columnsOf_iff]
  constructor
  case tables => rw [hmade.names, Scope.firstNames_plan hr.planned, tableNames]
  case nodup_tables => exact hmade.nodup
  case nodup_columns => exact fun t ht ↦ (hmade.reflects t ht).nodup
  case columns =>
    intro t ht name
    have hreflects := hmade.reflects t ht
    rw [hr.lists_iff]
    constructor
    · intro hthere
      obtain ⟨c, hc, hname⟩ := hthere
      obtain ⟨a, ha, hsame⟩ := (hreflects.gathers c hc).declared
      exact ⟨a, hr.mem_columnsOf_iff.mp ha, Text.sameName_trans hsame hname⟩
    · intro hasked
      obtain ⟨a, ha, hname⟩ := hasked
      obtain ⟨c, hc, hsame⟩ := hreflects.complete a (hr.mem_columnsOf_iff.mpr ha)
      exact ⟨c, hc, Text.sameName_trans (Text.sameName_symm hsame) hname⟩
  case contributed =>
    intro t ht c hc
    obtain ⟨a, ha, hsame⟩ := ((hmade.reflects t ht).gathers c hc).declared
    exact ⟨a, hr.mem_columnsOf_iff.mp ha, hsame⟩
  case types =>
    intro t ht c hc a ha hname
    have htype := ((hmade.reflects t ht).gathers c hc).type_eq a (hr.mem_columnsOf_iff.mpr ha) hname
    exact ColumnType.mk.inj htype
  case primaryKey => exact fun t ht c hc ↦ hmark t ht c hc _ Column.isMark_primaryKey
  case required => exact fun t ht c hc ↦ hmark t ht c hc _ Column.isMark_required
  case autoIncrement => exact fun t ht c hc ↦ hmark t ht c hc _ Column.isMark_autoIncrement

/-- The classes of a repository stand in the order of their declarations. -/
theorem map_name_classes (hr : r.ResolvedIn decls checks h s changes) :
    r.classes.map (·.name) = (decls.filter h.isPersistent).map (·.name) := by
  rw [Scope.map_name_of_plan hr.planned, ← hr.decls_eq, ← hr.built.decls_eq, List.map_map]
  rfl

/-- Every effective member of a class is described, at its place. -/
theorem inOrderOf (hr : r.ResolvedIn decls checks h s changes) (hc : c ∈ r.classes) :
    c.InOrderOf ((s.members.lookup c.name).getD {}) := by
  obtain ⟨p, hp⟩ := Scope.exists_describes_of_mem hr.planned hc
  have hmembers : (s.members.lookup c.name).getD {} = s.membersOf p.decl := by
    rw [hp.name, Scope.membersOf]
  rw [hmembers]
  constructor
  case fields =>
    rw [hp.fields]
    exact map_eq_map_of_mapM (hr.built.mapM_build_eq hp.mem) fun f _ d hd ↦
      Scope.name_of_build hd
  case associations =>
    obtain ⟨parts, hparts, hassociations⟩ := hp.associations
    rw [hassociations, List.map_map]
    refine map_eq_map_of_mapM hparts fun a _ part hpart ↦ ?_
    rcases Scope.associationPlan_eq_ok_iff.mp hpart with ⟨-, d, hd, hplan⟩ | ⟨-, d, hd, hplan⟩
    · obtain ⟨options, element, hresolved⟩ := Scope.collectionPlan_eq_ok hplan
      rw [Function.comp, hd, Association.name, hresolved.descriptor]
      rfl
    · obtain ⟨target, keys, hresolved⟩ := Scope.resolveReference_eq_ok hplan
      rw [Function.comp, hd, Association.name, hresolved.name_eq]

end ResolvedIn

end Repository

/-- Resolution files every persistent class in the order of the declarations, with its effective
members, and builds a schema that is exactly what these classes ask for. -/
theorem schema_exact {decls : List ClassDecl} {checks : ChecksMode} {databaseName : String}
    {r : Repository} (hr : resolveDeclarations decls checks databaseName = .ok r) :
    ∃ h members, Hierarchy.ofDeclarations decls = .ok h ∧ h.memberTable = .ok members ∧
      r.classes.map (·.name) = (decls.filter h.isPersistent).map (·.name) ∧
      (∀ c ∈ r.classes, c.InOrderOf ((members.lookup c.name).getD {})) ∧
      r.ExactSchema members := by
  obtain ⟨h, s, changes, hresolved⟩ := exists_resolvedIn hr
  exact ⟨h, s.members, hresolved.ofDeclarations, hresolved.built.members,
    hresolved.map_name_classes, fun _ hc ↦ hresolved.inOrderOf hc, hresolved.exactSchema⟩

/-- Students and teachers share a table and a column for their names; students and courses meet in a
join table. -/
def campus : List ClassDecl :=
  [{ name := "Student"
     tags := [⟨"ojb.class", [("table", "PEOPLE")]⟩]
     members := [⟨"id", "int", [⟨"ojb.field", [("primarykey", "true"),
         ("autoincrement", "database")]⟩]⟩,
       ⟨"name", "java.lang.String", [⟨"ojb.field", [("length", "40")]⟩]⟩,
       ⟨"courses", "Course[]", [⟨"ojb.collection",
         [("indirection-table", "ENROLMENT"), ("foreignkey", "STUDENT"),
           ("remote-foreignkey", "COURSE"), ("indirection-table-primarykeys", "true")]⟩]⟩] },
   { name := "Teacher"
     tags := [⟨"ojb.class", [("table", "people")]⟩]
     members := [⟨"name", "java.lang.String", [⟨"ojb.field", [("length", "40"),
         ("nullable", "false")]⟩]⟩,
       ⟨"room", "int", [⟨"ojb.field", []⟩]⟩] },
   { name := "Course"
     tags := [⟨"ojb.class", []⟩]
     members := [⟨"code", "java.lang.String", [⟨"ojb.field", [("primarykey", "true"),
         ("length", "8")]⟩]⟩,
       ⟨"fee", "java.math.BigDecimal", [⟨"ojb.field", [("precision", "9")]⟩]⟩] }]

/-- The tables of the campus, with their columns. -/
def campusTables : List (String × List Column) :=
  [("PEOPLE",
      [{ name := "id", jdbcType := .integer, primaryKey := true, required := true,
         autoIncrement := true },
       { name := "name", jdbcType := .varchar, size := some "40", required := true },
       { name := "room", jdbcType := .integer }]),
    ("Course",
      [{ name := "code", jdbcType := .varchar, size := some "8", primaryKey := true,
         required := true },
       { name := "fee", jdbcType := .decimal, size := some "9,0" }]),
    ("ENROLMENT",
      [{ name := "STUDENT", jdbcType := .integer, primaryKey := true, required := true },
       { name := "COURSE", jdbcType := .varchar, size := some "8", primaryKey := true,
         required := true }])]

theorem schema_exact_campus :
    ∃ r, resolveDeclarations campus .strict "campus" = .ok r ∧
      r.schema.tables.map (fun t ↦ (t.name, t.columns)) = campusTables ∧
      ∃ h members, Hierarchy.ofDeclarations campus = .ok h ∧ h.memberTable = .ok members ∧
        r.classes.map (·.name) = (campus.filter h.isPersistent).map (·.name) ∧
        (∀ c ∈ r.classes, c.InOrderOf ((members.lookup c.name).getD {})) ∧
        r.ExactSchema members := by
  have hcolumns : ((resolveDeclarations campus .strict "campus").map fun r ↦
      r.schema.tables.map fun t ↦ (t.name, t.columns)) = .ok campusTables := by
    decide +kernel
  obtain ⟨r, hr, htables⟩ := exists_eq_ok_of_map hcolumns
  have hexact := schema_exact hr
  exact ⟨r, hr, htables, hexact⟩

end ClassMap
