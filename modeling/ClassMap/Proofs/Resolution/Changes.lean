import ClassMap.Proofs.Resolution.Association
import ClassMap.Proofs.Resolution.Classes
import ClassMap.Proofs.Schema.FirstNames

/-!
The changes that a plan asks for. A class with a table asks for the table and one column for each
of its fields; a collection over a join table asks for that table and one column for each key of
either side. Nothing else asks for a table or a column, and the table of a constraint has always
been asked for before.
-/

set_option autoImplicit false
set_option relaxedAutoImplicit false

namespace ClassMap.Scope

open Traversal

variable {s : Scope} {p : PersistentClass} {c element : ClassDecl} {a : EffectiveAssociation}
  {association : Association} {changes : List SchemaChange} {table name owner : String}
  {added : Column}

theorem tableOf_eq_some (h : s.tableOf c = some table) : s.isPersistent c = true := by
  unfold tableOf at h
  split at h
  · rename_i hpersistent
    exact (Bool.and_eq_true_iff.mp hpersistent).1
  · exact absurd h (by simp)

/-- A class with a table asks for its columns and then for its indices. -/
theorem tableChanges_eq_ok (hchanges : s.tableChanges p = .ok changes)
    (htable : s.tableOf p.decl = some table) :
    ∃ indices, changes = s.columnChanges p.decl table ++ indices ∧
      ∀ change ∈ indices, ∃ index, change = .index table index p.decl.name := by
  simp only [tableChanges, htable, bind_eq_ok_iff, pure_eq_ok_iff] at hchanges
  obtain ⟨indices, hindices, rfl⟩ := hchanges
  refine ⟨indices, rfl, fun change hchange ↦ ?_⟩
  obtain ⟨tag, -, htag⟩ := exists_of_mem_mapM hindices hchange
  obtain ⟨index, -, hpure⟩ := bind_eq_ok_iff.mp htag
  exact ⟨index, (pure_eq_ok_iff.mp hpure).symm⟩

theorem tableChanges_eq_nil (hchanges : s.tableChanges p = .ok changes)
    (htable : s.tableOf p.decl = none) : changes = [] := by
  simpa [tableChanges, htable, eq_comm] using hchanges

theorem mem_columnChanges_iff {change : SchemaChange} :
    change ∈ s.columnChanges c table ↔ change = .table table c.options.tableDocumentation ∨
      ∃ f ∈ s.fieldsOf c, change = .column table f.toColumn c.name ∨ f.indexed = true ∧
        change = .index table ⟨table ++ "_" ++ f.column ++ "_IDX", false, [f.column]⟩ c.name := by
  simp only [columnChanges, List.mem_cons, List.mem_flatMap, fieldChanges]
  refine or_congr_right (exists_congr fun f ↦ and_congr_right fun _ ↦ or_congr_right ?_)
  split <;> simp_all

/-- What a class asks for concerns its own table: the table, a column of a field, or an index. -/
theorem tableChanges_cases (hchanges : s.tableChanges p = .ok changes) {change : SchemaChange}
    (hchange : change ∈ changes) :
    ∃ table, s.tableOf p.decl = some table ∧
      (change = .table table p.decl.options.tableDocumentation ∨
        (∃ f ∈ s.fieldsOf p.decl, change = .column table f.toColumn p.decl.name) ∨
        ∃ index, change = .index table index p.decl.name) := by
  cases htable : s.tableOf p.decl with
  | none =>
    rw [tableChanges_eq_nil hchanges htable] at hchange
    exact absurd hchange List.not_mem_nil
  | some table =>
    refine ⟨table, rfl, ?_⟩
    obtain ⟨indices, rfl, hindices⟩ := tableChanges_eq_ok hchanges htable
    rcases List.mem_append.mp hchange with hown | hindex
    · rcases mem_columnChanges_iff.mp hown with hfirst | ⟨f, hf, hcolumn | ⟨-, hindexed⟩⟩
      · exact Or.inl hfirst
      · exact Or.inr (Or.inl ⟨f, hf, hcolumn⟩)
      · exact Or.inr (Or.inr ⟨_, hindexed⟩)
    · exact Or.inr (Or.inr (hindices change hindex))

/-- The columns of a class are those of its fields, in its own table. -/
theorem column_mem_tableChanges_iff (hchanges : s.tableChanges p = .ok changes) :
    .column name added owner ∈ changes ↔
      owner = p.decl.name ∧ s.tableOf p.decl = some name ∧
        ∃ f ∈ s.fieldsOf p.decl, added = f.toColumn := by
  constructor
  · intro hmem
    obtain ⟨table, htable, hfirst | ⟨f, hf, hcolumn⟩ | ⟨index, hindex⟩⟩ :=
      tableChanges_cases hchanges hmem
    · exact absurd hfirst (by simp)
    · obtain ⟨rfl, rfl, rfl⟩ := SchemaChange.column.inj hcolumn
      exact ⟨rfl, htable, f, hf, rfl⟩
    · exact absurd hindex (by simp)
  · intro hasked
    obtain ⟨rfl, htable, f, hf, rfl⟩ := hasked
    obtain ⟨indices, rfl, -⟩ := tableChanges_eq_ok hchanges htable
    have hcolumn : .column name f.toColumn p.decl.name ∈ s.columnChanges p.decl name :=
      mem_columnChanges_iff.mpr (Or.inr ⟨f, hf, Or.inl rfl⟩)
    exact List.mem_append_left indices hcolumn

theorem foreignKey_not_mem_tableChanges {fk : ForeignKey}
    (hchanges : s.tableChanges p = .ok changes) : .foreignKey name fk ∉ changes := by
  intro hmem
  obtain ⟨table, -, hfirst | ⟨f, -, hcolumn⟩ | ⟨index, hindex⟩⟩ := tableChanges_cases hchanges hmem
  · exact absurd hfirst (by simp)
  · exact absurd hcolumn (by simp)
  · exact absurd hindex (by simp)

/-- The first names among the tables a class asks for are those of its own table. -/
theorem firstNames_tableChanges (hchanges : s.tableChanges p = .ok changes) (before : List String) :
    firstNames (before ++ changes.map (·.tableName)) =
      firstNames (before ++ (s.tableOf p.decl).toList) := by
  have hnames : ∀ change ∈ changes, s.tableOf p.decl = some change.tableName := by
    intro change hchange
    obtain ⟨table, htable, rfl | ⟨f, -, rfl⟩ | ⟨index, rfl⟩⟩ := tableChanges_cases hchanges hchange
    · exact htable
    · exact htable
    · exact htable
  cases htable : s.tableOf p.decl with
  | none => rw [tableChanges_eq_nil hchanges htable]; rfl
  | some table =>
    obtain ⟨indices, rfl, -⟩ := tableChanges_eq_ok hchanges htable
    refine firstNames_append_cons before fun n hn ↦ ?_
    obtain ⟨change, hchange, rfl⟩ := List.mem_map.mp hn
    have hname : some change.tableName = some table :=
      (hnames change (List.mem_cons_of_mem _ hchange)).symm.trans htable
    rw [Option.some.inj hname]
    exact sameTable_self table

/-- The keys of either side of a collection, with the primary keys they lead to. -/
def joinPairs (s : Scope) (c element : ClassDecl) (d : CollectionDescriptor) :
    List (String × FieldDescriptor) :=
  d.foreignKeys.zip (s.primaryKeys c) ++ d.remoteForeignKeys.zip (s.primaryKeys element)

variable {d : CollectionDescriptor} {options : CollectionOptions}

theorem ResolvedCollection.keys_cases (h : ResolvedCollection s c a d changes options element) :
    (d.indirectionTable = none ∧ s.inverseKeys c element a options = .ok changes) ∨
      ∃ joinTable, d.indirectionTable = some joinTable ∧
        s.joinKeys c element a options joinTable = .ok (d.remoteForeignKeys, changes) := by
  have hkeys := h.keys
  rw [h.indirectionTable_eq]
  unfold collectionKeys at hkeys
  cases hjoin : options.indirectionTable with
  | none =>
    simp only [hjoin, bind_eq_ok_iff, pure_eq_ok_iff, Prod.mk.injEq] at hkeys
    obtain ⟨_, hinverse, -, rfl⟩ := hkeys
    exact Or.inl ⟨rfl, hinverse⟩
  | some joinTable =>
    simp only [hjoin] at hkeys
    exact Or.inr ⟨joinTable, rfl, hkeys⟩

/-- The columns that a collection asks for are those of its keys, in its join table. -/
theorem ResolvedCollection.column_mem_iff
    (h : ResolvedCollection s c a d changes options element) :
    .column name added owner ∈ changes ↔
      owner = c.name ∧ d.indirectionTable = some name ∧ ∃ pair ∈ s.joinPairs c element d,
        added = pair.2.joinColumn pair.1 options.indirectionTablePrimaryKeys := by
  rcases h.keys_cases with ⟨htable, hkeys⟩ | ⟨joinTable, htable, hkeys⟩
  · obtain ⟨_, -, -, hmem⟩ := inverseKeys_eq_ok hkeys
    simp [hmem, htable]
  · obtain ⟨-, -, constraints, rfl, hmem⟩ := joinKeys_eq_ok hkeys
    have hconstraints : .column name added owner ∉ constraints := by
      simp [hmem]
    rw [List.mem_append, or_iff_left hconstraints, joinPairs, h.foreignKeys_eq, htable]
    simp only [joinTableChanges, List.mem_cons, reduceCtorEq, false_or, List.mem_map]
    constructor
    · intro hentry
      obtain ⟨pair, hpair, hcolumn⟩ := hentry
      obtain ⟨rfl, rfl, rfl⟩ := SchemaChange.column.inj hcolumn
      exact ⟨rfl, rfl, pair, hpair, rfl⟩
    · intro hasked
      obtain ⟨rfl, hname, pair, hpair, rfl⟩ := hasked
      obtain rfl := Option.some.inj hname
      exact ⟨pair, hpair, rfl⟩

/-- All keys of a collection over a join table are paired. -/
theorem ResolvedCollection.length_eq (h : ResolvedCollection s c a d changes options element)
    (hjoin : d.indirectionTable = some table) :
    d.foreignKeys.length = (s.primaryKeys c).length ∧
      d.remoteForeignKeys.length = (s.primaryKeys element).length := by
  rcases h.keys_cases with ⟨htable, -⟩ | ⟨joinTable, -, hkeys⟩
  · rw [htable] at hjoin
    exact absurd hjoin (by simp)
  · obtain ⟨hown, hremote, -⟩ := joinKeys_eq_ok hkeys
    exact ⟨h.foreignKeys_eq ▸ hown, hremote⟩

/-- The changes of a plan come from the table of a class or from one of its associations. -/
theorem mem_plan_iff {ds : List ClassDescriptor} (hplan : s.plan = .ok (ds, changes))
    {change : SchemaChange} :
    change ∈ changes ↔
      (∃ p ∈ s.classes, ∃ part, s.tableChanges p = .ok part ∧ change ∈ part) ∨
      ∃ p ∈ s.classes, ∃ a ∈ (s.membersOf p.decl).associations, ∃ association part,
        s.associationPlan p.decl a = .ok (association, part) ∧ change ∈ part := by
  obtain ⟨tables, classes, htables, hclasses, rfl, rfl⟩ := plan_eq_ok hplan
  rw [List.mem_append]
  refine or_congr ⟨fun hmem ↦ ?_, ?_⟩ ⟨fun hmem ↦ ?_, ?_⟩
  · obtain ⟨part, hpart, hchange⟩ := List.mem_flatten.mp hmem
    obtain ⟨p, hp, hchanges⟩ := exists_of_mem_mapM htables hpart
    exact ⟨p, hp, part, hchanges, hchange⟩
  · intro hasked
    obtain ⟨p, hp, part, hpart, hchange⟩ := hasked
    obtain ⟨found, hfound, hfound'⟩ := exists_mapM_of_mem htables hp
    obtain rfl := Except.ok.inj (hfound'.symm.trans hpart)
    exact List.mem_flatten.mpr ⟨_, hfound, hchange⟩
  · obtain ⟨⟨d, part⟩, hpart, hchange⟩ := List.mem_flatMap.mp hmem
    obtain ⟨p, hp, hclass⟩ := exists_of_mem_mapM hclasses hpart
    obtain ⟨parts, _, hparts, -, -, rfl⟩ := classPlan_eq_ok hclass
    obtain ⟨⟨association, part⟩, hpart, hchange⟩ := List.mem_flatMap.mp hchange
    obtain ⟨a, ha, hassociation⟩ := exists_of_mem_mapM hparts hpart
    exact ⟨p, hp, a, ha, association, part, hassociation, hchange⟩
  · intro hasked
    obtain ⟨p, hp, a, ha, association, part, hassociation, hchange⟩ := hasked
    obtain ⟨⟨d, classChanges⟩, hpart, hclass⟩ := exists_mapM_of_mem hclasses hp
    obtain ⟨parts, _, hparts, -, -, rfl⟩ := classPlan_eq_ok hclass
    obtain ⟨found, hfound, hfound'⟩ := exists_mapM_of_mem hparts ha
    obtain rfl := Except.ok.inj (hfound'.symm.trans hassociation)
    exact List.mem_flatMap.mpr ⟨_, hpart, List.mem_flatMap.mpr ⟨_, hfound, hchange⟩⟩

end ClassMap.Scope
