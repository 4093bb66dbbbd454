import Mathlib.Data.Option.Basic
import ClassMap.Proofs.Columns
import ClassMap.Proofs.Names
import ClassMap.Proofs.Text.Lower

/-!
Constraints of a resolved schema. A constraint leads from columns of the table that holds it to the
primary key of a class, in the one table that objects of this class are stored in. The columns of
the table that holds it are always there, with the types of the primary key. For a class with a
table of its own so are the columns it leads to; for a class that is stored in the table of its
extents they are there only if the extents, or others that share the table, have kept them.
-/

set_option autoImplicit false
set_option relaxedAutoImplicit false

namespace ClassMap

open Traversal

namespace Schema

/-- A pair of a constraint leads from a column of the table to one of the same type in the table
that the constraint names. -/
def Connects (s : Schema) (t : Table) (foreignTable : String) (pair : String × String) : Prop :=
  ∃ column ∈ t.columns, Text.sameName column.name pair.1 = true ∧
    ∃ foreign ∈ s.tables, sameTable foreign.name foreignTable = true ∧
      ∃ other ∈ foreign.columns, Text.sameName other.name pair.2 = true ∧
        column.jdbcType = other.jdbcType

/-- No constraint of the schema dangles. -/
def Connected (s : Schema) : Prop :=
  ∀ t ∈ s.tables, ∀ fk ∈ t.foreignKeys, ∀ pair ∈ fk.references, s.Connects t fk.foreignTable pair

instance (s : Schema) (t : Table) (foreignTable : String) (pair : String × String) :
    Decidable (s.Connects t foreignTable pair) :=
  inferInstanceAs (Decidable (∃ column ∈ t.columns, Text.sameName column.name pair.1 = true ∧
    ∃ foreign ∈ s.tables, sameTable foreign.name foreignTable = true ∧
      ∃ other ∈ foreign.columns, Text.sameName other.name pair.2 = true ∧
        column.jdbcType = other.jdbcType))

instance (s : Schema) : Decidable s.Connected :=
  inferInstanceAs (Decidable (∀ t ∈ s.tables, ∀ fk ∈ t.foreignKeys, ∀ pair ∈ fk.references,
    s.Connects t fk.foreignTable pair))

end Schema

namespace Repository

/-- The tables that objects of a class and of its extents are stored in. -/
def tablesOf (r : Repository) (c : ClassDescriptor) : List String :=
  (c :: c.extents.filterMap r.find?).filterMap (·.table)

/-- The one table that objects of a class are stored in, whichever extent they belong to. -/
def uniformTable? (r : Repository) (c : ClassDescriptor) : Option String :=
  match r.tablesOf c with
  | [] => none
  | first :: others => if others.all (Text.sameName · first) then some first else none

/-- The class that declares a collection makes its constraints, or each class that has the
collection if the declaring one is not persistent. -/
def OwnsConstraints (r : Repository) (c : ClassDescriptor) (d : CollectionDescriptor) : Prop :=
  d.declaredIn = c.name ∨ ¬ r.HasClass d.declaredIn

/-- A constraint that a class asks for: the table that holds it, the class it leads to, and the
constraint itself, which pairs the columns of the keys with those of the primary key, one by one. -/
inductive Constrains (r : Repository) : String → ClassDescriptor → ForeignKey → Prop
  | reference {c target : ClassDescriptor} {d : ReferenceDescriptor} {table foreign : String}
      {keys : List FieldDescriptor} (hc : c ∈ r.classes) (hd : d ∈ c.references)
      (hdatabase : d.databaseForeignKey = true) (htarget : target ∈ r.classes)
      (hname : target.name = d.classRef) (htable : c.table = some table)
      (hforeign : r.uniformTable? target = some foreign)
      (hkeys : d.foreignKeys.map c.field? = keys.map some) :
      Constrains r table target
        ⟨foreign, (keys.map (·.column)).zip (target.primaryKeys.map (·.column))⟩
  | inverse {c element : ClassDescriptor} {d : CollectionDescriptor} {table foreign : String}
      {keys : List FieldDescriptor} (hc : c ∈ r.classes) (hd : d ∈ c.collections)
      (hjoin : d.indirectionTable = none) (hdatabase : d.databaseForeignKey = true)
      (howns : r.OwnsConstraints c d) (helement : element ∈ r.classes)
      (hname : element.name = d.elementClassRef) (htable : element.table = some table)
      (hforeign : r.uniformTable? c = some foreign)
      (hkeys : d.foreignKeys.map element.field? = keys.map some) :
      Constrains r table c ⟨foreign, (keys.map (·.column)).zip (c.primaryKeys.map (·.column))⟩
  | owner {c : ClassDescriptor} {d : CollectionDescriptor} {table foreign : String}
      (hc : c ∈ r.classes) (hd : d ∈ c.collections) (hjoin : d.indirectionTable = some table)
      (hdatabase : d.databaseForeignKey = true) (howns : r.OwnsConstraints c d)
      (hforeign : r.uniformTable? c = some foreign) :
      Constrains r table c ⟨foreign, d.foreignKeys.zip (c.primaryKeys.map (·.column))⟩
  | element {c element : ClassDescriptor} {d : CollectionDescriptor} {table foreign : String}
      (hc : c ∈ r.classes) (hd : d ∈ c.collections) (hjoin : d.indirectionTable = some table)
      (hdatabase : d.databaseForeignKey = true) (howns : r.OwnsConstraints c d)
      (helement : element ∈ r.classes) (hname : element.name = d.elementClassRef)
      (hforeign : r.uniformTable? element = some foreign) :
      Constrains r table element
        ⟨foreign, d.remoteForeignKeys.zip (element.primaryKeys.map (·.column))⟩

/-- The primary key of a class has its columns in the one table the class is stored in. -/
def KeyIsStored (r : Repository) (members : MemberTable) (c : ClassDescriptor) : Prop :=
  ∀ table, r.uniformTable? c = some table → ∀ key ∈ c.primaryKeys,
    ∃ a, r.Contributes members table a ∧ Text.sameName a.name key.column = true ∧
      a.jdbcType = key.jdbcType

end Repository

/-- A constraint over fields pairs their columns with those of the primary key. -/
theorem ForeignKey.ofFields_eq {foreign : String} {keys primaryKeys : List FieldDescriptor} :
    ofFields foreign keys primaryKeys =
      ⟨foreign, (keys.map (·.column)).zip (primaryKeys.map (·.column))⟩ := by
  rw [ofFields, List.zip_map]
  rfl

/-- A constraint over a join table pairs its columns with those of the primary key. -/
theorem ForeignKey.ofColumns_eq {foreign : String} {columns : List String}
    {primaryKeys : List FieldDescriptor} :
    ofColumns foreign columns primaryKeys =
      ⟨foreign, columns.zip (primaryKeys.map (·.column))⟩ := by
  rw [ofColumns, List.zip_map_right]
  rfl

namespace Scope

variable {s : Scope} {c element : ClassDecl} {p : PersistentClass} {a : EffectiveAssociation}
  {d : CollectionDescriptor} {changes : List SchemaChange} {options : CollectionOptions}

/-- The constraints that a collection asks for. -/
theorem ResolvedCollection.foreignKey_mem_iff
    (h : ResolvedCollection s c a d changes options element) {table : String} {fk : ForeignKey} :
    .foreignKey table fk ∈ changes ↔
      d.databaseForeignKey = true ∧ s.ownsConstraints c a = true ∧
        ((d.indirectionTable = none ∧ ∃ foreign keys, s.tableOf element = some table ∧
            s.uniformTable c = some foreign ∧
            (d.foreignKeys.mapM fun key ↦ s.field element key (.inverseKey a.name c.name)) =
              .ok keys ∧ fk = .ofFields foreign keys (s.primaryKeys c)) ∨
          d.indirectionTable = some table ∧
            ((∃ foreign, s.uniformTable c = some foreign ∧
                fk = .ofColumns foreign d.foreignKeys (s.primaryKeys c)) ∨
              ∃ foreign, s.uniformTable element = some foreign ∧
                fk = .ofColumns foreign d.remoteForeignKeys (s.primaryKeys element))) := by
  rw [h.foreignKeys_eq, h.databaseForeignKey_eq]
  rcases h.keys_cases with ⟨htable, hkeys⟩ | ⟨joinTable, htable, hkeys⟩
  · obtain ⟨keys, hfound, -, hmem⟩ := inverseKeys_eq_ok hkeys
    rw [hmem, htable]
    refine and_congr_right fun _ ↦ and_congr_right fun _ ↦ ?_
    constructor
    · intro hchange
      obtain ⟨_, foreign, helement, huniform, heq⟩ := hchange
      obtain ⟨rfl, rfl⟩ := SchemaChange.foreignKey.inj heq
      exact Or.inl ⟨rfl, foreign, keys, helement, huniform, hfound, rfl⟩
    · intro hcases
      rcases hcases with ⟨-, foreign, keys', helement, huniform, hfound', rfl⟩ | ⟨hjoin, -⟩
      · obtain rfl := Except.ok.inj (hfound.symm.trans hfound')
        exact ⟨table, foreign, helement, huniform, rfl⟩
      · exact absurd hjoin (by simp)
  · obtain ⟨-, -, constraints, rfl, hmem⟩ := joinKeys_eq_ok hkeys
    have hcolumns : .foreignKey table fk ∉ joinTableChanges c options joinTable
        (options.foreignKeys.zip (s.primaryKeys c) ++
          d.remoteForeignKeys.zip (s.primaryKeys element)) := by
      simp [joinTableChanges]
    rw [List.mem_append, or_iff_right hcolumns, hmem, htable]
    refine and_congr_right fun _ ↦ and_congr_right fun _ ↦ ?_
    constructor
    · intro hchange
      rcases hchange with ⟨foreign, huniform, heq⟩ | ⟨foreign, huniform, heq⟩
      · obtain ⟨rfl, rfl⟩ := SchemaChange.foreignKey.inj heq
        exact Or.inr ⟨rfl, Or.inl ⟨foreign, huniform, rfl⟩⟩
      · obtain ⟨rfl, rfl⟩ := SchemaChange.foreignKey.inj heq
        exact Or.inr ⟨rfl, Or.inr ⟨foreign, huniform, rfl⟩⟩
    · intro hcases
      rcases hcases with ⟨hjoin, -⟩ | ⟨hjoin, ⟨foreign, huniform, rfl⟩ | ⟨foreign, huniform, rfl⟩⟩
      · exact absurd hjoin (by simp)
      · obtain rfl := Option.some.inj hjoin
        exact Or.inl ⟨foreign, huniform, rfl⟩
      · obtain rfl := Option.some.inj hjoin
        exact Or.inr ⟨foreign, huniform, rfl⟩

/-- Fields that are looked up one after the other are the fields of these names. -/
theorem map_field?_of_mapM {d : ClassDescriptor} {keys : List String}
    {found : List FieldDescriptor} {use : FieldUse} (hd : s.Describes p d)
    (htrimmed : ∀ key ∈ keys, Text.Trimmed key)
    (hkeys : (keys.mapM fun key ↦ s.field p.decl key use) = .ok found) :
    keys.map d.field? = found.map some := by
  refine (map_eq_map_of_mapM hkeys fun key hkey f hf ↦ ?_).symm
  rw [field_eq_ok_iff, show Text.trim key = key from htrimmed key hkey, ← hd.fields] at hf
  exact hf.symm

end Scope

namespace Repository.ResolvedIn

variable {r : Repository} {decls : List ClassDecl} {checks : ChecksMode} {h : Hierarchy}
  {s : Scope} {changes : List SchemaChange} {c d target : ClassDescriptor} {p q : PersistentClass}

theorem nodup_names (hr : r.ResolvedIn decls checks h s changes) :
    (r.classes.map (·.name)).Nodup := by
  rw [Scope.map_name_of_plan hr.planned]
  exact hr.built.nodup_names

theorem hasClass_iff (hr : r.ResolvedIn decls checks h s changes) {name : String} :
    r.HasClass name ↔ ∃ p ∈ s.classes, p.decl.name = name := by
  have hmem : r.HasClass name ↔ name ∈ r.classes.map (·.name) := List.mem_map.symm
  rw [hmem, Scope.map_name_of_plan hr.planned, List.mem_map]

theorem find?_eq_some (hr : r.ResolvedIn decls checks h s changes) (hd : d ∈ r.classes) :
    r.find? d.name = some d := by
  have hfound : (r.find? d.name).isSome := List.find?_isSome.mpr ⟨d, hd, by simp⟩
  obtain ⟨e, he⟩ := Option.isSome_iff_exists.mp hfound
  have hname : e.name = d.name := by simpa using List.find?_some he
  rw [he, List.inj_on_of_nodup_map hr.nodup_names (List.mem_of_find?_eq_some he) hd hname]

/-- The tables of a class and its extents, read off the descriptors. -/
theorem uniformTable?_eq (hr : r.ResolvedIn decls checks h s changes) (hd : s.Describes p d) :
    r.uniformTable? d = s.uniformTable p.decl := by
  have hextents : ∀ e ∈ p.extents, (r.find? e.name).bind (·.table) = s.tableOf e := by
    intro e he
    obtain ⟨⟨q, hq, rfl⟩, -⟩ := hr.built.mem_extents hd.mem he
    obtain ⟨found, hfound, hdescribes⟩ := Scope.exists_mem_describes hr.planned hq
    rw [← hdescribes.name, hr.find?_eq_some hfound]
    exact hdescribes.table
  have hothers : (d.extents.filterMap r.find?).filterMap (·.table) =
      p.extents.filterMap s.tableOf := by
    rw [hd.extents, List.filterMap_filterMap, List.filterMap_map]
    exact List.filterMap_congr hextents
  have htables : r.tablesOf d = s.tablesOf p.decl := by
    rw [tablesOf, Scope.tablesOf, hr.built.extentsOf_eq hd.mem, List.filterMap_cons,
      List.filterMap_cons, hd.table, hothers]
  cases hs : s.tablesOf p.decl with
  | nil => simp only [uniformTable?, Scope.uniformTable, htables, hs]
  | cons first others => simp only [uniformTable?, Scope.uniformTable, htables, hs]

theorem ownsConstraints_iff (hr : r.ResolvedIn decls checks h s changes) (hd : s.Describes p d)
    {a : EffectiveAssociation} {collection : CollectionDescriptor}
    (hdeclared : collection.declaredIn = a.declaredIn) :
    r.OwnsConstraints d collection ↔ s.ownsConstraints p.decl a = true := by
  rw [OwnsConstraints, hr.hasClass_iff, hd.name, hdeclared]
  simp [Scope.ownsConstraints]

/-- The keys of a collection without a join table, as fields of the element class. -/
theorem exists_keys {element : ClassDescriptor} {a : EffectiveAssociation}
    {collection : CollectionDescriptor} {part : List SchemaChange} {options : CollectionOptions}
    (hq : s.Describes q element)
    (hresolved : s.ResolvedCollection p.decl a collection part options q.decl)
    (hjoin : collection.indirectionTable = none) :
    ∃ keys, (collection.foreignKeys.mapM fun key ↦
        s.field q.decl key (.inverseKey a.name p.decl.name)) = .ok keys ∧
      KeysMatch keys (s.primaryKeys p.decl) ∧
      collection.foreignKeys.map element.field? = keys.map some := by
  rcases hresolved.keys_cases with ⟨-, hkeys⟩ | ⟨_, htable, -⟩
  · obtain ⟨keys, hfound, hmatch, -⟩ := Scope.inverseKeys_eq_ok hkeys
    rw [← hresolved.foreignKeys_eq] at hfound
    exact ⟨keys, hfound, hmatch, Scope.map_field?_of_mapM hq hresolved.trimmed hfound⟩
  · rw [hjoin] at htable
    exact absurd htable (by simp)

/-- A described collection asks for the constraints that it was planned with. -/
theorem constrains_of_collection (hr : r.ResolvedIn decls checks h s changes)
    (hdescribes : s.Describes p c) (hc : c ∈ r.classes) {a : EffectiveAssociation}
    {collection : CollectionDescriptor} {part : List SchemaChange} {name : String}
    {fk : ForeignKey} (hd : collection ∈ c.collections)
    (hplan : s.collectionPlan p.decl a = .ok (collection, part))
    (hkey : .foreignKey name fk ∈ part) : ∃ target, r.Constrains name target fk := by
  obtain ⟨options, q, element, helement, hq, href, hresolved⟩ := hr.exists_element hplan
  obtain ⟨hdatabase, howns, hcases⟩ := hresolved.foreignKey_mem_iff.mp hkey
  have howns' := (hr.ownsConstraints_iff hdescribes hresolved.declaredIn_eq).mpr howns
  rcases hcases with ⟨hjoin, foreign, keys, htable, hforeign, hkeys, rfl⟩ |
    ⟨hjoin, ⟨foreign, hforeign, rfl⟩ | ⟨foreign, hforeign, rfl⟩⟩
  · obtain ⟨keys', hkeys', -, hfields⟩ := exists_keys hq hresolved hjoin
    obtain rfl := Except.ok.inj (hkeys.symm.trans hkeys')
    have htable' : element.table = some name := hq.table.trans htable
    have huniform : r.uniformTable? c = some foreign :=
      (hr.uniformTable?_eq hdescribes).trans hforeign
    rw [← primaryKeys_eq hdescribes, ForeignKey.ofFields_eq]
    exact ⟨c, .inverse hc hd hjoin hdatabase howns' helement href htable' huniform hfields⟩
  · have huniform : r.uniformTable? c = some foreign :=
      (hr.uniformTable?_eq hdescribes).trans hforeign
    rw [← primaryKeys_eq hdescribes, ForeignKey.ofColumns_eq]
    exact ⟨c, .owner hc hd hjoin hdatabase howns' huniform⟩
  · have huniform : r.uniformTable? element = some foreign :=
      (hr.uniformTable?_eq hq).trans hforeign
    rw [← primaryKeys_eq hq, ForeignKey.ofColumns_eq]
    exact ⟨element, .element hc hd hjoin hdatabase howns' helement href huniform⟩

/-- A described reference asks for the constraint that it was planned with. -/
theorem constrains_of_reference (hr : r.ResolvedIn decls checks h s changes)
    (hdescribes : s.Describes p c) (hc : c ∈ r.classes) {a : EffectiveAssociation}
    {reference : ReferenceDescriptor} {part : List SchemaChange} {name : String}
    {fk : ForeignKey} (hd : reference ∈ c.references)
    (hplan : s.resolveReference p.decl a = .ok (reference, part))
    (hkey : .foreignKey name fk ∈ part) : ∃ target, r.Constrains name target fk := by
  obtain ⟨target, keys, hresolved⟩ := Scope.resolveReference_eq_ok hplan
  obtain ⟨q, found, hfound, hq, rfl, href⟩ :=
    hr.exists_describes hresolved.declared hresolved.persistent
  obtain ⟨hdatabase, table, foreign, htable, hforeign, heq⟩ := (hresolved.mem_changes _).mp hkey
  obtain ⟨rfl, rfl⟩ := SchemaChange.foreignKey.inj heq
  have htable' : c.table = some name := hdescribes.table.trans htable
  have huniform : r.uniformTable? found = some foreign :=
    (hr.uniformTable?_eq hq).trans hforeign
  have hfields : reference.foreignKeys.map c.field? = keys.map some :=
    Scope.map_field?_of_mapM hdescribes hresolved.trimmed hresolved.keys_eq
  rw [← primaryKeys_eq hq, ForeignKey.ofFields_eq]
  exact ⟨found, .reference hc hd hdatabase hfound href htable' huniform hfields⟩

theorem eq_of_name_eq (hr : r.ResolvedIn decls checks h s changes) (hc : c ∈ r.classes)
    (hd : d ∈ r.classes) (hname : c.name = d.name) : c = d :=
  List.inj_on_of_nodup_map hr.nodup_names hc hd hname

/-- Fields found under the same names are the same fields. -/
theorem keys_unique {names : List String} {keys others : List FieldDescriptor}
    (hkeys : names.map c.field? = keys.map some) (hothers : names.map c.field? = others.map some) :
    keys = others :=
  List.map_injective_iff.mpr (Option.some_injective _) (hkeys.symm.trans hothers)

/-- The association behind a described reference, with its target and its keys. -/
theorem exists_resolvedReference (hr : r.ResolvedIn decls checks h s changes)
    {reference : ReferenceDescriptor} (hc : c ∈ r.classes) (hd : reference ∈ c.references)
    (htarget : target ∈ r.classes) (hname : target.name = reference.classRef) :
    ∃ p q a part keys, s.Describes p c ∧ s.Describes q target ∧
      a ∈ (s.membersOf p.decl).associations ∧
      s.associationPlan p.decl a = .ok (.reference reference, part) ∧
      s.ResolvedReference p.decl a reference part q.decl keys ∧
      reference.foreignKeys.map c.field? = keys.map some := by
  obtain ⟨p, hp⟩ := Scope.exists_describes_of_mem hr.planned hc
  obtain ⟨a, ha, part, hkind, hplan⟩ := hp.exists_of_mem_references hd
  obtain ⟨found, keys, hresolved⟩ := Scope.resolveReference_eq_ok hplan
  obtain ⟨q, hq⟩ := Scope.exists_describes_of_mem hr.planned htarget
  obtain rfl : q.decl = found := hr.decl_eq hq (hname ▸ hresolved.declared)
  exact ⟨p, q, a, part, keys, hp, hq, ha,
    Scope.associationPlan_eq_ok_iff.mpr (Or.inr ⟨hkind, reference, rfl, hplan⟩), hresolved,
    Scope.map_field?_of_mapM hp hresolved.trimmed hresolved.keys_eq⟩

/-- The association behind a described collection, with its element class. -/
theorem exists_resolvedCollection (hr : r.ResolvedIn decls checks h s changes)
    {collection : CollectionDescriptor} (hc : c ∈ r.classes) (hd : collection ∈ c.collections) :
    ∃ p q a part options, ∃ element ∈ r.classes, s.Describes p c ∧ s.Describes q element ∧
      element.name = collection.elementClassRef ∧ a ∈ (s.membersOf p.decl).associations ∧
      s.associationPlan p.decl a = .ok (.collection collection, part) ∧
      s.ResolvedCollection p.decl a collection part options q.decl := by
  obtain ⟨p, hp⟩ := Scope.exists_describes_of_mem hr.planned hc
  obtain ⟨a, ha, part, hkind, hplan⟩ := hp.exists_of_mem_collections hd
  obtain ⟨options, q, element, helement, hq, href, hresolved⟩ := hr.exists_element hplan
  exact ⟨p, q, a, part, options, element, helement, hp, hq, href, ha,
    Scope.associationPlan_eq_ok_iff.mpr (Or.inl ⟨hkind, collection, rfl, hplan⟩), hresolved⟩

/-- What a class asks for is planned with one of its associations. -/
theorem exists_part_of_constrains (hr : r.ResolvedIn decls checks h s changes) {name : String}
    {fk : ForeignKey} (hconstrains : r.Constrains name target fk) :
    ∃ p ∈ s.classes, ∃ a ∈ (s.membersOf p.decl).associations, ∃ association part,
      s.associationPlan p.decl a = .ok (association, part) ∧ .foreignKey name fk ∈ part := by
  -- one case for each way to a constraint; the plan of its association states it
  cases hconstrains with
  | @reference c target d _ foreign keys hc hd hdatabase htarget hname htable hforeign hkeys =>
    obtain ⟨p, q, a, part, keys', hp, hq, ha, hplan, hresolved, hkeys'⟩ :=
      hr.exists_resolvedReference hc hd htarget hname
    obtain rfl := keys_unique hkeys hkeys'
    have htable' : s.tableOf p.decl = some name := hp.table.symm.trans htable
    have hforeign' : s.uniformTable q.decl = some foreign :=
      (hr.uniformTable?_eq hq).symm.trans hforeign
    rw [← ForeignKey.ofFields_eq]
    have hmem : .foreignKey name (.ofFields foreign keys target.primaryKeys) ∈ part := by
      rw [primaryKeys_eq hq]
      exact (hresolved.mem_changes _).mpr ⟨hdatabase, name, foreign, htable', hforeign', rfl⟩
    exact ⟨p, hp.mem, a, ha, .reference d, part, hplan, hmem⟩
  | @inverse c element d _ foreign keys hc hd hjoin hdatabase howns helement hname htable hforeign
      hkeys =>
    obtain ⟨p, q, a, part, options, found, hfound, hp, hq, href, ha, hplan, hresolved⟩ :=
      hr.exists_resolvedCollection hc hd
    obtain rfl := hr.eq_of_name_eq hfound helement (href.trans hname.symm)
    obtain ⟨keys', hfields, -, hkeys'⟩ := exists_keys hq hresolved hjoin
    obtain rfl := keys_unique hkeys hkeys'
    have howns' := (hr.ownsConstraints_iff hp hresolved.declaredIn_eq).mp howns
    have htable' : s.tableOf q.decl = some name := hq.table.symm.trans htable
    have hforeign' : s.uniformTable p.decl = some foreign :=
      (hr.uniformTable?_eq hp).symm.trans hforeign
    rw [← ForeignKey.ofFields_eq]
    have hmem : .foreignKey name (.ofFields foreign keys target.primaryKeys) ∈ part := by
      rw [primaryKeys_eq hp]
      exact hresolved.foreignKey_mem_iff.mpr
        ⟨hdatabase, howns', Or.inl ⟨hjoin, foreign, keys, htable', hforeign', hfields, rfl⟩⟩
    exact ⟨p, hp.mem, a, ha, .collection d, part, hplan, hmem⟩
  | @owner c d _ foreign hc hd hjoin hdatabase howns hforeign =>
    obtain ⟨p, q, a, part, options, found, hfound, hp, hq, href, ha, hplan, hresolved⟩ :=
      hr.exists_resolvedCollection hc hd
    have howns' := (hr.ownsConstraints_iff hp hresolved.declaredIn_eq).mp howns
    have hforeign' : s.uniformTable p.decl = some foreign :=
      (hr.uniformTable?_eq hp).symm.trans hforeign
    rw [← ForeignKey.ofColumns_eq]
    have hmem : .foreignKey name (.ofColumns foreign d.foreignKeys target.primaryKeys) ∈ part := by
      rw [primaryKeys_eq hp]
      exact hresolved.foreignKey_mem_iff.mpr
        ⟨hdatabase, howns', Or.inr ⟨hjoin, Or.inl ⟨foreign, hforeign', rfl⟩⟩⟩
    exact ⟨p, hp.mem, a, ha, .collection d, part, hplan, hmem⟩
  | @element c element d _ foreign hc hd hjoin hdatabase howns helement hname hforeign =>
    obtain ⟨p, q, a, part, options, found, hfound, hp, hq, href, ha, hplan, hresolved⟩ :=
      hr.exists_resolvedCollection hc hd
    obtain rfl := hr.eq_of_name_eq hfound helement (href.trans hname.symm)
    have howns' := (hr.ownsConstraints_iff hp hresolved.declaredIn_eq).mp howns
    have hforeign' : s.uniformTable q.decl = some foreign :=
      (hr.uniformTable?_eq hq).symm.trans hforeign
    rw [← ForeignKey.ofColumns_eq]
    have hmem : .foreignKey name (.ofColumns foreign d.remoteForeignKeys found.primaryKeys) ∈
        part := by
      rw [primaryKeys_eq hq]
      exact hresolved.foreignKey_mem_iff.mpr
        ⟨hdatabase, howns', Or.inr ⟨hjoin, Or.inr ⟨foreign, hforeign', rfl⟩⟩⟩
    exact ⟨p, hp.mem, a, ha, .collection d, part, hplan, hmem⟩

/-- The constraints declared for a table are those that the classes ask for. -/
theorem mem_constraintsOf_iff (hr : r.ResolvedIn decls checks h s changes) {table : String}
    {fk : ForeignKey} :
    fk ∈ SchemaChange.constraintsOf changes table ↔
      ∃ name target, r.Constrains name target fk ∧ sameTable name table = true := by
  rw [SchemaChange.mem_constraintsOf_iff]
  constructor
  · intro hdeclared
    obtain ⟨name, hmem, htable⟩ := hdeclared
    rcases (Scope.mem_plan_iff hr.planned).mp hmem with ⟨p, hp, part, hpart, hkey⟩ |
      ⟨p, hp, a, ha, association, part, hplan, hkey⟩
    · exact absurd hkey (Scope.foreignKey_not_mem_tableChanges hpart)
    · obtain ⟨c, hc, hdescribes⟩ := Scope.exists_mem_describes hr.planned hp
      have hassociation : association ∈ c.associations := (List.of_mem_zip
        (hdescribes.mem_zip_associations_iff.mpr ⟨ha, part, hplan⟩)).2
      rcases Scope.associationPlan_eq_ok_iff.mp hplan with ⟨-, collection, rfl, hcollection⟩ |
        ⟨-, reference, rfl, hreference⟩
      · have hlisted : collection ∈ c.collections :=
          List.mem_filterMap.mpr ⟨_, hassociation, rfl⟩
        obtain ⟨target, hconstrains⟩ :=
          hr.constrains_of_collection hdescribes hc hlisted hcollection hkey
        exact ⟨name, target, hconstrains, htable⟩
      · have hlisted : reference ∈ c.references :=
          List.mem_filterMap.mpr ⟨_, hassociation, rfl⟩
        obtain ⟨target, hconstrains⟩ :=
          hr.constrains_of_reference hdescribes hc hlisted hreference hkey
        exact ⟨name, target, hconstrains, htable⟩
  · intro hasked
    obtain ⟨name, target, hconstrains, htable⟩ := hasked
    have hmem : .foreignKey name fk ∈ changes :=
      (Scope.mem_plan_iff hr.planned).mpr (Or.inr (hr.exists_part_of_constrains hconstrains))
    exact ⟨name, hmem, htable⟩

end Repository.ResolvedIn

/-- The columns of a constraint, each with the key it leads to, are columns that the classes ask
for in a table, with the types of these keys. -/
structure ForeignKey.LeadsFrom (fk : ForeignKey) (contributes : Column → Prop)
    (keys : List FieldDescriptor) (entries : List (Column × FieldDescriptor)) : Prop where
  references : fk.references = entries.map fun entry ↦ (entry.1.name, entry.2.column)
  keys_eq : entries.map (·.2) = keys
  contributed : ∀ entry ∈ entries, contributes entry.1 ∧ entry.1.jdbcType = entry.2.jdbcType

namespace ForeignKey

variable {contributes : Column → Prop} {keys primaryKeys : List FieldDescriptor}
  {columns : List String} {foreign : String}

theorem leadsFrom_ofFields (hmatch : KeysMatch keys primaryKeys)
    (hkeys : ∀ key ∈ keys, contributes key.toColumn) :
    (ofFields foreign keys primaryKeys).LeadsFrom contributes primaryKeys
      ((keys.zip primaryKeys).map fun pair ↦ (pair.1.toColumn, pair.2)) := by
  obtain ⟨hlength, htypes⟩ := List.forall₂_iff_zip.mp hmatch
  refine ⟨?_, ?_, fun entry hentry ↦ ?_⟩
  · rw [List.map_map]
    rfl
  · rw [List.map_map]
    exact List.map_snd_zip hlength.ge
  · obtain ⟨⟨key, primaryKey⟩, hpair, rfl⟩ := List.mem_map.mp hentry
    exact ⟨hkeys key (List.of_mem_zip hpair).1, htypes hpair⟩

theorem leadsFrom_ofColumns (isKey : Bool) (hlength : columns.length = primaryKeys.length)
    (hcolumns : ∀ pair ∈ columns.zip primaryKeys, contributes (pair.2.joinColumn pair.1 isKey)) :
    (ofColumns foreign columns primaryKeys).LeadsFrom contributes primaryKeys
      ((columns.zip primaryKeys).map fun pair ↦ (pair.2.joinColumn pair.1 isKey, pair.2)) := by
  refine ⟨?_, ?_, fun entry hentry ↦ ?_⟩
  · rw [List.map_map]
    rfl
  · rw [List.map_map]
    exact List.map_snd_zip hlength.ge
  · obtain ⟨pair, hpair, rfl⟩ := List.mem_map.mp hentry
    exact ⟨hcolumns pair hpair, rfl⟩

end ForeignKey

namespace Repository

variable {r : Repository} {decls : List ClassDecl} {checks : ChecksMode} {h : Hierarchy}
  {s : Scope} {changes : List SchemaChange} {c d target : ClassDescriptor} {p q : PersistentClass}
  {name table : String} {fk : ForeignKey} {a : Column} {t : Table} {members : MemberTable}

theorem leadsFrom_congr {keys : List FieldDescriptor} {entries : List (Column × FieldDescriptor)}
    (hleads : fk.LeadsFrom (r.Contributes members name) keys entries)
    (hname : sameTable name table = true) :
    fk.LeadsFrom (r.Contributes members table) keys entries :=
  ⟨hleads.references, hleads.keys_eq, fun entry hentry ↦
    ⟨(hleads.contributed entry hentry).1.congr hname, (hleads.contributed entry hentry).2⟩⟩

theorem Constrains.mem_classes (h : r.Constrains name target fk) : target ∈ r.classes := by
  cases h with
  | reference _ _ _ htarget => exact htarget
  | inverse hc => exact hc
  | owner hc => exact hc
  | element _ _ _ _ _ helement => exact helement

/-- A constraint names the one table that its target is stored in. -/
theorem Constrains.uniformTable?_eq (h : r.Constrains name target fk) :
    r.uniformTable? target = some fk.foreignTable := by
  cases h with
  | reference _ _ _ _ _ _ hforeign => exact hforeign
  | inverse _ _ _ _ _ _ _ _ hforeign => exact hforeign
  | owner _ _ _ _ _ hforeign => exact hforeign
  | element _ _ _ _ _ _ _ hforeign => exact hforeign

theorem mem_fields_of_map_field? {names : List String} {keys : List FieldDescriptor}
    (hkeys : names.map c.field? = keys.map some) : ∀ key ∈ keys, key ∈ c.fields := by
  intro key hkey
  have hmem : some key ∈ names.map c.field? := hkeys ▸ List.mem_map_of_mem hkey
  obtain ⟨name, -, hfound⟩ := List.mem_map.mp hmem
  exact List.mem_of_find?_eq_some hfound

/-- A class with a table of its own is stored in no other table. -/
theorem uniformTable?_of_table (htable : c.table = some table) {foreign : String}
    (huniform : r.uniformTable? c = some foreign) : foreign = table := by
  have htables : r.tablesOf c = table :: (c.extents.filterMap r.find?).filterMap (·.table) := by
    rw [tablesOf, List.filterMap_cons, htable]
  rw [uniformTable?, htables] at huniform
  dsimp only at huniform
  split at huniform
  · exact (Option.some.inj huniform).symm
  · exact absurd huniform (by simp)

/-- The primary key of a class with a table of its own has its columns there. -/
theorem keyIsStored_of_table (hc : c ∈ r.classes) (htable : c.table = some table) :
    r.KeyIsStored members c := by
  intro foreign huniform key hkey
  obtain rfl := uniformTable?_of_table htable huniform
  exact ⟨key.toColumn, .of_field hc htable (sameTable_self _) (List.mem_of_mem_filter hkey),
    Text.sameName_self _, rfl⟩

namespace ResolvedIn

/-- The columns of a constraint are there in the table that holds it. -/
theorem exists_leadsFrom (hr : r.ResolvedIn decls checks h s changes)
    (hconstrains : r.Constrains name target fk) :
    ∃ entries, fk.LeadsFrom (r.Contributes s.members name) target.primaryKeys entries := by
  cases hconstrains with
  | @reference c target d _ foreign keys hc hd hdatabase htarget hname htable hforeign hkeys =>
    obtain ⟨p, q, a, part, keys', hp, hq, -, -, hresolved, hkeys'⟩ :=
      hr.exists_resolvedReference hc hd htarget hname
    obtain rfl := keys_unique hkeys hkeys'
    rw [← ForeignKey.ofFields_eq]
    refine ⟨_, ForeignKey.leadsFrom_ofFields (primaryKeys_eq hq ▸ hresolved.keysMatch)
      fun key hkey ↦ ?_⟩
    exact .of_field hc htable (sameTable_self _) (mem_fields_of_map_field? hkeys key hkey)
  | @inverse c element d _ foreign keys hc hd hjoin hdatabase howns helement hname htable hforeign
      hkeys =>
    obtain ⟨p, q, a, part, options, found, hfound, hp, hq, href, -, -, hresolved⟩ :=
      hr.exists_resolvedCollection hc hd
    obtain rfl := hr.eq_of_name_eq hfound helement (href.trans hname.symm)
    obtain ⟨keys', -, hmatch, hkeys'⟩ := exists_keys hq hresolved hjoin
    obtain rfl := keys_unique hkeys hkeys'
    rw [← ForeignKey.ofFields_eq]
    refine ⟨_, ForeignKey.leadsFrom_ofFields (primaryKeys_eq hp ▸ hmatch) fun key hkey ↦ ?_⟩
    exact .of_field helement htable (sameTable_self _) (mem_fields_of_map_field? hkeys key hkey)
  | @owner c d _ foreign hc hd hjoin hdatabase howns hforeign =>
    obtain ⟨p, q, a, part, options, element, helement, hp, hq, href, ha, hplan, hresolved⟩ :=
      hr.exists_resolvedCollection hc hd
    have hmem : (a, .collection d) ∈ target.resolved s.members := by
      rw [resolved_eq hp, hp.mem_zip_associations_iff]
      exact ⟨ha, part, hplan⟩
    rw [← ForeignKey.ofColumns_eq]
    refine ⟨_, ForeignKey.leadsFrom_ofColumns options.indirectionTablePrimaryKeys
      (primaryKeys_eq hp ▸ (hresolved.length_eq hjoin).1) fun pair hpair ↦ ?_⟩
    exact .of_joinPair hc hmem hjoin (sameTable_self _) (hp.name ▸ hresolved.parsed) helement href
      (List.mem_append_left _ hpair)
  | @element c element d _ foreign hc hd hjoin hdatabase howns helement hname hforeign =>
    obtain ⟨p, q, a, part, options, found, hfound, hp, hq, href, ha, hplan, hresolved⟩ :=
      hr.exists_resolvedCollection hc hd
    obtain rfl := hr.eq_of_name_eq hfound helement (href.trans hname.symm)
    have hmem : (a, .collection d) ∈ c.resolved s.members := by
      rw [resolved_eq hp, hp.mem_zip_associations_iff]
      exact ⟨ha, part, hplan⟩
    rw [← ForeignKey.ofColumns_eq]
    refine ⟨_, ForeignKey.leadsFrom_ofColumns options.indirectionTablePrimaryKeys
      (primaryKeys_eq hq ▸ (hresolved.length_eq hjoin).2) fun pair hpair ↦ ?_⟩
    exact .of_joinPair hc hmem hjoin (sameTable_self _) (hp.name ▸ hresolved.parsed) helement href
      (List.mem_append_right _ hpair)

/-- A table that a change names is there. -/
theorem exists_table (hr : r.ResolvedIn decls checks h s changes) {change : SchemaChange}
    (hchange : change ∈ changes) :
    ∃ t ∈ r.schema.tables, sameTable change.tableName t.name = true :=
  SchemaChange.exists_table_of_mem hr.applied hchange

/-- The table that a constraint is asked for in is there. -/
theorem exists_table_of_constrains (hr : r.ResolvedIn decls checks h s changes)
    (hconstrains : r.Constrains name target fk) :
    ∃ t ∈ r.schema.tables, sameTable name t.name = true := by
  have hchange : .foreignKey name fk ∈ changes :=
    (Scope.mem_plan_iff hr.planned).mpr (Or.inr (hr.exists_part_of_constrains hconstrains))
  obtain ⟨t, ht, hname⟩ := hr.exists_table hchange
  exact ⟨t, ht, hname⟩

/-- A constraint that is asked for in a table is stated there. -/
theorem exists_stated (hr : r.ResolvedIn decls checks h s changes)
    (hconstrains : r.Constrains name target fk) (ht : t ∈ r.schema.tables)
    (hname : sameTable name t.name = true) :
    ∃ stated ∈ t.foreignKeys, Table.sameConstraint stated fk = true := by
  have hmade := SchemaChange.made_of_applyAll hr.applied
  have hdeclared : fk ∈ SchemaChange.constraintsOf changes t.name :=
    hr.mem_constraintsOf_iff.mpr ⟨name, target, hconstrains, hname⟩
  exact (hmade.reflects t ht).stated fk hdeclared

/-- A column that is asked for in a table is there, with the type that is asked for. -/
theorem exists_column (hr : r.ResolvedIn decls checks h s changes) (ht : t ∈ r.schema.tables)
    (ha : r.Contributes s.members t.name a) :
    ∃ column ∈ t.columns, Text.sameName column.name a.name = true ∧
      column.jdbcType = a.jdbcType := by
  have hmade := SchemaChange.made_of_applyAll hr.applied
  obtain ⟨column, hcolumn, hsame⟩ :=
    (hmade.reflects t ht).complete a (hr.mem_columnsOf_iff.mpr ha)
  exact ⟨column, hcolumn, Text.sameName_symm hsame,
    (hr.exactSchema.types t ht column hcolumn a ha hsame).1.symm⟩

/-- The pairs of a constraint connect exactly when the keys it leads to have their columns in the
table it names. -/
theorem connects_iff (hr : r.ResolvedIn decls checks h s changes) (ht : t ∈ r.schema.tables)
    {keys : List FieldDescriptor} {entries : List (Column × FieldDescriptor)}
    (hleads : fk.LeadsFrom (r.Contributes s.members t.name) keys entries) :
    (∀ pair ∈ fk.references, r.schema.Connects t table pair) ↔
      ∀ key ∈ keys, ∃ a, r.Contributes s.members table a ∧
        Text.sameName a.name key.column = true ∧ a.jdbcType = key.jdbcType := by
  have hexact := hr.exactSchema
  rw [hleads.references, ← hleads.keys_eq, List.forall_mem_map, List.forall_mem_map]
  refine forall₂_congr fun entry hentry ↦ ?_
  obtain ⟨hcontributes, htype⟩ := hleads.contributed entry hentry
  constructor
  · intro hconnects
    obtain ⟨column, hcolumn, hname, foreign, hforeign, htable, other, hother, hname', htype'⟩ :=
      hconnects
    obtain ⟨a, ha, hsame⟩ := hexact.contributed foreign hforeign other hother
    refine ⟨a, ha.congr htable, Text.sameName_trans hsame hname', ?_⟩
    rw [(hexact.types foreign hforeign other hother a ha hsame).1, ← htype', ← htype]
    exact ((hexact.types t ht column hcolumn _ hcontributes (Text.sameName_symm hname)).1).symm
  · intro hstored
    obtain ⟨a, ha, hname, hkey⟩ := hstored
    obtain ⟨column, hcolumn, hsame, hcolumnType⟩ := hr.exists_column ht hcontributes
    obtain ⟨tableName, owner, hmem, htable⟩ :=
      SchemaChange.mem_columnsOf_iff.mp (hr.mem_columnsOf_iff.mpr ha)
    obtain ⟨foreign, hforeign, hsame'⟩ := hr.exists_table hmem
    have hforeignName : sameTable foreign.name table = true :=
      sameTable_trans (sameTable_symm hsame') htable
    obtain ⟨other, hother, hotherName, hotherType⟩ :=
      hr.exists_column hforeign (ha.congr (sameTable_symm hforeignName))
    exact ⟨column, hcolumn, hsame, foreign, hforeign, hforeignName, other, hother,
      Text.sameName_trans hotherName hname, by rw [hcolumnType, htype, hotherType, hkey]⟩

/-- The schema is connected exactly when each class without a table of its own that a constraint
leads to has kept its primary key in the table of its extents. -/
theorem connected_iff (hr : r.ResolvedIn decls checks h s changes) :
    r.schema.Connected ↔ ∀ name target fk, r.Constrains name target fk → target.table = none →
      r.KeyIsStored s.members target := by
  have hmade := SchemaChange.made_of_applyAll hr.applied
  constructor
  · intro hconnected name target fk hconstrains _ foreign huniform
    obtain rfl := Option.some.inj (hconstrains.uniformTable?_eq.symm.trans huniform)
    obtain ⟨entries, hleads⟩ := hr.exists_leadsFrom hconstrains
    obtain ⟨t, ht, hname⟩ := hr.exists_table_of_constrains hconstrains
    obtain ⟨stated, hstated, hsame⟩ := hr.exists_stated hconstrains ht hname
    obtain ⟨hforeign, hreferences⟩ := Bool.and_eq_true_iff.mp hsame
    have hpairs : ∀ pair ∈ fk.references, r.schema.Connects t stated.foreignTable pair := by
      rw [← eq_of_beq hreferences]
      exact hconnected t ht stated hstated
    intro key hkey
    obtain ⟨a, ha, hkey'⟩ := (hr.connects_iff ht (leadsFrom_congr hleads hname)).mp hpairs key hkey
    have hspelling : sameTable stated.foreignTable fk.foreignTable = true :=
      sameTable_iff.mpr (Text.lower_eq_of_sameName hforeign)
    exact ⟨a, ha.congr hspelling, hkey'⟩
  · intro hstored t ht fk hfk
    obtain ⟨name, target, hconstrains, hname⟩ :=
      hr.mem_constraintsOf_iff.mp ((hmade.reflects t ht).declared fk hfk)
    obtain ⟨entries, hleads⟩ := hr.exists_leadsFrom hconstrains
    have hkeys : r.KeyIsStored s.members target := by
      cases htable : target.table with
      | none => exact hstored name target fk hconstrains htable
      | some table => exact keyIsStored_of_table hconstrains.mem_classes htable
    exact (hr.connects_iff ht (leadsFrom_congr hleads hname)).mpr
      (hkeys fk.foreignTable hconstrains.uniformTable?_eq)

end ResolvedIn

end Repository

/-- No constraint of a resolved schema dangles exactly when each class that is only stored in the
table of its extents, and that a constraint leads to, finds its primary key there: each key field
has a column of its name and type in that table. -/
theorem schema_connected_iff {decls : List ClassDecl} {checks : ChecksMode} {databaseName : String}
    {r : Repository} (hr : resolveDeclarations decls checks databaseName = .ok r) :
    ∃ h members, Hierarchy.ofDeclarations decls = .ok h ∧ h.memberTable = .ok members ∧
      (r.schema.Connected ↔ ∀ name target fk, r.Constrains name target fk → target.table = none →
        r.KeyIsStored members target) := by
  obtain ⟨h, s, changes, hresolved⟩ := exists_resolvedIn hr
  exact ⟨h, s.members, hresolved.ofDeclarations, hresolved.built.members, hresolved.connected_iff⟩

/-- Orders lead to a party, parties are stored with persons, and a person keeps the key of a party
in a column of another name. -/
def renamedKey : List ClassDecl :=
  [{ name := "Party"
     kind := .interface
     tags := [⟨"ojb.class", [("generate-table-info", "false")]⟩]
     members := [⟨"id", "int", [⟨"ojb.field", [("primarykey", "true")]⟩]⟩] },
   { name := "Person"
     interfaces := ["Party"]
     tags := [⟨"ojb.class", []⟩,
       ⟨"ojb.modify-inherited", [("name", "id"), ("column", "PERSON_ID")]⟩] },
   { name := "Order"
     tags := [⟨"ojb.class", []⟩]
     members := [⟨"id", "int", [⟨"ojb.field", [("primarykey", "true")]⟩]⟩,
       ⟨"party", "Party", [⟨"ojb.reference", [("foreignkey", "id")]⟩]⟩] }]

theorem schema_connected_iff_renamedKey :
    ∃ r, resolveDeclarations renamedKey .strict "default" = .ok r ∧
      ∃ h members, Hierarchy.ofDeclarations renamedKey = .ok h ∧ h.memberTable = .ok members ∧
        (r.schema.Connected ↔ ∀ name target fk, r.Constrains name target fk →
          target.table = none → r.KeyIsStored members target) := by
  have hok : (resolveDeclarations renamedKey .strict "default").toBool = true := by
    decide +kernel
  obtain ⟨r, hr⟩ := exists_eq_ok_of_toBool hok
  exact ⟨r, hr, schema_connected_iff hr⟩

/-- The constraint of the orders names a column that the persons do not have. -/
theorem not_connected_renamedKey :
    ∃ r, resolveDeclarations renamedKey .strict "default" = .ok r ∧ ¬ r.schema.Connected := by
  have hdangles : (do
      let r ← resolveDeclarations renamedKey .strict "default"
      return decide r.schema.Connected) = .ok false := by
    decide +kernel
  obtain ⟨r, hr, hpure⟩ := bind_eq_ok_iff.mp hdangles
  exact ⟨r, hr, of_decide_eq_false (pure_eq_ok_iff.mp hpure)⟩

end ClassMap
