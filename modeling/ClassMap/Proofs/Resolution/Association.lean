import ClassMap.Proofs.Resolution.Plan
import ClassMap.Proofs.Text.Trim

/-!
What a planned association has gone through. The class it leads to is declared under exactly the
name that the descriptor keeps, every key is a field found by its name, and the keys match the
primary key they are paired with.
-/

set_option autoImplicit false
set_option relaxedAutoImplicit false

namespace ClassMap

open Traversal

/-- Keys paired one by one with a primary key of the same column types. -/
def KeysMatch (keys primaryKeys : List FieldDescriptor) : Prop :=
  List.Forall₂ (fun key primaryKey ↦ key.jdbcType = primaryKey.jdbcType) keys primaryKeys

theorem checkArity_eq_ok_iff {className member : String} {list : KeyList}
    {count primaryKeys : Nat} :
    checkArity className member list count primaryKeys = .ok () ↔ count = primaryKeys := by
  unfold checkArity
  split
  · rename_i heq
    simp [heq]
  · rename_i hne
    simp [hne]

theorem checkKeyMatch_eq_ok_iff {className member : String}
    {keys primaryKeys : List FieldDescriptor} :
    checkKeyMatch className member keys primaryKeys = .ok () ↔ KeysMatch keys primaryKeys := by
  unfold checkKeyMatch checkKeyTypes KeysMatch
  rw [bind_eq_ok_iff, List.forall₂_iff_zip]
  constructor
  · intro hcheck
    obtain ⟨⟨⟩, hlength, htypes⟩ := hcheck
    refine ⟨checkArity_eq_ok_iff.mp hlength, fun {key primaryKey} hmem ↦ ?_⟩
    have htype := forM_eq_ok_iff.mp htypes (key, primaryKey) hmem
    by_contra hne
    simp [hne] at htype
  · intro hmatch
    obtain ⟨hlength, htypes⟩ := hmatch
    refine ⟨(), checkArity_eq_ok_iff.mpr hlength, forM_eq_ok_iff.mpr fun pair hmem ↦ ?_⟩
    simp [htypes hmem]

theorem ReferenceOptions.parse_eq_ok {className : String} {tag : Tag} {options : ReferenceOptions}
    (h : parse className tag = .ok options) :
    options.classRef = (TagReader.mk className tag).text? "class-ref" ∧
      options.foreignKeys = (TagReader.mk className tag).entries "foreignkey" ∧
      options.foreignKeys ≠ [] := by
  simp only [parse, bind_eq_ok_iff, pure_eq_ok_iff] at h
  obtain ⟨keys, hkeys, _, -, _, -, _, -, _, -, _, -, _, -, _, -, _, -, rfl⟩ := h
  exact ⟨rfl, TagReader.entries_of_someEntries hkeys⟩

/-- How the options of a collection are read from its tag. -/
structure CollectionOptions.Read (r : TagReader) (options : CollectionOptions) : Prop where
  elementClassRef : options.elementClassRef = r.text? "element-class-ref"
  foreignKeys : options.foreignKeys = r.entries "foreignkey"
  nonempty : options.foreignKeys ≠ []
  remoteForeignKeys : options.remoteForeignKeys = r.entries "remote-foreignkey"
  indirectionTable : options.indirectionTable = r.text? "indirection-table"
  orderBy : parseOrderBy r = .ok options.orderBy

theorem CollectionOptions.parse_eq_ok {className : String} {tag : Tag}
    {options : CollectionOptions} (h : parse className tag = .ok options) :
    Read ⟨className, tag⟩ options := by
  simp only [parse, bind_eq_ok_iff, pure_eq_ok_iff] at h
  obtain ⟨keys, hkeys, orderBy, horderBy, _, -, _, -, _, -, _, -, _, -, _, -, _, -, _, -, _, -,
    rfl⟩ := h
  obtain ⟨hentries, hnonempty⟩ := TagReader.entries_of_someEntries hkeys
  exact ⟨rfl, hentries, hnonempty, rfl, rfl, horderBy⟩

namespace Scope

variable {s : Scope} {c target element : ClassDecl} {a : EffectiveAssociation}
  {changes : List SchemaChange} {name : String}

theorem field_eq_ok_iff {use : FieldUse} {f : FieldDescriptor} :
    s.field c name use = .ok f ↔ (s.fieldsOf c).find? (·.name == Text.trim name) = some f := by
  unfold field findField
  dsimp only
  split
  · rename_i g hg
    rw [hg]
    simp
  · rename_i hnone
    rw [hnone]
    split <;> simp

theorem field_eq_ok {use : FieldUse} {f : FieldDescriptor} (hname : Text.Trimmed name)
    (hf : s.field c name use = .ok f) : f ∈ s.fieldsOf c ∧ f.name = name := by
  rw [field_eq_ok_iff, show Text.trim name = name from hname] at hf
  exact ⟨List.mem_of_find?_eq_some hf, by simpa using List.find?_some hf⟩

theorem persistentClass_eq_ok {className : String} {use : ClassUse} (hname : Text.Trimmed name)
    (htarget : s.persistentClass className name use = .ok target) :
    s.hierarchy.declared? name = some target ∧ s.isPersistent target = true := by
  unfold persistentClass at htarget
  split at htarget
  · rename_i found hfound
    split at htarget
    · rename_i hpersistent
      obtain rfl := Except.ok.inj htarget
      rw [Hierarchy.find?, show Text.trim name = name from hname] at hfound
      exact ⟨hfound, hpersistent⟩
    · exact absurd htarget (by simp)
  · exact absurd htarget (by simp)

/-- A reference that has been resolved, with the class it leads to and the fields of its key. -/
structure ResolvedReference (s : Scope) (c : ClassDecl) (a : EffectiveAssociation)
    (d : ReferenceDescriptor) (changes : List SchemaChange) (target : ClassDecl)
    (keys : List FieldDescriptor) : Prop where
  name_eq : d.name = a.name
  declaredIn_eq : d.declaredIn = a.declaredIn
  declared : s.hierarchy.declared? d.classRef = some target
  persistent : s.isPersistent target = true
  nonempty : d.foreignKeys ≠ []
  trimmed : ∀ key ∈ d.foreignKeys, Text.Trimmed key
  keys_eq : (d.foreignKeys.mapM fun key ↦ s.field c key (.referenceKey a.name)) = .ok keys
  keysMatch : KeysMatch keys (s.primaryKeys target)
  mem_changes : ∀ change, change ∈ changes ↔ d.databaseForeignKey = true ∧
    ∃ table foreign, s.tableOf c = some table ∧ s.uniformTable target = some foreign ∧
      change = .foreignKey table (.ofFields foreign keys (s.primaryKeys target))

theorem trimmed_of_targetName {options : ReferenceOptions}
    (hoptions : ReferenceOptions.parse c.name a.tag = .ok options)
    (hname : targetName c a options = .ok name) : Text.Trimmed name := by
  unfold targetName at hname
  split at hname
  · rename_i found hfound
    obtain rfl := Except.ok.inj hname
    simp only [Option.orElse_eq_orElse, Option.orElse_eq_or, Option.or_eq_some_iff] at hfound
    rcases hfound with hgiven | ⟨-, hraw⟩
    · rw [(ReferenceOptions.parse_eq_ok hoptions).1] at hgiven
      exact TagReader.trimmed_of_text? hgiven
    · obtain ⟨type, -, rfl⟩ := Option.map_eq_some_iff.mp hraw
      exact MemberType.trimmed_rawName_parse type
  · exact absurd hname (by simp)

theorem resolveReference_eq_ok {d : ReferenceDescriptor}
    (hplan : s.resolveReference c a = .ok (d, changes)) :
    ∃ target keys, ResolvedReference s c a d changes target keys := by
  simp only [resolveReference, bind_eq_ok_iff, pure_eq_ok_iff, Prod.mk.injEq] at hplan
  obtain ⟨options, hoptions, name, hname, target, htarget, ⟨⟩, -, keys, hkeys, ⟨⟩, hmatch, rfl,
    rfl⟩ := hplan
  obtain ⟨-, hentries, hnonempty⟩ := ReferenceOptions.parse_eq_ok hoptions
  obtain ⟨hdeclared, hpersistent⟩ :=
    persistentClass_eq_ok (trimmed_of_targetName hoptions hname) htarget
  refine ⟨target, keys, rfl, rfl, hdeclared, hpersistent, hnonempty, ?_, hkeys,
    checkKeyMatch_eq_ok_iff.mp hmatch, fun change ↦ ?_⟩
  · exact fun key hkey ↦ TagReader.trimmed_of_mem_entries (hentries ▸ hkey)
  · cases options.databaseForeignKey <;> cases s.tableOf c <;> cases s.uniformTable target <;>
      simp

/-- A collection that has been resolved, with its options and its element class. -/
structure ResolvedCollection (s : Scope) (c : ClassDecl) (a : EffectiveAssociation)
    (d : CollectionDescriptor) (changes : List SchemaChange) (options : CollectionOptions)
    (element : ClassDecl) : Prop where
  parsed : CollectionOptions.parse c.name a.tag = .ok options
  descriptor : d = collectionDescriptor a options d.elementClassRef d.remoteForeignKeys
  declared : s.hierarchy.declared? d.elementClassRef = some element
  persistent : s.isPersistent element = true
  keys : s.collectionKeys c element a options = .ok (d.remoteForeignKeys, changes)
  ordered : s.checkOrder element a options.orderBy = .ok ()

namespace ResolvedCollection

variable {d : CollectionDescriptor} {options : CollectionOptions}

theorem declaredIn_eq (h : ResolvedCollection s c a d changes options element) :
    d.declaredIn = a.declaredIn := by
  rw [h.descriptor]
  rfl

theorem foreignKeys_eq (h : ResolvedCollection s c a d changes options element) :
    d.foreignKeys = options.foreignKeys := by
  rw [h.descriptor]
  rfl

theorem databaseForeignKey_eq (h : ResolvedCollection s c a d changes options element) :
    d.databaseForeignKey = options.databaseForeignKey := by
  rw [h.descriptor]
  rfl

theorem indirectionTable_eq (h : ResolvedCollection s c a d changes options element) :
    d.indirectionTable = options.indirectionTable := by
  rw [h.descriptor]
  rfl

theorem orderBy_eq (h : ResolvedCollection s c a d changes options element) :
    d.orderBy = options.orderBy := by
  rw [h.descriptor]
  rfl

/-- The keys are trimmed, as the entries of an option. -/
theorem trimmed (h : ResolvedCollection s c a d changes options element) :
    ∀ key ∈ d.foreignKeys, Text.Trimmed key := by
  intro key hkey
  rw [h.foreignKeys_eq, (CollectionOptions.parse_eq_ok h.parsed).foreignKeys] at hkey
  exact TagReader.trimmed_of_mem_entries hkey

end ResolvedCollection

theorem trimmed_of_elementName {options : CollectionOptions}
    (hoptions : CollectionOptions.parse c.name a.tag = .ok options)
    (hname : elementName c a options = .ok name) : Text.Trimmed name := by
  unfold elementName at hname
  split at hname
  · rename_i found hfound
    obtain rfl := Except.ok.inj hname
    simp only [Option.orElse_eq_orElse, Option.orElse_eq_or, Option.or_eq_some_iff] at hfound
    rcases hfound with hgiven | ⟨-, helement⟩
    · rw [(CollectionOptions.parse_eq_ok hoptions).elementClassRef] at hgiven
      exact TagReader.trimmed_of_text? hgiven
    · obtain ⟨type, -, htype⟩ := Option.bind_eq_some_iff.mp helement
      exact MemberType.trimmed_of_elementType?_parse htype
  · exact absurd hname (by simp)

theorem collectionPlan_eq_ok {d : CollectionDescriptor}
    (hplan : s.collectionPlan c a = .ok (d, changes)) :
    ∃ options element, ResolvedCollection s c a d changes options element := by
  simp only [collectionPlan, bind_eq_ok_iff, pure_eq_ok_iff, Prod.exists, Prod.mk.injEq] at hplan
  obtain ⟨options, hoptions, element, helement, remote, _, hkeys, ⟨⟩, horder, name, hname, rfl,
    rfl⟩ := hplan
  simp only [elementClass, bind_eq_ok_iff, pure_eq_ok_iff] at helement
  obtain ⟨_, hname', found, hfound, ⟨⟩, -, ⟨⟩, -, rfl⟩ := helement
  obtain rfl := Except.ok.inj (hname'.symm.trans hname)
  obtain ⟨hdeclared, hpersistent⟩ :=
    persistentClass_eq_ok (trimmed_of_elementName hoptions hname) hfound
  exact ⟨options, found, hoptions, rfl, hdeclared, hpersistent, hkeys, horder⟩

/-- The keys of a collection without a join table, in the element class. -/
theorem inverseKeys_eq_ok {options : CollectionOptions}
    (hkeys : s.inverseKeys c element a options = .ok changes) :
    ∃ keys, (options.foreignKeys.mapM fun key ↦
        s.field element key (.inverseKey a.name c.name)) = .ok keys ∧
      KeysMatch keys (s.primaryKeys c) ∧
      ∀ change, change ∈ changes ↔
        options.databaseForeignKey = true ∧ s.ownsConstraints c a = true ∧
          ∃ table foreign, s.tableOf element = some table ∧ s.uniformTable c = some foreign ∧
            change = .foreignKey table (.ofFields foreign keys (s.primaryKeys c)) := by
  simp only [inverseKeys, bind_eq_ok_iff, pure_eq_ok_iff] at hkeys
  obtain ⟨keys, hkeys, ⟨⟩, hmatch, rfl⟩ := hkeys
  refine ⟨keys, hkeys, checkKeyMatch_eq_ok_iff.mp hmatch, fun change ↦ ?_⟩
  cases options.databaseForeignKey <;> cases s.ownsConstraints c a <;>
    cases s.tableOf element <;> cases s.uniformTable c <;> simp

/-- The keys of a collection over a join table, and what the join table adds to the schema. -/
theorem joinKeys_eq_ok {options : CollectionOptions} {joinTable : String} {remote : List String}
    (hkeys : s.joinKeys c element a options joinTable = .ok (remote, changes)) :
    options.foreignKeys.length = (s.primaryKeys c).length ∧
      remote.length = (s.primaryKeys element).length ∧
      ∃ constraints, changes = joinTableChanges c options joinTable
          (options.foreignKeys.zip (s.primaryKeys c) ++ remote.zip (s.primaryKeys element)) ++
            constraints ∧
        ∀ change, change ∈ constraints ↔
          options.databaseForeignKey = true ∧ s.ownsConstraints c a = true ∧
            ((∃ foreign, s.uniformTable c = some foreign ∧ change = .foreignKey joinTable
                (.ofColumns foreign options.foreignKeys (s.primaryKeys c))) ∨
              ∃ foreign, s.uniformTable element = some foreign ∧ change = .foreignKey joinTable
                (.ofColumns foreign remote (s.primaryKeys element))) := by
  simp only [joinKeys, bind_eq_ok_iff, pure_eq_ok_iff, Prod.mk.injEq] at hkeys
  obtain ⟨_, -, _, -, ⟨⟩, -, ⟨⟩, -, ⟨⟩, hown, ⟨⟩, hremote, rfl, rfl⟩ := hkeys
  refine ⟨checkArity_eq_ok_iff.mp hown, checkArity_eq_ok_iff.mp hremote, _, rfl,
    fun change ↦ ?_⟩
  cases options.databaseForeignKey <;> cases s.ownsConstraints c a <;>
    simp [List.mem_append, List.mem_map, eq_comm]

end Scope

end ClassMap
