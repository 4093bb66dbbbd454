import ClassMap.Proofs.Resolution.Classes
import ClassMap.Proofs.Spelling.Schema
import ClassMap.Proofs.Spelling.Scope

/-!
What scopes that are spelled alike plan. Tables, columns and join tables are only ever copied into
the changes, joined with other text or compared without regard to case, so classes can be planned in
both scopes or in neither, and the changes are the same up to case.
-/

set_option autoImplicit false
set_option relaxedAutoImplicit false

namespace ClassMap

open Traversal

/-- Associations that are folded to the same differ in their tags at most. -/
theorem EffectiveAssociation.exists_of_folded_eq {a a' : EffectiveAssociation}
    (h : a.folded = a'.folded) : ∃ tag, a' = { a with tag } ∧ a.tag.folded = tag.folded := by
  refine ⟨a'.tag, ?_, congrArg EffectiveAssociation.tag h⟩
  cases a
  cases a'
  simp_all [folded]

/-! ### Changes -/

theorem FieldDescriptor.folded_toColumn (f : FieldDescriptor) :
    f.toColumn.folded = f.folded.toColumn := rfl

theorem FieldDescriptor.folded_joinColumn_congr {f g : FieldDescriptor} (h : f.folded = g.folded)
    (name : String) (isKey : Bool) :
    (f.joinColumn name isKey).folded = (g.joinColumn name isKey).folded := by
  have hfolded : ∀ f : FieldDescriptor,
      (f.joinColumn name isKey).folded = (f.folded.joinColumn name isKey).folded := fun _ ↦ rfl
  rw [hfolded, h, ← hfolded]

theorem ForeignKey.folded_ofFields (foreignTable : String)
    (keys primaryKeys : List FieldDescriptor) :
    (ofFields foreignTable keys primaryKeys).folded =
      ofFields (Text.foldLatin foreignTable) (keys.map FieldDescriptor.folded)
        (primaryKeys.map FieldDescriptor.folded) := by
  rw [ofFields, ofFields, folded, List.zip_map, List.map_map, List.map_map]
  rfl

theorem ForeignKey.folded_ofColumns (foreignTable : String) (columns : List String)
    (primaryKeys : List FieldDescriptor) :
    (ofColumns foreignTable columns primaryKeys).folded =
      ofColumns (Text.foldLatin foreignTable) (columns.map Text.foldLatin)
        (primaryKeys.map FieldDescriptor.folded) := by
  rw [ofColumns, ofColumns, folded, List.zip_map, List.map_map, List.map_map]
  rfl

/-- What a key is checked for is not its column. -/
theorem checkKeyMatch_folded (className member : String) (keys primaryKeys : List FieldDescriptor) :
    checkKeyMatch className member (keys.map FieldDescriptor.folded)
        (primaryKeys.map FieldDescriptor.folded) =
      checkKeyMatch className member keys primaryKeys := by
  have htypes : ∀ matched : List (FieldDescriptor × FieldDescriptor),
      checkKeyTypes className member
          (matched.map (Prod.map FieldDescriptor.folded FieldDescriptor.folded)) =
        checkKeyTypes className member matched := by
    intro matched
    induction matched with
    | nil => rfl
    | cons pair rest ih => exact congrArg (fun later ↦ _ >>= fun _ ↦ later) ih
  rw [checkKeyMatch, checkKeyMatch, List.length_map, List.length_map, List.zip_map, htypes]

namespace Scope

variable {s t : Scope} {c c' element element' : ClassDecl} {a a' : EffectiveAssociation}
  {table table' : String}

/-! ### Tables -/

theorem folded_fieldChanges (className table : String) (f : FieldDescriptor) :
    (fieldChanges className table f).map SchemaChange.folded =
      (fieldChanges className (Text.foldLatin table) f.folded).map SchemaChange.folded := by
  have hindexed : f.folded.indexed = f.indexed := rfl
  rw [fieldChanges, fieldChanges, hindexed]
  split
  · simp only [List.map_cons, List.map_nil, SchemaChange.folded, Index.folded,
      Text.foldLatin_append, Text.foldLatin_foldLatin, FieldDescriptor.folded_toColumn,
      FieldDescriptor.folded]
  · simp only [List.map_cons, List.map_nil, SchemaChange.folded, Text.foldLatin_foldLatin,
      FieldDescriptor.folded_toColumn, FieldDescriptor.folded]

namespace SpelledLike

theorem folded_columnChanges_eq (hsame : s.SpelledLike t) (hc : s.SameClass t c c')
    (htable : Text.foldLatin table = Text.foldLatin table') :
    (s.columnChanges c table).map SchemaChange.folded =
      (t.columnChanges c' table').map SchemaChange.folded := by
  obtain ⟨_, hoptions, -⟩ := hc.exists_options_eq
  have hfields : (s.fieldsOf c).map
        (fun f ↦ (fieldChanges c.name table f).map SchemaChange.folded) =
      (t.fieldsOf c').map fun f ↦ (fieldChanges c'.name table' f).map SchemaChange.folded := by
    refine map_eq_map_of_map_eq (hsame.fields c c' hc) fun f g hfg ↦ ?_
    rw [folded_fieldChanges, hc.name_eq, htable, hfg, ← folded_fieldChanges]
  rw [columnChanges, columnChanges, List.map_cons, List.map_cons, List.map_flatMap,
    List.map_flatMap, List.flatMap_def, List.flatMap_def, hfields, hoptions]
  simp only [SchemaChange.folded, htable]

theorem matches_index (hsame : s.SpelledLike t) (hc : s.SameClass t c c') {tag tag' : Tag}
    (htag : tag.folded = tag'.folded) :
    Matches Index.folded (s.index c tag) (t.index c' tag') := by
  have hoptions : IndexOptions.parse c.name tag = IndexOptions.parse c'.name tag' := by
    rw [← IndexOptions.parse_folded, htag, IndexOptions.parse_folded, hc.name_eq]
  rw [index, index, hoptions]
  refine .bind_same fun options _ ↦ ?_
  have hcolumns : Matches (List.map Text.foldLatin)
      (options.fields.mapM fun name ↦ do
        return (← s.field c name (.indexed options.name)).column)
      (options.fields.mapM fun name ↦ do
        return (← t.field c' name (.indexed options.name)).column) :=
    .mapM_same fun name ↦ (hsame.matches_field hc name _).bind fun f g _ _ hfg ↦
      .pure (congrArg FieldDescriptor.column hfg)
  refine hcolumns.bind fun columns columns' _ _ heq ↦ .pure ?_
  rw [Index.folded, Index.folded, heq]

/-- The table of a class with its columns and indices. -/
theorem matches_tableChanges (hsame : s.SpelledLike t) {p q : PersistentClass}
    (hpq : s.SameClass t p.decl q.decl) :
    Matches (List.map SchemaChange.folded) (s.tableChanges p) (t.tableChanges q) := by
  have htables := hsame.tableOf_eq hpq
  have htags : (p.decl.tagsNamed TagName.index).map Tag.folded =
      (q.decl.tagsNamed TagName.index).map Tag.folded := by
    rw [← ClassDecl.tagsNamed_folded, hpq.folded_eq, ClassDecl.tagsNamed_folded]
  rw [tableChanges, tableChanges]
  rcases option_cases_of_map_eq htables with ⟨hs, ht⟩ | ⟨table, table', hs, ht, htable⟩
  · rw [hs, ht]
    exact .ok rfl
  · rw [hs, ht]
    have hindices : Matches (List.map SchemaChange.folded)
        ((p.decl.tagsNamed TagName.index).mapM fun tag ↦ do
          return SchemaChange.index table (← s.index p.decl tag) p.decl.name)
        ((q.decl.tagsNamed TagName.index).mapM fun tag ↦ do
          return SchemaChange.index table' (← t.index q.decl tag) q.decl.name) := by
      refine Matches.mapM (forall₂_of_map_eq htags) fun tag tag' htag ↦ ?_
      refine (hsame.matches_index hpq htag.2.2).bind fun i j _ _ hij ↦ .pure ?_
      rw [SchemaChange.folded, SchemaChange.folded, htable, hij, hpq.name_eq]
    refine hindices.bind fun indices indices' _ _ heq ↦ .pure ?_
    rw [List.map_append, List.map_append, hsame.folded_columnChanges_eq hpq htable, heq]

/-! ### References -/

theorem areCompatible_eq (hsame : s.SpelledLike t) :
    s.hierarchy.areCompatible = t.hierarchy.areCompatible := by
  refine Hierarchy.areCompatible_congr ?_
  rw [← Hierarchy.isSubtypeName_folded, hsame.hierarchy, Hierarchy.isSubtypeName_folded]

theorem hierarchy_checkContainer_eq (hsame : s.SpelledLike t) :
    s.hierarchy.checkContainer = t.hierarchy.checkContainer := by
  refine Hierarchy.checkContainer_congr ?_ ?_
  · rw [← Hierarchy.isSubtypeName_folded, hsame.hierarchy, Hierarchy.isSubtypeName_folded]
  · rw [← Hierarchy.typeExists_folded, hsame.hierarchy, Hierarchy.typeExists_folded]

/-- The fields that a list of keys names. -/
theorem matches_keys (hsame : s.SpelledLike t) (hc : s.SameClass t c c') (names : List String)
    (use : FieldUse) :
    Matches (List.map FieldDescriptor.folded) (names.mapM fun key ↦ s.field c key use)
      (names.mapM fun key ↦ t.field c' key use) :=
  .mapM_same fun name ↦ hsame.matches_field hc name use

/-- The constraint between the tables of two classes, if both have one. -/
theorem folded_constraint_eq {on : Bool} {own own' foreign foreign' : Option String}
    {keys keys' primaryKeys primaryKeys' : List FieldDescriptor}
    (hown : own.map Text.foldLatin = own'.map Text.foldLatin)
    (hforeign : foreign.map Text.foldLatin = foreign'.map Text.foldLatin)
    (hkeys : keys.map FieldDescriptor.folded = keys'.map FieldDescriptor.folded)
    (hprimary : primaryKeys.map FieldDescriptor.folded =
      primaryKeys'.map FieldDescriptor.folded) :
    (match on, own, foreign with
      | true, some table, some foreign =>
        [SchemaChange.foreignKey table (.ofFields foreign keys primaryKeys)]
      | _, _, _ => []).map SchemaChange.folded =
    (match on, own', foreign' with
      | true, some table, some foreign =>
        [SchemaChange.foreignKey table (.ofFields foreign keys' primaryKeys')]
      | _, _, _ => []).map SchemaChange.folded := by
  cases on with
  | false => rfl
  | true =>
    rcases option_cases_of_map_eq hown with ⟨rfl, rfl⟩ | ⟨table, table', rfl, rfl, htable⟩
    · rfl
    · rcases option_cases_of_map_eq hforeign with ⟨rfl, rfl⟩ | ⟨name, name', rfl, rfl, hname⟩
      · rfl
      · simp only [List.map_cons, List.map_nil, SchemaChange.folded, ForeignKey.folded_ofFields,
          htable, hname, hkeys, hprimary]

theorem matches_resolveReference (hsame : s.SpelledLike t) (hc : s.SameClass t c c')
    (ha : a.folded = a'.folded) :
    Matches (fun planned ↦ planned.2.map SchemaChange.folded) (s.resolveReference c a)
      (t.resolveReference c' a') := by
  obtain ⟨tag, rfl, htag⟩ := EffectiveAssociation.exists_of_folded_eq ha
  have hoptions : ReferenceOptions.parse c.name a.tag = ReferenceOptions.parse c'.name tag := by
    rw [← ReferenceOptions.parse_folded, htag, ReferenceOptions.parse_folded, hc.name_eq]
  have htagName : a.tag.name = tag.name := by rw [← a.tag.name_folded, htag, tag.name_folded]
  have hname : ∀ options, targetName c a options = targetName c' { a with tag } options := by
    intro options
    rw [targetName, targetName, hc.name_eq, htagName]
    rfl
  have hcheck : ∀ options, s.checkTarget c a options = t.checkTarget c' { a with tag } options := by
    intro options
    rw [checkTarget, checkTarget, hsame.checks, hsame.areCompatible_eq, hc.name_eq]
    rfl
  rw [resolveReference, resolveReference, hoptions]
  refine .bind_same fun options _ ↦ ?_
  rw [hname]
  refine .bind_same fun name _ ↦ ?_
  rw [hcheck, hc.name_eq]
  refine (hsame.matches_persistentClass c'.name name (.target a.name)).bind
    fun target target' htarget htarget' heq ↦ .bind_same fun _ _ ↦ ?_
  have hd : s.SameClass t target target' :=
    ⟨mem_of_persistentClass htarget, mem_of_persistentClass htarget', heq⟩
  have hprimary := hsame.primaryKeys_eq hd
  refine (hsame.matches_keys hc options.foreignKeys (.referenceKey a.name)).bind
    fun keys keys' _ _ hkeys ↦ ?_
  have hmatched : checkKeyMatch c'.name a.name keys (s.primaryKeys target) =
      checkKeyMatch c'.name a.name keys' (t.primaryKeys target') := by
    rw [← checkKeyMatch_folded, hkeys, hprimary, checkKeyMatch_folded]
  simp only [hmatched]
  exact .bind_same fun _ _ ↦ .pure
    (folded_constraint_eq (hsame.tableOf_eq hc) (hsame.uniformTable_eq hd) hkeys hprimary)

/-! ### Collections -/

variable {options options' : CollectionOptions} {joinTable joinTable' : String}

theorem elementName_eq (hc : s.SameClass t c c') (ha : a.folded = a'.folded)
    (ho : options.folded = options'.folded) :
    elementName c a options = elementName c' a' options' := by
  obtain ⟨tag, rfl, -⟩ := EffectiveAssociation.exists_of_folded_eq ha
  obtain ⟨_, rfl, -⟩ := CollectionOptions.exists_of_folded_eq ho
  rw [elementName, elementName, hc.name_eq]
  rfl

theorem checkElement_eq (hsame : s.SpelledLike t) (hc : s.SameClass t c c')
    (ha : a.folded = a'.folded) (ho : options.folded = options'.folded) :
    s.checkElement c a options = t.checkElement c' a' options' := by
  obtain ⟨tag, rfl, -⟩ := EffectiveAssociation.exists_of_folded_eq ha
  obtain ⟨_, rfl, -⟩ := CollectionOptions.exists_of_folded_eq ho
  rw [checkElement, checkElement, hsame.checks, hsame.areCompatible_eq, hc.name_eq]
  rfl

theorem checkContainer_eq (hsame : s.SpelledLike t) (hc : s.SameClass t c c')
    (ha : a.folded = a'.folded) (ho : options.folded = options'.folded) :
    s.checkContainer c a options = t.checkContainer c' a' options' := by
  obtain ⟨tag, rfl, -⟩ := EffectiveAssociation.exists_of_folded_eq ha
  obtain ⟨_, rfl, -⟩ := CollectionOptions.exists_of_folded_eq ho
  rw [checkContainer, checkContainer, hsame.checks, hsame.hierarchy_checkContainer_eq, hc.name_eq]

theorem matches_elementClass (hsame : s.SpelledLike t) (hc : s.SameClass t c c')
    (ha : a.folded = a'.folded) (ho : options.folded = options'.folded) :
    Matches ClassDecl.folded (s.elementClass c a options) (t.elementClass c' a' options') := by
  have hmember : a.name = a'.name := by
    obtain ⟨tag, rfl, -⟩ := EffectiveAssociation.exists_of_folded_eq ha
    rfl
  rw [elementClass, elementClass, elementName_eq hc ha ho, hsame.checkElement_eq hc ha ho,
    hsame.checkContainer_eq hc ha ho, hc.name_eq, hmember]
  refine .bind_same fun name _ ↦ ?_
  refine (hsame.matches_persistentClass c'.name name (.element a'.name)).bind
    fun element element' _ _ heq ↦ ?_
  exact .bind_same fun _ _ ↦ .bind_same fun _ _ ↦ .pure heq

theorem ownsConstraints_eq (hsame : s.SpelledLike t) (hc : s.SameClass t c c')
    (ha : a.folded = a'.folded) : s.ownsConstraints c a = t.ownsConstraints c' a' := by
  obtain ⟨tag, rfl, -⟩ := EffectiveAssociation.exists_of_folded_eq ha
  have hnames : s.classes.map (·.decl.name) = t.classes.map (·.decl.name) :=
    map_eq_map_of_forall₂ hsame.classes fun _ _ hpq ↦ hpq.1.name_eq
  have hany := congrArg (List.any · (· == a.declaredIn)) hnames
  simp only [List.any_map] at hany
  rw [ownsConstraints, ownsConstraints, hc.name_eq]
  exact congrArg (fun there ↦ _ || !there) hany

theorem matches_inverseKeys (hsame : s.SpelledLike t) (hc : s.SameClass t c c')
    (he : s.SameClass t element element') (ha : a.folded = a'.folded)
    (ho : options.folded = options'.folded) :
    Matches (List.map SchemaChange.folded) (s.inverseKeys c element a options)
      (t.inverseKeys c' element' a' options') := by
  have howns := hsame.ownsConstraints_eq hc ha
  obtain ⟨tag, rfl, -⟩ := EffectiveAssociation.exists_of_folded_eq ha
  obtain ⟨_, rfl, -⟩ := CollectionOptions.exists_of_folded_eq ho
  have hprimary := hsame.primaryKeys_eq hc
  rw [inverseKeys, inverseKeys, howns, hc.name_eq]
  refine (hsame.matches_keys he options.foreignKeys (.inverseKey a.name c'.name)).bind
    fun keys keys' _ _ hkeys ↦ ?_
  have hmatched : checkKeyMatch c'.name a.name keys (s.primaryKeys c) =
      checkKeyMatch c'.name a.name keys' (t.primaryKeys c') := by
    rw [← checkKeyMatch_folded, hkeys, hprimary, checkKeyMatch_folded]
  simp only [hmatched]
  exact .bind_same fun _ _ ↦ .pure
    (folded_constraint_eq (hsame.tableOf_eq he) (hsame.uniformTable_eq hc) hkeys hprimary)

/-! ### Join tables -/

theorem matches_findSharing (className : String)
    (hjoin : Text.foldLatin joinTable = Text.foldLatin joinTable')
    {others others' : List EffectiveAssociation}
    (h : others.map EffectiveAssociation.folded = others'.map EffectiveAssociation.folded) :
    Matches (Option.map CollectionOptions.folded) (findSharing className joinTable others)
      (findSharing className joinTable' others') := by
  induction others generalizing others' with
  | nil =>
    obtain rfl := List.map_eq_nil_iff.mp h.symm
    exact .ok rfl
  | cons other rest ih =>
    cases others' with
    | nil => exact absurd h (by simp)
    | cons other' rest' =>
      obtain ⟨hother, hrest⟩ := List.cons.inj h
      have htag : other.tag.folded = other'.tag.folded := congrArg EffectiveAssociation.tag hother
      have hoptions : Matches CollectionOptions.folded (CollectionOptions.parse className other.tag)
          (CollectionOptions.parse className other'.tag) := by
        refine .of_map_eq ?_
        rw [← CollectionOptions.parse_folded, htag, CollectionOptions.parse_folded]
      rw [findSharing, findSharing]
      refine hoptions.bind fun options options' _ _ ho ↦ ?_
      have htable : options.indirectionTable.map Text.foldLatin =
          options'.indirectionTable.map Text.foldLatin :=
        congrArg CollectionOptions.indirectionTable ho
      rcases option_cases_of_map_eq htable with ⟨hs, ht⟩ | ⟨table, table', hs, ht, hfold⟩
      · rw [hs, ht]
        exact ih hrest
      · rw [hs, ht]
        refine .ite ?_ (.pure (congrArg some ho)) (ih hrest)
        rw [Text.sameName_iff, Text.sameName_iff, hfold, hjoin]

theorem matches_findReciprocal (hsame : s.SpelledLike t) (he : s.SameClass t element element')
    (ha : a.folded = a'.folded) (hjoin : Text.foldLatin joinTable = Text.foldLatin joinTable') :
    Matches (Option.map CollectionOptions.folded) (s.findReciprocal element a joinTable)
      (t.findReciprocal element' a' joinTable') := by
  obtain ⟨tag, rfl, -⟩ := EffectiveAssociation.exists_of_folded_eq ha
  have hassociations : (s.membersOf element).associations.map EffectiveAssociation.folded =
      (t.membersOf element').associations.map EffectiveAssociation.folded :=
    congrArg EffectiveMembers.associations (hsame.members element element' he)
  have hcounterparts : ∀ (s : Scope) (element : ClassDecl) (a : EffectiveAssociation),
      (s.counterparts element a).map EffectiveAssociation.folded =
        ((s.membersOf element).associations.map EffectiveAssociation.folded).filter fun other ↦
          other.isCollection && !(other.name == a.name && other.declaredIn == a.declaredIn) := by
    intro s element a
    rw [List.filter_map]
    rfl
  rw [findReciprocal, findReciprocal, he.name_eq]
  refine matches_findSharing element'.name hjoin ?_
  rw [hcounterparts, hcounterparts, hassociations]

/-- What is read of the other side of a collection does not depend on the spelling of tables. -/
theorem matches_remoteKeys (ho : options.folded = options'.folded)
    {reciprocal reciprocal' : Option CollectionOptions}
    (hr : reciprocal.map CollectionOptions.folded = reciprocal'.map CollectionOptions.folded) :
    Matches id (remoteKeys c element a options joinTable reciprocal)
      (remoteKeys c' element' a' options' joinTable' reciprocal') := by
  obtain ⟨_, rfl, -⟩ := CollectionOptions.exists_of_folded_eq ho
  refine .ite Iff.rfl (.ok rfl) ?_
  rcases option_cases_of_map_eq hr with ⟨rfl, rfl⟩ | ⟨other, _, rfl, rfl, hother⟩
  · exact .error _ _
  · obtain ⟨_, rfl, -⟩ := CollectionOptions.exists_of_folded_eq hother
    exact .ok rfl

theorem matches_checkAgreement (ho : options.folded = options'.folded)
    {reciprocal reciprocal' : Option CollectionOptions}
    (hr : reciprocal.map CollectionOptions.folded = reciprocal'.map CollectionOptions.folded) :
    Matches id (checkAgreement c element a options joinTable reciprocal)
      (checkAgreement c' element' a' options' joinTable' reciprocal') := by
  obtain ⟨_, rfl, -⟩ := CollectionOptions.exists_of_folded_eq ho
  rcases option_cases_of_map_eq hr with ⟨rfl, rfl⟩ | ⟨other, _, rfl, rfl, hother⟩
  · exact .ok rfl
  · obtain ⟨_, rfl, -⟩ := CollectionOptions.exists_of_folded_eq hother
    exact .ite Iff.rfl (.error _ _) (.ok rfl)

theorem matches_checkDisjoint (columns remote : List String) :
    Matches id (checkDisjoint c a joinTable columns remote)
      (checkDisjoint c' a' joinTable' columns remote) := by
  rw [checkDisjoint, checkDisjoint]
  cases columns.find? fun key ↦ remote.any (Text.sameName · key) with
  | none => exact .ok rfl
  | some shared => exact .error _ _

theorem folded_joinTableChanges_eq {indirectionTable : Option String} (hc : c.name = c'.name)
    (hjoin : Text.foldLatin joinTable = Text.foldLatin joinTable')
    {keys keys' : List (String × FieldDescriptor)}
    (hkeys : keys.map (Prod.map id FieldDescriptor.folded) =
      keys'.map (Prod.map id FieldDescriptor.folded)) :
    (joinTableChanges c options joinTable keys).map SchemaChange.folded =
      (joinTableChanges c' { options with indirectionTable } joinTable' keys').map
        SchemaChange.folded := by
  rw [joinTableChanges, joinTableChanges, List.map_cons, List.map_cons, List.map_map, List.map_map]
  rw [SchemaChange.folded, SchemaChange.folded, hjoin]
  refine congrArg _ ?_
  refine map_eq_map_of_map_eq hkeys fun key key' heq ↦ ?_
  obtain ⟨column, primaryKey⟩ := key
  obtain ⟨column', primaryKey'⟩ := key'
  obtain ⟨rfl, hprimary⟩ := Prod.mk.inj heq
  simp only [Function.comp_apply, SchemaChange.folded, hjoin, hc,
    FieldDescriptor.folded_joinColumn_congr hprimary, id]

/-- The constraint from a join table to the table of one side. -/
theorem folded_joinConstraint_eq {tables tables' : Option String}
    {primaryKeys primaryKeys' : List FieldDescriptor} (columns : List String)
    (hjoin : Text.foldLatin joinTable = Text.foldLatin joinTable')
    (htables : tables.map Text.foldLatin = tables'.map Text.foldLatin)
    (hprimary : primaryKeys.map FieldDescriptor.folded = primaryKeys'.map FieldDescriptor.folded) :
    (tables.toList.map fun table ↦
        SchemaChange.foreignKey joinTable (.ofColumns table columns primaryKeys)).map
          SchemaChange.folded =
      (tables'.toList.map fun table ↦
        SchemaChange.foreignKey joinTable' (.ofColumns table columns primaryKeys')).map
          SchemaChange.folded := by
  rcases option_cases_of_map_eq htables with ⟨rfl, rfl⟩ | ⟨table, table', rfl, rfl, htable⟩
  · rfl
  · simp only [Option.toList_some, List.map_cons, List.map_nil, SchemaChange.folded,
      ForeignKey.folded_ofColumns, hjoin, htable, hprimary]

theorem matches_joinKeys (hsame : s.SpelledLike t) (hc : s.SameClass t c c')
    (he : s.SameClass t element element') (ha : a.folded = a'.folded)
    (ho : options.folded = options'.folded)
    (hjoin : Text.foldLatin joinTable = Text.foldLatin joinTable') :
    Matches (fun keys ↦ (keys.1, keys.2.map SchemaChange.folded))
      (s.joinKeys c element a options joinTable)
      (t.joinKeys c' element' a' options' joinTable') := by
  have howns := hsame.ownsConstraints_eq hc ha
  have hown := hsame.primaryKeys_eq hc
  have helement := hsame.primaryKeys_eq he
  have hname : a.name = a'.name := by
    obtain ⟨tag, rfl, -⟩ := EffectiveAssociation.exists_of_folded_eq ha
    rfl
  have hlength : ∀ {fields fields' : List FieldDescriptor},
      fields.map FieldDescriptor.folded = fields'.map FieldDescriptor.folded →
        fields.length = fields'.length := by
    intro fields fields' h
    rw [← List.length_map FieldDescriptor.folded, h, List.length_map]
  rw [joinKeys, joinKeys]
  refine (hsame.matches_findReciprocal he ha hjoin).bind fun reciprocal reciprocal' _ _ hr ↦ ?_
  refine (matches_remoteKeys ho hr).bind fun remote remote' _ _ heq ↦ ?_
  obtain rfl : remote = remote' := heq
  refine (matches_checkAgreement ho hr).bind fun _ _ _ _ _ ↦ ?_
  obtain ⟨_, rfl, -⟩ := CollectionOptions.exists_of_folded_eq ho
  refine (matches_checkDisjoint options.foreignKeys remote).bind fun _ _ _ _ _ ↦ ?_
  simp only [hc.name_eq, hname, hlength hown, hlength helement, howns]
  refine .bind_same fun _ _ ↦ .bind_same fun _ _ ↦ .pure (congrArg (Prod.mk remote) ?_)
  have hkeys :
      (options.foreignKeys.zip (s.primaryKeys c) ++ remote.zip (s.primaryKeys element)).map
          (Prod.map id FieldDescriptor.folded) =
        (options.foreignKeys.zip (t.primaryKeys c') ++ remote.zip (t.primaryKeys element')).map
          (Prod.map id FieldDescriptor.folded) := by
    rw [List.map_append, List.map_append, ← List.zip_map, ← List.zip_map, ← List.zip_map,
      ← List.zip_map, hown, helement]
  rw [List.map_append, List.map_append, folded_joinTableChanges_eq hc.name_eq hjoin hkeys]
  refine congrArg _ ?_
  split
  · rw [List.map_append, List.map_append,
      folded_joinConstraint_eq _ hjoin (hsame.uniformTable_eq hc) hown,
      folded_joinConstraint_eq _ hjoin (hsame.uniformTable_eq he) helement]
  · rfl

theorem matches_collectionKeys (hsame : s.SpelledLike t) (hc : s.SameClass t c c')
    (he : s.SameClass t element element') (ha : a.folded = a'.folded)
    (ho : options.folded = options'.folded) :
    Matches (fun keys ↦ (keys.1, keys.2.map SchemaChange.folded))
      (s.collectionKeys c element a options) (t.collectionKeys c' element' a' options') := by
  have htable : options.indirectionTable.map Text.foldLatin =
      options'.indirectionTable.map Text.foldLatin :=
    congrArg CollectionOptions.indirectionTable ho
  rw [collectionKeys, collectionKeys]
  rcases option_cases_of_map_eq htable with ⟨hs, ht⟩ | ⟨joinTable, joinTable', hs, ht, hjoin⟩
  · rw [hs, ht]
    refine (hsame.matches_inverseKeys hc he ha ho).bind fun changes changes' _ _ heq ↦ .pure ?_
    rw [heq]
  · rw [hs, ht]
    exact hsame.matches_joinKeys hc he ha ho hjoin

theorem matches_checkOrder (hsame : s.SpelledLike t) (he : s.SameClass t element element')
    (ha : a.name = a'.name) (orderBy : List OrderBy) :
    Matches id (s.checkOrder element a orderBy) (t.checkOrder element' a' orderBy) := by
  rw [checkOrder, checkOrder, ha]
  exact .forM fun entry _ ↦ (hsame.matches_field he entry.field (.ordering a'.name)).discard

theorem matches_collectionPlan (hsame : s.SpelledLike t) (hc : s.SameClass t c c')
    (ha : a.folded = a'.folded) :
    Matches (fun planned ↦ planned.2.map SchemaChange.folded) (s.collectionPlan c a)
      (t.collectionPlan c' a') := by
  have htag : a.tag.folded = a'.tag.folded := congrArg EffectiveAssociation.tag ha
  have hname : a.name = a'.name := by
    obtain ⟨tag, rfl, -⟩ := EffectiveAssociation.exists_of_folded_eq ha
    rfl
  have hoptions : Matches CollectionOptions.folded (CollectionOptions.parse c.name a.tag)
      (CollectionOptions.parse c'.name a'.tag) := by
    refine .of_map_eq ?_
    rw [← CollectionOptions.parse_folded, htag, CollectionOptions.parse_folded, hc.name_eq]
  rw [collectionPlan, collectionPlan]
  refine hoptions.bind fun options options' _ _ ho ↦ ?_
  have horder : options.orderBy = options'.orderBy := by
    obtain ⟨_, rfl, -⟩ := CollectionOptions.exists_of_folded_eq ho
    rfl
  rw [elementName_eq hc ha ho, horder]
  refine (hsame.matches_elementClass hc ha ho).bind fun element element' helement helement' heq ↦ ?_
  have he : s.SameClass t element element' :=
    ⟨mem_of_elementClass helement, mem_of_elementClass helement', heq⟩
  refine (hsame.matches_collectionKeys hc he ha ho).bind fun keys keys' _ _ hkeys ↦ ?_
  refine (hsame.matches_checkOrder he hname options'.orderBy).bind fun _ _ _ _ _ ↦ ?_
  exact .bind_same fun _ _ ↦ .pure (congrArg Prod.snd hkeys)

theorem matches_associationPlan (hsame : s.SpelledLike t) (hc : s.SameClass t c c')
    (ha : a.folded = a'.folded) :
    Matches (fun planned ↦ planned.2.map SchemaChange.folded) (s.associationPlan c a)
      (t.associationPlan c' a') := by
  have hkind : a.isCollection = a'.isCollection := by
    obtain ⟨tag, rfl, -⟩ := EffectiveAssociation.exists_of_folded_eq ha
    rfl
  rw [associationPlan, associationPlan, hkind]
  split
  · exact (hsame.matches_collectionPlan hc ha).bind fun _ _ _ _ heq ↦ .pure heq
  · exact (hsame.matches_resolveReference hc ha).bind fun _ _ _ _ heq ↦ .pure heq

/-! ### Procedures -/

theorem matches_arguments (hsame : s.SpelledLike t) (hc : s.SameClass t c c') :
    Matches id (s.arguments c) (t.arguments c') := by
  have htags : c.tags.map Tag.folded = c'.tags.map Tag.folded := by
    rw [← c.tags_folded, hc.folded_eq, c'.tags_folded]
  refine Matches.foldlM (forall₂_of_map_eq htags)
    (fun tag tag' before before' htag hbefore ↦ ?_) rfl
  obtain rfl : before = before' := hbefore
  have hargument : argument? c tag = argument? c' tag' := by
    have hname : tag.name = tag'.name := by rw [← tag.name_folded, htag.2.2, tag'.name_folded]
    rw [argument?, argument?, hname, hc.name_eq, ← ArgumentOptions.parseRuntime_folded, htag.2.2,
      ArgumentOptions.parseRuntime_folded, ← ArgumentOptions.parseConstant_folded _ tag, htag.2.2,
      ArgumentOptions.parseConstant_folded]
  rw [addArgument, addArgument, hargument]
  refine .bind_same fun argument _ ↦ ?_
  cases argument with
  | none => exact .pure rfl
  | some argument =>
    have hcheck : Matches id (s.checkArgument c argument) (t.checkArgument c' argument) := by
      rw [checkArgument, checkArgument]
      split
      · exact (hsame.matches_field hc _ _).discard
      · exact .ok rfl
    simp only [hc.name_eq]
    split
    · exact .error _ _
    · exact hcheck.bind fun _ _ _ _ _ ↦ .pure rfl

theorem matches_procedure (hsame : s.SpelledLike t) (hc : s.SameClass t c c')
    (arguments : List ArgumentOptions) (kind : ProcedureKind) {tag tag' : Tag}
    (htag : tag.folded = tag'.folded) :
    Matches id (s.procedure c arguments kind tag) (t.procedure c' arguments kind tag') := by
  have hoptions : ProcedureOptions.parse c.name tag = ProcedureOptions.parse c'.name tag' := by
    rw [← ProcedureOptions.parse_folded, htag, ProcedureOptions.parse_folded, hc.name_eq]
  have hbind : ∀ name, bindArgument c name arguments = bindArgument c' name arguments := by
    intro name
    funext argument
    rw [bindArgument, bindArgument, hc.name_eq]
  rw [procedure, procedure, hoptions]
  refine .bind_same fun options _ ↦ ?_
  simp only [hbind]
  cases options.returnFieldRef with
  | none => exact .of_eq rfl
  | some field =>
    exact (hsame.matches_field hc field (.returned options.name)).discard.bind
      fun _ _ _ _ _ ↦ .of_eq rfl

theorem matches_procedures (hsame : s.SpelledLike t) (hc : s.SameClass t c c') :
    Matches id (s.procedures c) (t.procedures c') := by
  have htags : (procedureTags c).map (Prod.map id Tag.folded) =
      (procedureTags c').map (Prod.map id Tag.folded) := by
    have hfolded : ∀ c : ClassDecl,
        (procedureTags c).map (Prod.map id Tag.folded) = procedureTags c.folded := by
      intro c
      rw [procedureTags, procedureTags, c.tags_folded, List.filterMap_map, List.map_filterMap]
      refine List.filterMap_congr fun tag _ ↦ ?_
      rw [Option.map_map]
      rfl
    rw [hfolded, hc.folded_eq, ← hfolded]
  rw [procedures, procedures]
  refine (hsame.matches_arguments hc).bind fun arguments arguments' _ _ heq ↦ ?_
  obtain rfl : arguments = arguments' := heq
  have hall : Matches (List.map id)
      ((procedureTags c).mapM fun declared ↦ s.procedure c arguments declared.1 declared.2)
      ((procedureTags c').mapM fun declared ↦ t.procedure c' arguments declared.1 declared.2) := by
    refine Matches.mapM (forall₂_of_map_eq htags) fun declared declared' h ↦ ?_
    obtain ⟨kind, tag⟩ := declared
    obtain ⟨kind', tag'⟩ := declared'
    obtain ⟨rfl, htag⟩ := Prod.mk.inj h.2.2
    exact hsame.matches_procedure hc arguments kind htag
  rwa [List.map_id_fun] at hall

/-! ### Classes -/

theorem matches_classPlan (hsame : s.SpelledLike t) {p q : PersistentClass}
    (hpq : s.SameClass t p.decl q.decl) :
    Matches (fun planned ↦ planned.2.map SchemaChange.folded) (s.classPlan p) (t.classPlan q) := by
  have hassociations : (s.membersOf p.decl).associations.map EffectiveAssociation.folded =
      (t.membersOf q.decl).associations.map EffectiveAssociation.folded :=
    congrArg EffectiveMembers.associations (hsame.members p.decl q.decl hpq)
  rw [classPlan, classPlan]
  refine (Matches.mapM (forall₂_of_map_eq hassociations) fun a a' ha ↦
    hsame.matches_associationPlan hpq ha.2.2).bind fun parts parts' _ _ hparts ↦ ?_
  refine (hsame.matches_procedures hpq).bind fun _ _ _ _ _ ↦ .pure ?_
  rw [List.map_flatMap, List.map_flatMap, List.flatMap_def, List.flatMap_def, hparts]

/-- Scopes that are spelled alike are planned together, with the same changes up to case. -/
theorem matches_plan (hsame : s.SpelledLike t) :
    Matches (fun planned ↦ planned.2.map SchemaChange.folded) s.plan t.plan := by
  rw [plan, plan]
  refine (Matches.mapM hsame.classes fun p q hpq ↦ hsame.matches_tableChanges hpq.1).bind
    fun tables tables' _ _ htables ↦ ?_
  refine (Matches.mapM hsame.classes fun p q hpq ↦ hsame.matches_classPlan hpq.1).bind
    fun parts parts' _ _ hparts ↦ .pure ?_
  rw [List.map_append, List.map_append, List.map_flatten, List.map_flatten, htables,
    List.map_flatMap, List.map_flatMap, List.flatMap_def, List.flatMap_def, hparts]

end SpelledLike

end Scope

end ClassMap
