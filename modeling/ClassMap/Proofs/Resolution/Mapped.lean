import ClassMap.Proofs.MemberTable
import ClassMap.Proofs.Resolution.Mirrored

/-!
Resolution under a map of declarations. References, collections and procedures are resolved from
the options of their tags and from what the scope says of the classes they lead to, so each of them
comes to the same descriptor, the same schema and the same error in a scope that mirrors the first.
The checks of types only ask for names that are heeded: declared types, and names under which a class
was found before. The mapping as a whole is the same if the map keeps what the tags of a class say
and the effective members are read as before (`resolve_mapped`).
-/

set_option autoImplicit false
set_option relaxedAutoImplicit false

namespace ClassMap

open Traversal

/-- Whether a tag declares an argument of procedures. -/
def Scope.declaresArgument (tag : Tag) : Bool :=
  tag.name == TagName.runtimeArgument || tag.name == TagName.constantArgument

def Scope.argumentTags (c : ClassDecl) : List Tag :=
  c.tags.filter declaresArgument

/-- A map of declarations, with a map of their tags, that keeps all that is read of a class for its
procedures. -/
structure KeepsProcedures (φ : ClassDecl → ClassDecl) (ψ : Tag → Tag) : Prop where
  procedureTags : ∀ c,
    Scope.procedureTags (φ c) = (Scope.procedureTags c).map (Prod.map id ψ)
  argumentTags : ∀ c, Scope.argumentTags (φ c) = (Scope.argumentTags c).map ψ
  procedure : ∀ tag, Tag.Agree ProcedureOptions.keys tag (ψ tag)
  runtime : ∀ tag, Tag.Agree ArgumentOptions.runtimeKeys tag (ψ tag)
  constant : ∀ tag, Tag.Agree ArgumentOptions.constantKeys tag (ψ tag)

variable {φ : ClassDecl → ClassDecl} {ψ : Tag → Tag}

namespace EffectiveAssociation

variable {a a' : EffectiveAssociation} (ha : a.ReadsAs a')
include ha

theorem ReadsAs.rawType?_eq : a'.rawType? = a.rawType? := by
  rw [rawType?, rawType?, ha.type]

theorem ReadsAs.elementType?_eq : a'.elementType? = a.elementType? := by
  rw [elementType?, elementType?, ha.type]

end EffectiveAssociation

/-- An association whose type is that of a declared member. -/
def Hierarchy.DeclaresTypeOf (h : Hierarchy) (a : EffectiveAssociation) : Prop :=
  ∀ type, a.type = some type → h.DeclaresType type

namespace Hierarchy

variable {h : Hierarchy} {a : EffectiveAssociation} (ha : h.DeclaresTypeOf a) {name : String}
include ha

theorem DeclaresTypeOf.heeds_rawType (hname : a.rawType? = some name) :
    heeds h.classes name = true := by
  obtain ⟨type, htype, rfl⟩ := Option.map_eq_some_iff.mp hname
  exact (heeds_of_declaresType (ha type htype)).1 _ (by simp [containerNames])

theorem DeclaresTypeOf.heeds_elementType (hname : a.elementType? = some name) :
    heeds h.classes name = true := by
  obtain ⟨type, htype, helement⟩ := Option.bind_eq_some_iff.mp hname
  exact (heeds_of_declaresType (ha type htype)).2 name helement

end Hierarchy

namespace Scope

variable {s s' : Scope} {c element : ClassDecl} {a a' : EffectiveAssociation}
  {hφ : KeepsTables s.hierarchy φ ψ}

namespace Mirrors

variable (hm : Mirrors hφ s') (hs : Built s.hierarchy s.checks s)
  (hc : c ∈ s.hierarchy.classes) (ha : a.ReadsAs a') (htype : s.hierarchy.DeclaresTypeOf a)

/-! ### References -/

include hm ha htype in
/-- A target is only checked if it leads to a class. -/
theorem checkTarget_eq (c : ClassDecl) {target : ClassDecl} {options : ReferenceOptions}
    {name : String} (hname : targetName c a options = .ok name)
    (hfind : s.hierarchy.find? name = some target) :
    s'.checkTarget (φ c) a' options = s.checkTarget c a options := by
  rw [checkTarget, checkTarget, hm.checks, ha.rawType?_eq, ha.name, hφ.name]
  cases hchecks : s.checks with
  | basic => rfl
  | strict =>
    cases hgiven : options.classRef with
    | none => rfl
    | some given =>
      cases hdeclared : a.rawType? with
      | none => rfl
      | some declared =>
        rw [targetName, hgiven] at hname
        obtain rfl := Except.ok.inj hname
        simp only [hm.areCompatible_eq (Hierarchy.heeds_of_find? hfind)
          (htype.heeds_rawType hdeclared)]

include hm hs hc ha htype in
theorem resolveReference_eq : s'.resolveReference (φ c) a' = s.resolveReference c a := by
  have htarget : ∀ options, targetName (φ c) a' options = targetName c a options := by
    intro options
    rw [targetName, targetName, ha.rawType?_eq, ha.reference.name, ha.name, hφ.name]
  simp only [resolveReference, hφ.name, ReferenceOptions.parse_eq ha.reference, htarget, ha.name,
    ha.declaredIn, ha.type, hm.persistentClass_eq hs, hm.field_eq hc, hm.tableOf_eq hs hc,
    hm.primaryKeys_eq, bind_map_left]
  refine congrArg _ (funext fun options ↦ bind_congr_ok fun name hname ↦ ?_)
  refine bind_congr_ok fun target hfound ↦ ?_
  have hfind := find?_of_persistentClass hfound
  rw [hm.checkTarget_eq ha htype c hname hfind,
    hm.uniformTable_eq hs (mem_of_persistentClass hfound)]

/-! ### Collections -/

include ha in
theorem elementName_eq (hφ : KeepsPlace s.hierarchy φ) (c : ClassDecl)
    (options : CollectionOptions) :
    elementName (φ c) a' options = elementName c a options := by
  rw [elementName, elementName, ha.elementType?_eq, ha.name, hφ.name]

include hm ha htype in
/-- An element class is only checked if there is one. -/
theorem checkElement_eq (c : ClassDecl) {options : CollectionOptions} {name : String}
    (hname : elementName c a options = .ok name)
    (hfind : s.hierarchy.find? name = some element) :
    s'.checkElement (φ c) a' options = s.checkElement c a options := by
  rw [checkElement, checkElement, hm.checks, ha.elementType?_eq, ha.name, hφ.name]
  cases hchecks : s.checks with
  | basic => rfl
  | strict =>
    cases hgiven : options.elementClassRef with
    | none => rfl
    | some given =>
      cases hdeclared : a.elementType? with
      | none => rfl
      | some declared =>
        rw [elementName, hgiven] at hname
        obtain rfl := Except.ok.inj hname
        simp only [hm.areCompatible_eq (Hierarchy.heeds_of_find? hfind)
          (htype.heeds_elementType hdeclared)]

include hm ha htype in
theorem checkContainer_of_eq (c : ClassDecl) (options : CollectionOptions) :
    s'.checkContainer (φ c) a' options = s.checkContainer c a options := by
  rw [checkContainer, checkContainer, hm.checks, ha.type, ha.name, hφ.name]
  cases s.checks with
  | basic => rfl
  | strict =>
    cases hdeclared : a.type with
    | none => rfl
    | some type => exact hm.checkContainer_eq (htype type hdeclared) _ _ _

include hm hs ha htype in
theorem elementClass_eq (c : ClassDecl) (options : CollectionOptions) :
    s'.elementClass (φ c) a' options = φ <$> s.elementClass c a options := by
  simp only [elementClass, elementName_eq ha hφ.toKeepsPlace, ha.name, hφ.name,
    hm.persistentClass_eq hs, hm.checkContainer_of_eq ha htype, bind_map_left, map_bind, map_pure]
  refine bind_congr_ok fun name hname ↦ bind_congr_ok fun element hfound ↦ ?_
  rw [hm.checkElement_eq ha htype c hname (find?_of_persistentClass hfound)]

section Keys

variable (helement : element ∈ s.hierarchy.classes)
include hm ha helement

theorem findReciprocal_eq (joinTable : String) :
    s'.findReciprocal (φ element) a' joinTable = s.findReciprocal element a joinTable := by
  have hcounterparts : List.Forall₂ EffectiveAssociation.ReadsAs (s.counterparts element a)
      (s'.counterparts (φ element) a') := by
    refine List.rel_filter (fun other other' hother ↦ ?_) (hm.members element helement).associations
    simp only [hother.isCollection, hother.name, hother.declaredIn, ha.name, ha.declaredIn]
  have hsharing : ∀ others others' : List EffectiveAssociation,
      List.Forall₂ EffectiveAssociation.ReadsAs others others' →
        findSharing element.name joinTable others' = findSharing element.name joinTable others := by
    intro others others' hothers
    induction hothers with
    | nil => rfl
    | cons hother _ ih =>
      rw [findSharing, findSharing, CollectionOptions.parse_eq hother.collection, ih]
  rw [findReciprocal, findReciprocal, hφ.name, hsharing _ _ hcounterparts]

include hs hc

theorem inverseKeys_eq (options : CollectionOptions) :
    s'.inverseKeys (φ c) (φ element) a' options = s.inverseKeys c element a options := by
  simp only [inverseKeys, ha.name, hφ.name, hm.field_eq helement, hm.primaryKeys_eq,
    hm.ownsConstraints_eq c ha, hm.tableOf_eq hs helement, hm.uniformTable_eq hs hc]

theorem joinKeys_eq (options : CollectionOptions) (joinTable : String) :
    s'.joinKeys (φ c) (φ element) a' options joinTable =
      s.joinKeys c element a options joinTable := by
  have hremote : ∀ reciprocal, remoteKeys (φ c) (φ element) a' options joinTable reciprocal =
      remoteKeys c element a options joinTable reciprocal := by
    intro reciprocal
    unfold remoteKeys
    rw [ha.name, hφ.name, hφ.name]
  have hagreement : ∀ reciprocal, checkAgreement (φ c) (φ element) a' options joinTable reciprocal =
      checkAgreement c element a options joinTable reciprocal := by
    intro reciprocal
    cases reciprocal with
    | none => rfl
    | some other => rw [checkAgreement, checkAgreement, ha.name, hφ.name, hφ.name]
  have hdisjoint : ∀ remote, checkDisjoint (φ c) a' joinTable options.foreignKeys remote =
      checkDisjoint c a joinTable options.foreignKeys remote := by
    intro remote
    rw [checkDisjoint, checkDisjoint, ha.name, hφ.name]
  have hchanges : ∀ keys, joinTableChanges (φ c) options joinTable keys =
      joinTableChanges c options joinTable keys := by
    intro keys
    rw [joinTableChanges, joinTableChanges, hφ.name]
  simp only [joinKeys, hm.findReciprocal_eq ha helement, ha.name, hφ.name, hremote, hagreement,
    hdisjoint, hchanges, hm.primaryKeys_eq, hm.ownsConstraints_eq c ha, hm.uniformTable_eq hs hc,
    hm.uniformTable_eq hs helement]

theorem collectionKeys_eq (options : CollectionOptions) :
    s'.collectionKeys (φ c) (φ element) a' options = s.collectionKeys c element a options := by
  rw [collectionKeys, collectionKeys]
  cases options.indirectionTable with
  | none => simp only [hm.inverseKeys_eq hs hc ha helement]
  | some joinTable => exact hm.joinKeys_eq hs hc ha helement options joinTable

end Keys

include hm ha in
theorem checkOrder_eq (helement : element ∈ s.hierarchy.classes) (orderBy : List OrderBy) :
    s'.checkOrder (φ element) a' orderBy = s.checkOrder element a orderBy := by
  rw [checkOrder, checkOrder, hm.field_eq helement, ha.name]

include hm hs hc ha htype in
theorem resolveCollection_eq (tables : List Table) :
    s'.resolveCollection tables (φ c) a' = s.resolveCollection tables c a := by
  have hdescriptor : collectionDescriptor a' = collectionDescriptor a := by
    funext options element remote
    rw [collectionDescriptor, collectionDescriptor, ha.name, ha.declaredIn]
  simp only [resolveCollection, hφ.name, CollectionOptions.parse_eq ha.collection,
    elementName_eq ha hφ.toKeepsPlace, hdescriptor, hm.elementClass_eq hs ha htype, bind_map_left]
  refine congrArg _ (funext fun options ↦ bind_congr_ok fun element hfound ↦ ?_)
  have helement := mem_of_elementClass hfound
  simp only [hm.collectionKeys_eq hs hc ha helement, hm.checkOrder_eq ha helement]

/-! ### Associations of a class -/

include hm hs hc ha htype in
theorem resolveAssociation_eq (tables : List Table) :
    s'.resolveAssociation (φ c) tables a' = s.resolveAssociation c tables a := by
  simp only [resolveAssociation, ha.isCollection, hm.resolveCollection_eq hs hc ha htype,
    hm.resolveReference_eq hs hc ha htype]

include hm hs hc in
theorem resolveAssociations_eq {associations associations' : List EffectiveAssociation}
    (hassociations : List.Forall₂ EffectiveAssociation.ReadsAs associations associations')
    (htypes : ∀ a ∈ associations, s.hierarchy.DeclaresTypeOf a) (tables : List Table) :
    s'.resolveAssociations (φ c) tables associations' =
      s.resolveAssociations c tables associations := by
  induction hassociations generalizing tables with
  | nil => rfl
  | cons ha _ ih =>
    obtain ⟨htype, hrest⟩ := List.forall_mem_cons.mp htypes
    simp only [resolveAssociations, hm.resolveAssociation_eq hs hc ha htype, ih hrest]

/-! ### Procedures -/

section Procedures

variable (hψ : KeepsProcedures φ ψ)
include hm hc hψ

omit hm hc hψ in
/-- Only some tags declare arguments. -/
theorem foldlM_addArgument (s : Scope) (c d : ClassDecl) (arguments : List ArgumentOptions) :
    d.tags.foldlM (s.addArgument c) arguments =
      (argumentTags d).foldlM (s.addArgument c) arguments := by
  rw [argumentTags]
  generalize d.tags = tags
  induction tags generalizing arguments with
  | nil => rfl
  | cons tag rest ih =>
    by_cases hargument : declaresArgument tag = true
    · rw [List.filter_cons_of_pos hargument, List.foldlM_cons, List.foldlM_cons]
      exact congrArg _ (funext ih)
    · have hnothing : s.addArgument c arguments tag = .ok arguments := by
        simp only [declaresArgument, Bool.or_eq_true, beq_iff_eq, not_or] at hargument
        rw [addArgument, argument?, if_neg hargument.1, if_neg hargument.2]
        rfl
      rw [List.filter_cons_of_neg hargument, List.foldlM_cons, hnothing]
      exact ih arguments

theorem addArgument_eq (arguments : List ArgumentOptions) (tag : Tag) :
    s'.addArgument (φ c) arguments (ψ tag) = s.addArgument c arguments tag := by
  have hcheck : ∀ argument, s'.checkArgument (φ c) argument = s.checkArgument c argument := by
    intro argument
    simp only [checkArgument, hm.field_eq hc]
  have hargument : argument? (φ c) (ψ tag) = argument? c tag := by
    rw [argument?, argument?, (hψ.runtime tag).name, hφ.name,
      ArgumentOptions.parseRuntime_eq (hψ.runtime tag),
      ArgumentOptions.parseConstant_eq (hψ.constant tag)]
  simp only [addArgument, hargument, hφ.name, hcheck]

theorem arguments_eq : s'.arguments (φ c) = s.arguments c := by
  rw [arguments, arguments, foldlM_addArgument, foldlM_addArgument s, hψ.argumentTags,
    List.foldlM_map]
  exact foldlM_congr fun tag _ arguments ↦ hm.addArgument_eq hc hψ arguments tag

theorem procedures_eq : s'.procedures (φ c) = s.procedures c := by
  have hprocedure : ∀ (arguments : List ArgumentOptions) (kind : ProcedureKind) (tag : Tag),
      s'.procedure (φ c) arguments kind (ψ tag) = s.procedure c arguments kind tag := by
    intro arguments kind tag
    have hbind : ∀ procedure, bindArgument (φ c) procedure = bindArgument c procedure := by
      intro procedure
      funext arguments name
      rw [bindArgument, bindArgument, hφ.name]
    simp only [procedure, hφ.name, ProcedureOptions.parse_eq (hψ.procedure tag), hm.field_eq hc,
      hbind]
  rw [procedures, procedures, hm.arguments_eq hc hψ, hψ.procedureTags]
  simp only [List.mapM_map]
  exact congrArg _ (funext fun arguments ↦ congrArg (List.mapM · (procedureTags c))
    (funext fun declared ↦ hprocedure arguments declared.1 declared.2))

end Procedures

/-! ### Classes -/

variable {p : PersistentClass}

include hm hs in
theorem describe_eq (hp : p ∈ s.classes) : s'.describe (p.mapped φ) = s.describe p := by
  have hextents : (p.mapped φ).extents.map (·.name) = p.extents.map (·.name) := by
    rw [PersistentClass.mapped, List.map_map]
    exact List.map_congr_left fun c _ ↦ hφ.name c
  funext associations procedures
  rw [describe, describe, hextents, PersistentClass.mapped, hφ.name, hφ.isInterface, hφ.options,
    hm.tableOf_eq hs (hs.mem_classes hp), hm.fieldsOf_eq]

variable (hψ : KeepsProcedures φ ψ)
include hm hs hψ

theorem resolveClass_eq (hp : p ∈ s.classes) (tables : List Table) :
    s'.resolveClass tables (p.mapped φ) = s.resolveClass tables p := by
  have hc := hs.mem_classes hp
  have hdecl : (p.mapped φ).decl = φ p.decl := rfl
  have htypes := (Hierarchy.declaresType_of_mem_classes hs.members hc).associations
  simp only [resolveClass, hdecl, hm.procedures_eq hc hψ, hm.describe_eq hs hp,
    hm.resolveAssociations_eq hs hc (hm.members _ hc).associations htypes]

theorem resolveClasses_eq {classes : List PersistentClass} (hclasses : classes ⊆ s.classes)
    (tables : List Table) :
    s'.resolveClasses tables (classes.map (PersistentClass.mapped φ)) =
      s.resolveClasses tables classes := by
  induction classes generalizing tables with
  | nil => rfl
  | cons p rest ih =>
    obtain ⟨hp, hrest⟩ := List.cons_subset.mp hclasses
    simp only [List.map_cons, resolveClasses, hm.resolveClass_eq hs hψ hp, ih hrest]

end Mirrors

end Scope

/-! ### The mapping -/

namespace Hierarchy

variable {h : Hierarchy} {checks : ChecksMode} {e : MappingError}

/-- The members of all classes are read as those of the classes that they are mapped to, and they
cannot be computed for the same reason. -/
structure MirrorsMembers (h : Hierarchy) (hφ : KeepsTables h φ ψ) : Prop where
  ok : ∀ table, h.memberTable = .ok table →
    ∃ table', (h.mapped hφ.toKeepsPlace).memberTable = .ok table' ∧
      ∀ c ∈ h.classes, (table.membersOf c).ReadsAs (table'.membersOf (φ c))
  error : ∀ e, h.memberTable = .error e → (h.mapped hφ.toKeepsPlace).memberTable = .error e

variable {hφ : KeepsTables h φ ψ}

/-- It is enough to look at the members of each class by plain recursion. -/
theorem mirrorsMembers_of_membersOf {γ : Type} {view view' : EffectiveMembers → γ}
    (hread : ∀ m m', view' m' = view m → m.ReadsAs m')
    (hplain : ∀ d ∈ h.classes, view' <$> (h.mapped hφ.toKeepsPlace).membersOf h.depth [] (φ d) =
      view <$> h.membersOf h.depth [] d) : h.MirrorsMembers hφ := by
  have htables := (h.mapped hφ.toKeepsPlace).memberTable_plain
  have hclasses : (h.mapped hφ.toKeepsPlace).classes = h.classes.map φ := rfl
  rw [hclasses, List.mapM_map, depth_mapped] at htables
  have hsame := map_mapM_congr hplain
  rw [← Function.comp_def, ← htables, ← memberTable_plain] at hsame
  constructor
  · intro table htable
    rw [htable] at hsame
    cases htable' : (h.mapped hφ.toKeepsPlace).memberTable with
    | error e =>
      rw [htable'] at hsame
      exact absurd hsame (by simp [Functor.map, Except.map])
    | ok table' =>
      rw [htable'] at hsame
      have hviews := Except.ok.inj hsame
      rw [List.map_map, List.map_map, List.map_map] at hviews
      exact ⟨table', rfl, fun d hd ↦ hread _ _ (List.map_inj_left.mp hviews d hd)⟩
  · intro e herror
    rw [herror] at hsame
    cases htable' : (h.mapped hφ.toKeepsPlace).memberTable with
    | error e' =>
      rw [htable'] at hsame
      exact congrArg Except.error (Except.error.inj hsame)
    | ok table' =>
      rw [htable'] at hsame
      exact absurd hsame (by simp [Functor.map, Except.map])

/-- The built fields are the same, and they cannot be built for the same reason. -/
theorem mapM_fields_eq {table table' : MemberTable} (hφ : KeepsPlace h φ)
    (hread : ∀ c ∈ h.classes, (table.membersOf c).ReadsAs (table'.membersOf (φ c)))
    {classes : List PersistentClass} (hclasses : ∀ p ∈ classes, p.decl ∈ h.classes) :
    ((classes.map (PersistentClass.mapped φ)).mapM fun p ↦ do
        return (p.decl.name, ← (table'.membersOf p.decl).fields.mapM
          (FieldDescriptor.build p.decl.name))) =
      classes.mapM fun p ↦ do
        return (p.decl.name, ← (table.membersOf p.decl).fields.mapM
          (FieldDescriptor.build p.decl.name)) := by
  rw [List.mapM_map]
  refine mapM_congr fun p hp ↦ ?_
  have hdecl : (p.mapped φ).decl = φ p.decl := rfl
  rw [Function.comp_apply, hdecl, hφ.name,
    FieldDescriptor.mapM_build_eq (hread p.decl (hclasses p hp))]

theorem decl_mem_of_persistentClasses {classes : List PersistentClass}
    (hclasses : h.persistentClasses = .ok classes) :
    ∀ p ∈ classes, p.decl ∈ h.classes := by
  intro p hp
  have hmem : p.decl ∈ classes.map (·.decl) := List.mem_map_of_mem hp
  rw [(persistentClasses_eq_ok hclasses).1] at hmem
  exact List.mem_of_mem_filter hmem

/-- A hierarchy and its map have scopes that mirror each other, or none for the same reason. -/
theorem build_mapped (hmembers : h.MirrorsMembers hφ) (checks : ChecksMode) :
    (∀ s, Scope.build h checks = .ok s →
      ∃ s', Scope.build (h.mapped hφ.toKeepsPlace) checks = .ok s' ∧
        ∃ hs : KeepsTables s.hierarchy φ ψ, Scope.Mirrors hs s') ∧
    ∀ e, Scope.build h checks = .error e →
      Scope.build (h.mapped hφ.toKeepsPlace) checks = .error e := by
  have hpersistent := persistentClasses_mapped hφ.toKeepsPersistence
  constructor
  · intro s hbuild
    have hs := Scope.built_of_build hbuild
    obtain ⟨table', htable', hread⟩ := hmembers.ok s.members hs.members
    rw [hs.classes] at hpersistent
    have hfields := mapM_fields_eq hφ.toKeepsPlace hread (decl_mem_of_persistentClasses hs.classes)
    refine ⟨⟨h.mapped hφ.toKeepsPlace, checks, s.classes.map (PersistentClass.mapped φ), table',
      s.fields⟩, Scope.Built.build_eq ⟨rfl, rfl, hpersistent, htable', hfields.trans hs.fields⟩, ?_⟩
    obtain rfl := hs.hierarchy
    exact ⟨hφ, rfl, hs.checks.symm, rfl, hread, rfl⟩
  · intro e hbuild
    rw [Scope.build] at hbuild ⊢
    rw [hpersistent]
    rcases bind_eq_error_iff.mp hbuild with herror | ⟨classes, hclasses, hbuild⟩
    · rw [herror]
      rfl
    refine bind_eq_error_iff.mpr (.inr ⟨classes.map (PersistentClass.mapped φ), ?_, ?_⟩)
    · rw [hclasses]
      rfl
    rcases bind_eq_error_iff.mp hbuild with herror | ⟨table, htable, hbuild⟩
    · exact bind_eq_error_iff.mpr (.inl (hmembers.error e herror))
    obtain ⟨table', htable', hread⟩ := hmembers.ok table htable
    refine bind_eq_error_iff.mpr (.inr ⟨table', htable', ?_⟩)
    rcases bind_eq_error_iff.mp hbuild with herror | ⟨fields, -, hpure⟩
    · have hfields := mapM_fields_eq hφ.toKeepsPlace hread (decl_mem_of_persistentClasses hclasses)
      exact bind_eq_error_iff.mpr (.inl (hfields.trans herror))
    · exact absurd hpure (by simp [pure, Except.pure])

/-- The mapping is the same, and so is the error if there is none. -/
theorem resolve_mapped (hψ : KeepsProcedures φ ψ) (hmembers : h.MirrorsMembers hφ)
    (checks : ChecksMode) (databaseName : String) :
    (h.mapped hφ.toKeepsPlace).resolve checks databaseName = h.resolve checks databaseName := by
  obtain ⟨hok, herror⟩ := build_mapped hmembers checks
  rw [resolve, resolve]
  cases hbuild : Scope.build h checks with
  | error e => rw [herror e hbuild]
  | ok s =>
    obtain ⟨s', hbuild', hφ', hm⟩ := hok s hbuild
    have hs := Scope.built_of_build hbuild
    obtain rfl := hs.hierarchy
    obtain rfl := hs.checks
    have hclasses : ∀ tables, s'.resolveClasses tables s'.classes =
        s.resolveClasses tables s.classes := by
      intro tables
      rw [hm.classes]
      exact hm.resolveClasses_eq hs hψ (List.Subset.refl s.classes) tables
    rw [hbuild']
    change (s'.classes.foldlM s'.addTable [] >>= fun tables ↦ _) =
      (s.classes.foldlM s.addTable [] >>= fun tables ↦ _)
    simp only [hm.foldlM_addTable_eq hs, hclasses]

theorem ofDeclarations_map {decls : List ClassDecl} (hdecls : ofDeclarations decls = .ok h)
    (hφ : KeepsPlace h φ) : ofDeclarations (decls.map φ) = .ok (h.mapped hφ) := by
  obtain rfl := classes_of_ofDeclarations hdecls
  obtain ⟨h', hmapped⟩ := exists_ofDeclarations (h.mapped hφ).nodup
  have hsame : h' = h.mapped hφ := by
    obtain ⟨classes, hnodup⟩ := h'
    obtain rfl := classes_of_ofDeclarations hmapped
    rfl
  rw [← hsame, ← hmapped]
  rfl

/-- Names that are declared twice are so under any map that keeps them. -/
theorem ofDeclarations_map_eq_error {decls : List ClassDecl} (hname : ∀ c, (φ c).name = c.name)
    (hdecls : ofDeclarations decls = .error e) : ofDeclarations (decls.map φ) = .error e := by
  have hnames : (decls.map φ).map (·.name) = decls.map (·.name) := by
    rw [List.map_map]
    exact List.map_congr_left fun c _ ↦ hname c
  unfold ofDeclarations at hdecls ⊢
  split at hdecls
  · rename_i repeated hrepeated
    split
    · rename_i repeated' hrepeated'
      rw [hnames, hrepeated] at hrepeated'
      rwa [← Option.some.inj hrepeated']
    · rename_i hnone
      rw [hnames, hrepeated] at hnone
      exact absurd hnone (by simp)
  · exact absurd hdecls (by simp)

end Hierarchy

/-- Declarations under a map that changes nothing of what is read of them have the same mapping. -/
theorem resolveDeclarations_map (hname : ∀ c, (φ c).name = c.name) (hψ : KeepsProcedures φ ψ)
    {decls : List ClassDecl}
    (hmembers : ∀ h, Hierarchy.ofDeclarations decls = .ok h →
      ∃ hφ : KeepsTables h φ ψ, h.MirrorsMembers hφ)
    (checks : ChecksMode) (databaseName : String) :
    resolveDeclarations (decls.map φ) checks databaseName =
      resolveDeclarations decls checks databaseName := by
  rw [resolveDeclarations, resolveDeclarations]
  cases hdecls : Hierarchy.ofDeclarations decls with
  | error e => rw [Hierarchy.ofDeclarations_map_eq_error hname hdecls]
  | ok h =>
    obtain ⟨hφ, hmirrors⟩ := hmembers h hdecls
    rw [Hierarchy.ofDeclarations_map hdecls hφ.toKeepsPlace]
    exact Hierarchy.resolve_mapped hψ hmirrors checks databaseName

end ClassMap
