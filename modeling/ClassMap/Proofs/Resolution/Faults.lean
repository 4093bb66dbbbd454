import ClassMap.Proofs.Members.Faults
import ClassMap.Resolution

/-!
What can go wrong in the resolution besides cycles of supertypes. Only the first check looks for
them; whatever else ends a resolution is a fault of some option, name, key, container or table
(`Hierarchy.failsBy_resolve`).
-/

set_option autoImplicit false
set_option relaxedAutoImplicit false

namespace ClassMap

/-! ### Options -/

section Options

variable (className : String) (tag : Tag)

@[simp] theorem sparesCycles_classOptions : SparesCycles (ClassOptions.parse className tag) := by
  unfold ClassOptions.parse
  repeat' with_reducible refine .bind ?_ fun _ ↦ ?_
  all_goals simp

@[simp] theorem sparesCycles_fieldOptions : SparesCycles (FieldOptions.parse className tag) := by
  unfold FieldOptions.parse
  repeat' with_reducible refine .bind ?_ fun _ ↦ ?_
  all_goals simp

@[simp] theorem sparesCycles_referenceOptions :
    SparesCycles (ReferenceOptions.parse className tag) := by
  unfold ReferenceOptions.parse
  repeat' with_reducible refine .bind ?_ fun _ ↦ ?_
  all_goals simp

@[simp] theorem sparesCycles_parseOrderBy (r : TagReader) :
    SparesCycles (CollectionOptions.parseOrderBy r) := by
  refine .mapM fun entry ↦ ?_
  split <;> simp [TagReader.refuse, MappingCause.IsLocal]

@[simp] theorem sparesCycles_collectionOptions :
    SparesCycles (CollectionOptions.parse className tag) := by
  unfold CollectionOptions.parse
  repeat' with_reducible refine .bind ?_ fun _ ↦ ?_
  all_goals simp

@[simp] theorem sparesCycles_indexOptions : SparesCycles (IndexOptions.parse className tag) := by
  unfold IndexOptions.parse
  repeat' with_reducible refine .bind ?_ fun _ ↦ ?_
  all_goals simp

@[simp] theorem sparesCycles_procedureOptions :
    SparesCycles (ProcedureOptions.parse className tag) := by
  unfold ProcedureOptions.parse
  repeat' with_reducible refine .bind ?_ fun _ ↦ ?_
  all_goals simp

@[simp] theorem sparesCycles_parseRuntime :
    SparesCycles (ArgumentOptions.parseRuntime className tag) := by
  unfold ArgumentOptions.parseRuntime
  repeat' with_reducible refine .bind ?_ fun _ ↦ ?_
  all_goals simp

@[simp] theorem sparesCycles_parseConstant :
    SparesCycles (ArgumentOptions.parseConstant className tag) := by
  simp [ArgumentOptions.parseConstant]

end Options

/-! ### Fields and the schema -/

@[simp] theorem sparesCycles_storage (className : String) (f : EffectiveField)
    (options : FieldOptions) : SparesCycles (f.storage className options) := by
  unfold EffectiveField.storage
  split <;> simp [MappingCause.IsLocal]

@[simp] theorem sparesCycles_fieldDescriptor (className : String) (f : EffectiveField) :
    SparesCycles (FieldDescriptor.build className f) := by
  simp [FieldDescriptor.build]

@[simp] theorem sparesCycles_addColumn (t : Table) (added : Column) (owner : String) :
    SparesCycles (t.addColumn added owner) := by
  unfold Table.addColumn
  split <;> simp [MappingCause.IsLocal]

@[simp] theorem sparesCycles_addIndex (t : Table) (added : Index) (owner : String) :
    SparesCycles (t.addIndex added owner) := by
  unfold Table.addIndex
  split <;> simp [MappingCause.IsLocal]

@[simp] theorem sparesCycles_apply (tables : List Table) (change : SchemaChange) :
    SparesCycles (SchemaChange.apply tables change) := by
  have hchange : ∀ t, SparesCycles (change.applyTo t) := by
    intro t
    cases change <;> simp [SchemaChange.applyTo]
  unfold SchemaChange.apply
  induction tables with
  | nil => exact .bind (hchange _) fun t ↦ .pure [t]
  | cons t rest ih =>
    exact .ite (.bind (hchange t) fun t ↦ .pure (t :: rest)) (.bind ih fun rest ↦ .pure (t :: rest))

@[simp] theorem sparesCycles_applyAll (tables : List Table) (changes : List SchemaChange) :
    SparesCycles (SchemaChange.applyAll tables changes) := by
  simp [SchemaChange.applyAll]

namespace Scope

variable (s : Scope) (c element : ClassDecl) (a : EffectiveAssociation)

@[simp] theorem sparesCycles_field (name : String) (use : FieldUse) :
    SparesCycles (s.field c name use) := by
  unfold Scope.field findField
  dsimp only
  split <;> simp [MappingCause.IsLocal]

@[simp] theorem sparesCycles_persistentClass (className target : String) (use : ClassUse) :
    SparesCycles (s.persistentClass className target use) := by
  unfold persistentClass
  split <;> simp [MappingCause.IsLocal]

@[simp] theorem sparesCycles_addTable (tables : List Table) (p : PersistentClass) :
    SparesCycles (s.addTable tables p) := by
  have hindex : ∀ tag, SparesCycles (s.index p.decl tag) := by
    intro tag
    refine .bind (by simp) fun options ↦ .bind (.mapM fun name ↦ ?_) fun columns ↦ .pure _
    exact .bind (by simp) fun f ↦ .pure f.column
  unfold addTable
  split
  · simp
  · refine .bind (by simp) fun tables ↦ .foldlM fun tables tag ↦ ?_
    exact .bind (hindex tag) fun index ↦ by simp

/-! ### Associations -/

@[simp] theorem sparesCycles_checkArity (className member : String) (keys : KeyList)
    (count primaryKeys : Nat) : SparesCycles (checkArity className member keys count primaryKeys) := by
  simp [checkArity, MappingCause.IsLocal]

@[simp] theorem sparesCycles_checkKeyMatch (className member : String)
    (keys primaryKeys : List FieldDescriptor) :
    SparesCycles (checkKeyMatch className member keys primaryKeys) := by
  refine .bind (by simp) fun _ ↦ .forM fun pair ↦ ?_
  simp [MappingCause.IsLocal]

@[simp] theorem sparesCycles_targetName (options : ReferenceOptions) :
    SparesCycles (targetName c a options) := by
  unfold targetName
  split <;> simp [MappingCause.IsLocal]

@[simp] theorem sparesCycles_checkTarget (options : ReferenceOptions) :
    SparesCycles (s.checkTarget c a options) := by
  unfold checkTarget
  split <;> simp [MappingCause.IsLocal]

@[simp] theorem sparesCycles_resolveReference : SparesCycles (s.resolveReference c a) := by
  unfold resolveReference
  repeat' with_reducible refine .bind ?_ fun _ ↦ ?_
  all_goals simp

@[simp] theorem sparesCycles_elementName (options : CollectionOptions) :
    SparesCycles (elementName c a options) := by
  unfold elementName
  split <;> simp [MappingCause.IsLocal]

@[simp] theorem sparesCycles_checkElement (options : CollectionOptions) :
    SparesCycles (s.checkElement c a options) := by
  unfold checkElement
  split <;> simp [MappingCause.IsLocal]

@[simp] theorem sparesCycles_checkContainer (options : CollectionOptions) :
    SparesCycles (s.checkContainer c a options) := by
  unfold Scope.checkContainer Hierarchy.checkContainer
  dsimp only
  split
  · split
    · simp [MappingCause.IsLocal]
    · refine .ite (by simp [MappingCause.IsLocal]) (.ite (by simp [MappingCause.IsLocal]) ?_)
      split <;> simp [MappingCause.IsLocal]
  · simp

@[simp] theorem sparesCycles_elementClass (options : CollectionOptions) :
    SparesCycles (s.elementClass c a options) := by
  unfold elementClass
  repeat' with_reducible refine .bind ?_ fun _ ↦ ?_
  all_goals simp

@[simp] theorem sparesCycles_inverseKeys (options : CollectionOptions) :
    SparesCycles (s.inverseKeys c element a options) := by
  unfold inverseKeys
  repeat' with_reducible refine .bind ?_ fun _ ↦ ?_
  all_goals simp

@[simp] theorem sparesCycles_findReciprocal (joinTable : String) :
    SparesCycles (s.findReciprocal element a joinTable) := by
  unfold findReciprocal
  induction s.counterparts element a with
  | nil => exact .ok none
  | cons other rest ih =>
    refine .bind (by simp) fun options ↦ ?_
    split
    · exact .ite (.pure _) ih
    · exact ih

@[simp] theorem sparesCycles_joinKeys (options : CollectionOptions) (joinTable : String) :
    SparesCycles (s.joinKeys c element a options joinTable) := by
  have hremote : ∀ reciprocal,
      SparesCycles (remoteKeys c element a options joinTable reciprocal) := by
    intro reciprocal
    cases reciprocal <;> simp [remoteKeys, MappingCause.IsLocal]
  have hagreement : ∀ reciprocal,
      SparesCycles (checkAgreement c element a options joinTable reciprocal) := by
    intro reciprocal
    cases reciprocal <;> simp [checkAgreement, MappingCause.IsLocal]
  have hdisjoint : ∀ remote,
      SparesCycles (checkDisjoint c a joinTable options.foreignKeys remote) := by
    intro remote
    unfold checkDisjoint
    split <;> simp [MappingCause.IsLocal]
  unfold joinKeys
  repeat' with_reducible refine .bind ?_ fun _ ↦ ?_
  all_goals simp [hremote, hagreement, hdisjoint]

@[simp] theorem sparesCycles_resolveCollection (tables : List Table) :
    SparesCycles (s.resolveCollection tables c a) := by
  have hkeys : ∀ element options, SparesCycles (s.collectionKeys c element a options) := by
    intro element options
    unfold collectionKeys
    split <;> simp
  unfold resolveCollection
  repeat' with_reducible refine .bind ?_ fun _ ↦ ?_
  all_goals simp [hkeys, checkOrder]

@[simp] theorem sparesCycles_resolveAssociations (tables : List Table)
    (associations : List EffectiveAssociation) :
    SparesCycles (s.resolveAssociations c tables associations) := by
  have hone : ∀ tables a, SparesCycles (s.resolveAssociation c tables a) := by
    intro tables a
    refine .ite (.bind (by simp) fun _ ↦ .pure _) (.bind (by simp) fun _ ↦ .bind ?_ fun _ ↦ .pure _)
    simp
  induction associations generalizing tables with
  | nil => exact .ok _
  | cons a rest ih =>
    exact .bind (hone tables a) fun _ ↦ .bind (ih _) fun _ ↦ .pure _

/-! ### Procedures -/

@[simp] theorem sparesCycles_arguments : SparesCycles (s.arguments c) := by
  have hargument : ∀ tag, SparesCycles (argument? c tag) := by
    intro tag
    unfold argument?
    split
    · simp
    · split <;> simp
  have hcheck : ∀ argument, SparesCycles (s.checkArgument c argument) := by
    intro argument
    unfold checkArgument
    split <;> simp
  refine .foldlM fun arguments tag ↦ .bind (hargument tag) fun argument ↦ ?_
  split
  · simp
  · refine .ite (FailsBy.error_iff.mpr (by simp [MappingCause.IsLocal])) ?_
    exact .bind (hcheck _) fun _ ↦ .pure _

@[simp] theorem sparesCycles_procedure (arguments : List ArgumentOptions) (kind : ProcedureKind)
    (tag : Tag) : SparesCycles (s.procedure c arguments kind tag) := by
  have hbind : ∀ procedure name, SparesCycles (bindArgument c procedure arguments name) := by
    intro procedure name
    unfold bindArgument
    split <;> simp [MappingCause.IsLocal]
  refine .bind (by simp) fun options ↦ ?_
  split
  · refine .bind (by simp) fun _ ↦ .bind (.mapM fun name ↦ hbind _ name) fun _ ↦ .pure _
  · exact .bind (.mapM fun name ↦ hbind _ name) fun _ ↦ .pure _

@[simp] theorem sparesCycles_procedures : SparesCycles (s.procedures c) := by
  exact .bind (by simp) fun arguments ↦ .mapM fun entry ↦ by simp

@[simp] theorem sparesCycles_resolveClasses (tables : List Table)
    (classes : List PersistentClass) : SparesCycles (s.resolveClasses tables classes) := by
  have hone : ∀ tables p, SparesCycles (s.resolveClass tables p) :=
    fun tables p ↦ .bind (by simp) fun _ ↦ .bind (by simp) fun _ ↦ .pure _
  induction classes generalizing tables with
  | nil => exact .ok _
  | cons p rest ih =>
    exact .bind (hone tables p) fun _ ↦ .bind (ih _) fun _ ↦ .pure _

end Scope

/-! ### The whole resolution -/

namespace Hierarchy

variable (h : Hierarchy) (c : ClassDecl)

@[simp] theorem sparesCycles_parseOptions : SparesCycles c.parseOptions := by
  unfold ClassDecl.parseOptions
  split <;> simp

@[simp] theorem sparesCycles_extents (persistent : List ClassDecl) :
    SparesCycles (h.extents persistent c) := by
  have hone : ∀ tag, SparesCycles (h.explicitExtent persistent c tag) := by
    intro tag
    refine .bind (by simp) fun target ↦ ?_
    split <;> simp [MappingCause.IsLocal]
  exact .foldlM fun found tag ↦ .bind (hone tag) fun d ↦ .pure _

/-- Computing members reports cycles of nested members only. -/
theorem failsBy_computeMembers (depth : Nat) (path : List String) (table : MemberTable) :
    FailsBy (· ≠ .supertypeCycle) (h.computeMembers depth path table c) := by
  induction depth generalizing path table c with
  | zero => exact FailsBy.error_iff.mpr (by simp)
  | succ depth ih =>
    unfold computeMembers
    split
    · exact .ok _
    · refine .ite (FailsBy.error_iff.mpr (by simp)) ?_
      refine .bind (.foldlM fun state above ↦ .bind (ih above _ _) fun _ ↦ .pure _) fun state ↦ ?_
      refine .bind (SparesCycles.failsBy (by simp)) fun inherited ↦ ?_
      refine .bind (.foldlM fun state d ↦ ?_) fun own ↦ ?_
      · refine .bind (SparesCycles.failsBy (by simp)) fun contribution ↦ ?_
        split
        · exact .bind (SparesCycles.failsBy (by simp)) fun _ ↦ .pure _
        · exact .bind (SparesCycles.failsBy (by simp)) fun _ ↦ .pure _
        · exact .bind (ih _ _ _) fun _ ↦ .bind (SparesCycles.failsBy (by simp)) fun _ ↦ .pure _
      · exact .bind (SparesCycles.failsBy (by simp)) fun members ↦ .pure _

theorem failsBy_resolve (hchecked : h.checkAcyclic = .ok ()) (checks : ChecksMode)
    (databaseName : String) : FailsBy (· ≠ .supertypeCycle) (h.resolve checks databaseName) := by
  have hclasses : SparesCycles h.persistentClasses := by
    refine .bind (hchecked ▸ .ok ()) fun _ ↦ .bind (.forM fun c ↦ by simp) fun _ ↦ ?_
    exact .mapM fun c ↦ .bind (by simp) fun _ ↦ .pure _
  have hbuild : FailsBy (· ≠ .supertypeCycle) (Scope.build h checks) := by
    refine .bind hclasses.failsBy fun classes ↦ .bind ?_ fun members ↦ .bind ?_ fun fields ↦ ?_
    · exact .foldlM fun table c ↦ .bind (h.failsBy_computeMembers c _ _ _) fun _ ↦ .pure _
    · refine SparesCycles.failsBy (.mapM fun p ↦ ?_)
      exact .bind (.mapM fun f ↦ by simp) fun _ ↦ .pure _
    · exact .pure _
  refine .bind hbuild fun s ↦ .bind (SparesCycles.failsBy ?_) fun tables ↦ ?_
  · exact .foldlM fun tables p ↦ by simp
  · exact .bind (SparesCycles.failsBy (by simp)) fun _ ↦ .pure _

end Hierarchy

end ClassMap
