import ClassMap.Proofs.Traversal
import ClassMap.Resolution

/-!
Resolution in two parts. What a class makes of its associations does not depend on the tables
built so far, so a resolution that succeeds is a plan, the descriptors of the classes with a list
of schema changes, followed by the changes themselves, made one after the other on no tables at
all. `resolve_eq_ok_iff` says that a repository is resolved exactly when it is planned this way.
-/

set_option autoImplicit false
set_option relaxedAutoImplicit false

namespace ClassMap

open Traversal

namespace SchemaChange

theorem applyAll_append (tables : List Table) (first second : List SchemaChange) :
    applyAll tables (first ++ second) = applyAll tables first >>= fun t ↦ applyAll t second :=
  List.foldlM_append

theorem applyAll_append_eq_ok_iff {tables result : List Table} {first second : List SchemaChange} :
    applyAll tables (first ++ second) = .ok result ↔
      ∃ middle, applyAll tables first = .ok middle ∧ applyAll middle second = .ok result := by
  rw [applyAll_append, bind_eq_ok_iff]

variable {α β : Type} {tables result : List Table} {xs : List α}

/-- A fold each of whose steps makes the changes of one part makes the changes of all parts. -/
theorem foldlM_eq_ok_iff {step : List Table → α → Except MappingError (List Table)}
    {part : α → Except MappingError β} {changesOf : β → List SchemaChange}
    (hstep : ∀ tables x result, step tables x = .ok result ↔
      ∃ y, part x = .ok y ∧ applyAll tables (changesOf y) = .ok result) :
    xs.foldlM step tables = .ok result ↔
      ∃ parts, xs.mapM part = .ok parts ∧
        applyAll tables (parts.flatMap changesOf) = .ok result := by
  induction xs generalizing tables with
  | nil => simp [applyAll, pure_eq_ok_iff]
  | cons x rest ih =>
    simp only [List.foldlM_cons, List.mapM_cons, bind_eq_ok_iff, pure_eq_ok_iff, ih, hstep]
    constructor
    · intro h
      obtain ⟨middle, ⟨y, hy, hmiddle⟩, others, hothers, hresult⟩ := h
      have happly : applyAll tables (changesOf y ++ others.flatMap changesOf) = .ok result :=
        applyAll_append_eq_ok_iff.mpr ⟨middle, hmiddle, hresult⟩
      exact ⟨y :: others, ⟨y, hy, others, hothers, rfl⟩, happly⟩
    · intro h
      obtain ⟨_, ⟨y, hy, others, hothers, rfl⟩, happly⟩ := h
      obtain ⟨middle, hmiddle, hresult⟩ := applyAll_append_eq_ok_iff.mp happly
      exact ⟨middle, ⟨y, hy, hmiddle⟩, others, hothers, hresult⟩

/-- The same for a pass that keeps what each step comes to beside the tables. -/
theorem pass_eq_ok_iff {pass : List Table → List α → Except MappingError (List β × List Table)}
    {step : List Table → α → Except MappingError (β × List Table)}
    {part : α → Except MappingError (β × List SchemaChange)} {ys : List β}
    (hnil : ∀ tables, pass tables [] = .ok ([], tables))
    (hcons : ∀ tables x rest, pass tables (x :: rest) = do
      let (first, tables) ← step tables x
      let (others, tables) ← pass tables rest
      return (first :: others, tables))
    (hstep : ∀ tables x y result, step tables x = .ok (y, result) ↔
      ∃ changes, part x = .ok (y, changes) ∧ applyAll tables changes = .ok result) :
    pass tables xs = .ok (ys, result) ↔
      ∃ parts, xs.mapM part = .ok parts ∧ ys = parts.map (·.1) ∧
        applyAll tables (parts.flatMap (·.2)) = .ok result := by
  induction xs generalizing tables result ys with
  | nil =>
    simp only [hnil, List.mapM_nil, pure_eq_ok_iff, Except.ok.injEq, Prod.mk.injEq]
    constructor
    · intro hdone
      obtain ⟨rfl, rfl⟩ := hdone
      exact ⟨[], rfl, rfl, rfl⟩
    · intro hplanned
      obtain ⟨_, rfl, rfl, happly⟩ := hplanned
      exact ⟨rfl, pure_eq_ok_iff.mp happly⟩
  | cons x rest ih =>
    simp only [hcons, List.mapM_cons, bind_eq_ok_iff, pure_eq_ok_iff, Prod.exists, Prod.mk.injEq,
      ih, hstep]
    constructor
    · intro h
      obtain ⟨y, middle, ⟨changes, hy, hmiddle⟩, _, _, ⟨parts, hparts, rfl, hresult⟩, rfl, rfl⟩ := h
      have happly : applyAll tables (changes ++ parts.flatMap (·.2)) = .ok _ :=
        applyAll_append_eq_ok_iff.mpr ⟨middle, hmiddle, hresult⟩
      exact ⟨(y, changes) :: parts, ⟨y, changes, hy, parts, hparts, rfl⟩, rfl, happly⟩
    · intro h
      obtain ⟨_, ⟨y, changes, hy, parts, hparts, rfl⟩, rfl, happly⟩ := h
      obtain ⟨middle, hmiddle, hresult⟩ := applyAll_append_eq_ok_iff.mp happly
      exact ⟨y, middle, ⟨changes, hy, hmiddle⟩, _, result, ⟨parts, hparts, rfl, hresult⟩, rfl, rfl⟩

end SchemaChange

namespace Scope

/-- The changes that make the table of a class. -/
def tableChanges (s : Scope) (p : PersistentClass) : Except MappingError (List SchemaChange) :=
  match s.tableOf p.decl with
  | none => .ok []
  | some table => do
    let indices ← (p.decl.tagsNamed TagName.index).mapM fun tag ↦ do
      return SchemaChange.index table (← s.index p.decl tag) p.decl.name
    return s.columnChanges p.decl table ++ indices

/-- A collection and the changes it asks for. -/
def collectionPlan (s : Scope) (c : ClassDecl) (a : EffectiveAssociation) :
    Except MappingError (CollectionDescriptor × List SchemaChange) := do
  let options ← CollectionOptions.parse c.name a.tag
  let element ← s.elementClass c a options
  let (remote, changes) ← s.collectionKeys c element a options
  s.checkOrder element a options.orderBy
  let name ← elementName c a options
  return (collectionDescriptor a options name remote, changes)

/-- An association and the changes it asks for. -/
def associationPlan (s : Scope) (c : ClassDecl) (a : EffectiveAssociation) :
    Except MappingError (Association × List SchemaChange) :=
  if a.isCollection then do
    let (descriptor, changes) ← s.collectionPlan c a
    return (.collection descriptor, changes)
  else do
    let (descriptor, changes) ← s.resolveReference c a
    return (.reference descriptor, changes)

/-- A class with the changes its associations ask for. -/
def classPlan (s : Scope) (p : PersistentClass) :
    Except MappingError (ClassDescriptor × List SchemaChange) := do
  let parts ← (s.membersOf p.decl).associations.mapM (s.associationPlan p.decl)
  let procedures ← s.procedures p.decl
  return (s.describe p (parts.map (·.1)) procedures, parts.flatMap (·.2))

/-- All classes, and all changes in the order in which they are made. -/
def plan (s : Scope) : Except MappingError (List ClassDescriptor × List SchemaChange) := do
  let tables ← s.classes.mapM s.tableChanges
  let classes ← s.classes.mapM s.classPlan
  return (classes.map (·.1), tables.flatten ++ classes.flatMap (·.2))

theorem foldlM_addIndex_eq_ok_iff {s : Scope} {c : ClassDecl} {table : String} {tags : List Tag}
    {tables result : List Table} :
    tags.foldlM (s.addIndex c table) tables = .ok result ↔
      ∃ indices, (tags.mapM fun tag ↦ do
          return SchemaChange.index table (← s.index c tag) c.name) = .ok indices ∧
        SchemaChange.applyAll tables indices = .ok result := by
  have hstep : ∀ tables tag result, s.addIndex c table tables tag = .ok result ↔
      ∃ index, (do return SchemaChange.index table (← s.index c tag) c.name) = .ok index ∧
        SchemaChange.applyAll tables [index] = .ok result := by
    intro tables tag result
    simp only [addIndex, SchemaChange.applyAll, List.foldlM_cons, List.foldlM_nil, bind_eq_ok_iff,
      pure_eq_ok_iff]
    constructor
    · intro hmade
      obtain ⟨index, hindex, happly⟩ := hmade
      exact ⟨_, ⟨index, hindex, rfl⟩, result, happly, rfl⟩
    · intro hplanned
      obtain ⟨_, ⟨index, hindex, rfl⟩, _, happly, rfl⟩ := hplanned
      exact ⟨index, hindex, happly⟩
  rw [SchemaChange.foldlM_eq_ok_iff hstep]
  simp only [List.flatMap_singleton']

theorem addTable_eq_ok_iff {s : Scope} {p : PersistentClass} {tables result : List Table} :
    s.addTable tables p = .ok result ↔
      ∃ changes, s.tableChanges p = .ok changes ∧
        SchemaChange.applyAll tables changes = .ok result := by
  unfold addTable tableChanges
  cases s.tableOf p.decl with
  | none => simp [SchemaChange.applyAll, pure_eq_ok_iff]
  | some table =>
    simp only [bind_eq_ok_iff, pure_eq_ok_iff, foldlM_addIndex_eq_ok_iff]
    constructor
    · intro hmade
      obtain ⟨middle, hmiddle, indices, hindices, hresult⟩ := hmade
      exact ⟨_, ⟨indices, hindices, rfl⟩,
        SchemaChange.applyAll_append_eq_ok_iff.mpr ⟨middle, hmiddle, hresult⟩⟩
    · intro hplanned
      obtain ⟨_, ⟨indices, hindices, rfl⟩, happly⟩ := hplanned
      obtain ⟨middle, hmiddle, hresult⟩ := SchemaChange.applyAll_append_eq_ok_iff.mp happly
      exact ⟨middle, hmiddle, indices, hindices, hresult⟩

theorem foldlM_addTable_eq_ok_iff {s : Scope} {classes : List PersistentClass}
    {tables result : List Table} :
    classes.foldlM s.addTable tables = .ok result ↔
      ∃ changes, classes.mapM s.tableChanges = .ok changes ∧
        SchemaChange.applyAll tables changes.flatten = .ok result := by
  have hstep : ∀ tables p result, s.addTable tables p = .ok result ↔
      ∃ changes, s.tableChanges p = .ok changes ∧
        SchemaChange.applyAll tables changes = .ok result :=
    fun _ _ _ ↦ addTable_eq_ok_iff
  rw [SchemaChange.foldlM_eq_ok_iff hstep]
  simp only [List.flatMap_id']

theorem resolveCollection_eq_ok_iff {s : Scope} {c : ClassDecl} {a : EffectiveAssociation}
    {tables result : List Table} {d : CollectionDescriptor} :
    s.resolveCollection tables c a = .ok (d, result) ↔
      ∃ changes, s.collectionPlan c a = .ok (d, changes) ∧
        SchemaChange.applyAll tables changes = .ok result := by
  simp only [resolveCollection, collectionPlan, bind_eq_ok_iff, pure_eq_ok_iff, Prod.exists,
    Prod.mk.injEq]
  constructor
  · intro hmade
    obtain ⟨options, hoptions, element, helement, remote, changes, hkeys, middle, hmiddle, order,
      horder, name, hname, rfl, rfl⟩ := hmade
    exact ⟨changes, ⟨options, hoptions, element, helement, remote, changes, hkeys, order, horder,
      name, hname, rfl, rfl⟩, hmiddle⟩
  · intro hplanned
    obtain ⟨changes, ⟨options, hoptions, element, helement, remote, _, hkeys, order, horder, name,
      hname, rfl, rfl⟩, hresult⟩ := hplanned
    exact ⟨options, hoptions, element, helement, remote, _, hkeys, result, hresult, order, horder,
      name, hname, rfl, rfl⟩

theorem resolveAssociation_eq_ok_iff {s : Scope} {c : ClassDecl} {a : EffectiveAssociation}
    {tables result : List Table} {d : Association} :
    s.resolveAssociation c tables a = .ok (d, result) ↔
      ∃ changes, s.associationPlan c a = .ok (d, changes) ∧
        SchemaChange.applyAll tables changes = .ok result := by
  unfold resolveAssociation associationPlan
  split
  · simp only [bind_eq_ok_iff, pure_eq_ok_iff, Prod.exists, Prod.mk.injEq,
      resolveCollection_eq_ok_iff]
    constructor
    · intro hmade
      obtain ⟨descriptor, _, ⟨changes, hplan, happly⟩, rfl, rfl⟩ := hmade
      exact ⟨changes, ⟨descriptor, changes, hplan, rfl, rfl⟩, happly⟩
    · intro hplanned
      obtain ⟨_, ⟨descriptor, changes, hplan, rfl, rfl⟩, happly⟩ := hplanned
      exact ⟨descriptor, result, ⟨changes, hplan, happly⟩, rfl, rfl⟩
  · simp only [bind_eq_ok_iff, pure_eq_ok_iff, Prod.exists, Prod.mk.injEq]
    constructor
    · intro hmade
      obtain ⟨descriptor, changes, hplan, _, happly, rfl, rfl⟩ := hmade
      exact ⟨changes, ⟨descriptor, changes, hplan, rfl, rfl⟩, happly⟩
    · intro hplanned
      obtain ⟨_, ⟨descriptor, changes, hplan, rfl, rfl⟩, happly⟩ := hplanned
      exact ⟨descriptor, changes, hplan, result, happly, rfl, rfl⟩

theorem resolveAssociations_eq_ok_iff {s : Scope} {c : ClassDecl}
    {associations : List EffectiveAssociation} {tables result : List Table}
    {ds : List Association} :
    s.resolveAssociations c tables associations = .ok (ds, result) ↔
      ∃ parts, associations.mapM (s.associationPlan c) = .ok parts ∧ ds = parts.map (·.1) ∧
        SchemaChange.applyAll tables (parts.flatMap (·.2)) = .ok result :=
  SchemaChange.pass_eq_ok_iff (fun _ ↦ rfl) (fun _ _ _ ↦ rfl)
    fun _ _ _ _ ↦ resolveAssociation_eq_ok_iff

theorem resolveClass_eq_ok_iff {s : Scope} {p : PersistentClass} {tables result : List Table}
    {d : ClassDescriptor} :
    s.resolveClass tables p = .ok (d, result) ↔
      ∃ changes, s.classPlan p = .ok (d, changes) ∧
        SchemaChange.applyAll tables changes = .ok result := by
  simp only [resolveClass, classPlan, bind_eq_ok_iff, pure_eq_ok_iff, Prod.exists, Prod.mk.injEq,
    resolveAssociations_eq_ok_iff]
  constructor
  · intro hmade
    obtain ⟨_, _, ⟨parts, hparts, rfl, happly⟩, procedures, hprocedures, rfl, rfl⟩ := hmade
    exact ⟨_, ⟨parts, hparts, procedures, hprocedures, rfl, rfl⟩, happly⟩
  · intro hplanned
    obtain ⟨_, ⟨parts, hparts, procedures, hprocedures, rfl, rfl⟩, happly⟩ := hplanned
    exact ⟨_, result, ⟨parts, hparts, rfl, happly⟩, procedures, hprocedures, rfl, rfl⟩

theorem resolveClasses_eq_ok_iff {s : Scope} {classes : List PersistentClass}
    {tables result : List Table} {ds : List ClassDescriptor} :
    s.resolveClasses tables classes = .ok (ds, result) ↔
      ∃ parts, classes.mapM s.classPlan = .ok parts ∧ ds = parts.map (·.1) ∧
        SchemaChange.applyAll tables (parts.flatMap (·.2)) = .ok result :=
  SchemaChange.pass_eq_ok_iff (fun _ ↦ rfl) (fun _ _ _ ↦ rfl) fun _ _ _ _ ↦ resolveClass_eq_ok_iff

end Scope

/-- A repository is resolved exactly when its classes are planned and the planned changes can be
made. -/
theorem Hierarchy.resolve_eq_ok_iff {h : Hierarchy} {checks : ChecksMode} {databaseName : String}
    {r : Repository} :
    h.resolve checks databaseName = .ok r ↔
      ∃ s changes, Scope.build h checks = .ok s ∧ s.plan = .ok (r.classes, changes) ∧
        SchemaChange.applyAll [] changes = .ok r.schema.tables ∧
        r.schema.databaseName = databaseName := by
  simp only [Hierarchy.resolve, Scope.plan, bind_eq_ok_iff, pure_eq_ok_iff, Prod.exists,
    Prod.mk.injEq, Scope.foldlM_addTable_eq_ok_iff, Scope.resolveClasses_eq_ok_iff]
  constructor
  · intro hmade
    obtain ⟨s, hs, middle, ⟨tables, htables, hmiddle⟩, _, result, ⟨parts, hparts, rfl, hresult⟩,
      rfl⟩ := hmade
    refine ⟨s, _, hs, ⟨tables, htables, parts, hparts, rfl, rfl⟩, ?_, rfl⟩
    exact SchemaChange.applyAll_append_eq_ok_iff.mpr ⟨middle, hmiddle, hresult⟩
  · intro hplanned
    obtain ⟨s, _, hs, ⟨tables, htables, parts, hparts, hclasses, rfl⟩, happly, rfl⟩ := hplanned
    obtain ⟨middle, hmiddle, hresult⟩ := SchemaChange.applyAll_append_eq_ok_iff.mp happly
    exact ⟨s, hs, middle, ⟨tables, htables, hmiddle⟩, _, _, ⟨parts, hparts, rfl, hresult⟩, by
      rw [hclasses]⟩

theorem resolveDeclarations_eq_ok_iff {decls : List ClassDecl} {checks : ChecksMode}
    {databaseName : String} {r : Repository} :
    resolveDeclarations decls checks databaseName = .ok r ↔
      ∃ h, Hierarchy.ofDeclarations decls = .ok h ∧ h.resolve checks databaseName = .ok r := by
  simp only [resolveDeclarations, bind_eq_ok_iff]

end ClassMap
