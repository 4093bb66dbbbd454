import ClassMap.Proofs.Constraints
import ClassMap.Proofs.Resolution.JoinTable

/-!
Collections that lead to each other over one join table. Each of them is resolved against its
counterpart, the first other collection over the table that its element class has, and always
agrees with that one on the columns. Where the counterpart of a collection is the collection that
leads back, the two name the same columns crosswise; where it is another one, they do so only if
that one happens to lead to its owner by the same columns (`crossMatches_iff`).
-/

set_option autoImplicit false
set_option relaxedAutoImplicit false

namespace ClassMap

open Traversal

/-- Two collections name the columns of a join table crosswise, in any case of letters. -/
def CollectionDescriptor.CrossMatches (x y : CollectionDescriptor) : Prop :=
  sameColumns x.foreignKeys y.remoteForeignKeys = true ∧
    sameColumns x.remoteForeignKeys y.foreignKeys = true

/-- Two different collections over one join table, each with elements of the class that has the
other. -/
@[mk_iff]
structure Repository.Reciprocal (r : Repository) (c : ClassDescriptor) (x : CollectionDescriptor)
    (d : ClassDescriptor) (y : CollectionDescriptor) : Prop where
  owner : c ∈ r.classes
  collection : x ∈ c.collections
  other : d ∈ r.classes
  back : y ∈ d.collections
  ne : c.name ≠ d.name ∨ x.name ≠ y.name
  element : x.elementClassRef = d.name
  elementBack : y.elementClassRef = c.name
  shared : y.sharesTable x = true

/-- The collection of `d` that `x` was resolved against leads to its owner by the columns of `y`. If
there is none, `x` itself has to lead to its elements by these columns. -/
def ClassDescriptor.Answers (d : ClassDescriptor) (x y : CollectionDescriptor) : Prop :=
  match d.counterpart? x with
  | some z => sameColumns z.foreignKeys y.foreignKeys = true
  | none => sameColumns x.remoteForeignKeys y.foreignKeys = true

instance (x y : CollectionDescriptor) : Decidable (x.CrossMatches y) :=
  inferInstanceAs (Decidable (_ ∧ _))

instance (r : Repository) (c d : ClassDescriptor) (x y : CollectionDescriptor) :
    Decidable (r.Reciprocal c x d y) :=
  decidable_of_iff' _ (r.reciprocal_iff c x d y)

variable {r : Repository} {c d : ClassDescriptor} {x y z : CollectionDescriptor}

theorem sameColumns_comm (a b : List String) : sameColumns a b = sameColumns b a := by
  rw [Bool.eq_iff_iff, sameColumns_iff, sameColumns_iff, eq_comm]

theorem CollectionDescriptor.exists_joinTable_of_sharesTable (h : y.sharesTable x = true) :
    ∃ table joinTable, y.indirectionTable = some table ∧ x.indirectionTable = some joinTable ∧
      Text.sameName table joinTable = true := by
  rw [sharesTable] at h
  split at h
  case h_1 table joinTable htable hjoin => exact ⟨table, joinTable, htable, hjoin, h⟩
  case h_2 => exact absurd h (by simp)

theorem CollectionDescriptor.sharesTable_symm (h : y.sharesTable x = true) :
    x.sharesTable y = true := by
  obtain ⟨table, joinTable, htable, hjoin, hname⟩ := exists_joinTable_of_sharesTable h
  rw [sharesTable, htable, hjoin]
  exact Text.sameName_symm hname

theorem Repository.Reciprocal.symm (h : r.Reciprocal c x d y) : r.Reciprocal d y c x where
  owner := h.other
  collection := h.back
  other := h.owner
  back := h.collection
  ne := h.ne.imp Ne.symm Ne.symm
  element := h.elementBack
  elementBack := h.element
  shared := CollectionDescriptor.sharesTable_symm h.shared

namespace Repository.ResolvedIn

variable {decls : List ClassDecl} {checks : ChecksMode} {h : Hierarchy} {s : Scope}
  {changes : List SchemaChange}

/-- A collection agrees with its counterpart. -/
theorem sameColumns_counterpart (hr : r.ResolvedIn decls checks h s changes) (hc : c ∈ r.classes)
    (hx : x ∈ c.collections) (hd : d ∈ r.classes) (hname : x.elementClassRef = d.name)
    (hjoin : x.indirectionTable.isSome = true) (hz : d.counterpart? x = some z) :
    sameColumns x.remoteForeignKeys z.foreignKeys = true := by
  obtain ⟨p, q, a, part, options, element, helement, hp, hq, href, ha, hplan, hresolved⟩ :=
    hr.exists_resolvedCollection hc hx
  obtain rfl := hr.eq_of_name_eq helement hd (href.trans hname)
  rcases hresolved.keys_cases with ⟨hnone, -⟩ | ⟨joinTable, hsome, hkeys⟩
  · rw [hnone] at hjoin
    exact absurd hjoin (by simp)
  · obtain ⟨reciprocal, hreciprocal, hagrees, -⟩ := Scope.joinKeys_checked hkeys
    have hxname : x.name = a.name := by rw [hresolved.descriptor]; rfl
    have hsame := hq.foreignKeys_counterpart? hsome hxname hresolved.declaredIn_eq hreciprocal
    rw [hz] at hsame
    cases reciprocal with
    | none => simp at hsame
    | some other =>
      have hkeys : other.foreignKeys = z.foreignKeys := Option.some.inj hsame
      rw [← hkeys]
      exact hagrees other rfl

/-- One side of a pair leads to its elements by the columns of the other exactly when it was
resolved against columns that are the same. -/
theorem sameColumns_iff_answers (hr : r.ResolvedIn decls checks h s changes)
    (hpair : r.Reciprocal c x d y) :
    sameColumns x.remoteForeignKeys y.foreignKeys = true ↔ d.Answers x y := by
  rw [ClassDescriptor.Answers]
  cases hz : d.counterpart? x with
  | none => rfl
  | some z =>
    obtain ⟨_, joinTable, -, hjoin, -⟩ :=
      CollectionDescriptor.exists_joinTable_of_sharesTable hpair.shared
    have hagrees := hr.sameColumns_counterpart hpair.owner hpair.collection hpair.other
      hpair.element (by rw [hjoin]; rfl) hz
    simp only [sameColumns_iff] at hagrees ⊢
    rw [hagrees]

theorem crossMatches_iff (hr : r.ResolvedIn decls checks h s changes)
    (hpair : r.Reciprocal c x d y) : x.CrossMatches y ↔ d.Answers x y ∧ c.Answers y x := by
  rw [← hr.sameColumns_iff_answers hpair, ← hr.sameColumns_iff_answers hpair.symm,
    CollectionDescriptor.CrossMatches, sameColumns_comm x.foreignKeys, and_comm]

end Repository.ResolvedIn

/-- A collection that leads back and is passed over by the search was made by the same
declaration. -/
theorem Repository.Reciprocal.isCopyOf (hpair : r.Reciprocal c x d y)
    (hnone : d.counterpart? x = none) : y.isCopyOf x = true := by
  have hmissed := List.find?_eq_none.mp hnone y hpair.back
  simpa [hpair.shared] using hmissed

/-- Collections each of which is the counterpart of the other agree. -/
theorem crossMatches_of_counterparts {decls : List ClassDecl} {checks : ChecksMode}
    {databaseName : String} (hr : resolveDeclarations decls checks databaseName = .ok r)
    (hpair : r.Reciprocal c x d y) (hforth : d.counterpart? x = some y)
    (hback : c.counterpart? y = some x) : x.CrossMatches y := by
  obtain ⟨h, s, changes, hresolved⟩ := exists_resolvedIn hr
  refine (hresolved.crossMatches_iff hpair).mpr ?_
  rw [ClassDescriptor.Answers, ClassDescriptor.Answers, hforth, hback]
  exact ⟨sameColumns_iff.mpr rfl, sameColumns_iff.mpr rfl⟩

/-- Two collections that lead to each other over one join table name its columns crosswise exactly
when each was resolved against columns of the other; a collection that was resolved against none
is one of two copies of one declaration. -/
theorem counterparts_agree_iff {decls : List ClassDecl} {checks : ChecksMode}
    {databaseName : String} {r : Repository}
    (hr : resolveDeclarations decls checks databaseName = .ok r) :
    ∀ c x d y, r.Reciprocal c x d y →
      (x.CrossMatches y ↔ d.Answers x y ∧ c.Answers y x) ∧
      (d.counterpart? x = none → y.isCopyOf x = true) := by
  obtain ⟨h, s, changes, hresolved⟩ := exists_resolvedIn hr
  exact fun c x d y hpair ↦ ⟨hresolved.crossMatches_iff hpair, hpair.isCopyOf⟩

/-- Tags link to groups and to articles over one table, to groups first. -/
def press : List ClassDecl :=
  [{ name := "Article"
     tags := [⟨"ojb.class", []⟩]
     members := [⟨"id", "int", [⟨"ojb.field", [("primarykey", "true")]⟩]⟩,
       ⟨"tags", "Tag[]", [⟨"ojb.collection", [("indirection-table", "LINK"),
         ("foreignkey", "ARTICLE")]⟩]⟩] },
   { name := "Tag"
     tags := [⟨"ojb.class", []⟩]
     members := [⟨"id", "int", [⟨"ojb.field", [("primarykey", "true")]⟩]⟩,
       ⟨"groups", "Group[]", [⟨"ojb.collection", [("indirection-table", "LINK"),
         ("foreignkey", "TAG_OF_GROUP"), ("remote-foreignkey", "ARTICLE")]⟩]⟩,
       ⟨"articles", "Article[]", [⟨"ojb.collection", [("indirection-table", "LINK"),
         ("foreignkey", "TAG"), ("remote-foreignkey", "ARTICLE")]⟩]⟩] },
   { name := "Group"
     tags := [⟨"ojb.class", []⟩]
     members := [⟨"id", "int", [⟨"ojb.field", [("primarykey", "true")]⟩]⟩] }]

theorem counterparts_agree_iff_press :
    ∃ r, resolveDeclarations press .strict "press" = .ok r ∧
      ∃ c x d y, r.Reciprocal c x d y ∧
        (x.CrossMatches y ↔ d.Answers x y ∧ c.Answers y x) ∧
        (d.counterpart? x = none → y.isCopyOf x = true) := by
  have hpair : (do
      let r ← resolveDeclarations press .strict "press"
      return decide (∃ c ∈ r.classes, ∃ x ∈ c.collections, ∃ d ∈ r.classes,
        ∃ y ∈ d.collections, r.Reciprocal c x d y)) = .ok true := by
    decide +kernel
  obtain ⟨r, hr, hpure⟩ := bind_eq_ok_iff.mp hpair
  obtain ⟨c, -, x, -, d, -, y, -, hpair⟩ := of_decide_eq_true (pure_eq_ok_iff.mp hpure)
  exact ⟨r, hr, c, x, d, y, hpair, counterparts_agree_iff hr c x d y hpair⟩

/-- The tags of an article are resolved against the groups of a tag, not against its articles. -/
theorem not_counterparts_agree_press :
    ∃ r, resolveDeclarations press .strict "press" = .ok r ∧
      ∃ c x d y, r.Reciprocal c x d y ∧ ¬ x.CrossMatches y := by
  have hpair : (do
      let r ← resolveDeclarations press .strict "press"
      return decide (∃ c ∈ r.classes, ∃ x ∈ c.collections, ∃ d ∈ r.classes,
        ∃ y ∈ d.collections, r.Reciprocal c x d y ∧ ¬ x.CrossMatches y)) = .ok true := by
    decide +kernel
  obtain ⟨r, hr, hpure⟩ := bind_eq_ok_iff.mp hpair
  obtain ⟨c, -, x, -, d, -, y, -, hpair⟩ := of_decide_eq_true (pure_eq_ok_iff.mp hpure)
  exact ⟨r, hr, c, x, d, y, hpair⟩

end ClassMap
