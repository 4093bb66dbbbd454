import ClassMap.Proofs.Resolution.Changes

/-!
What the two sides of a join table are checked for. The other side of a collection is the first of
the collections of its element class over the same table, copies of the collection itself aside;
whether that one leads back to the owner is not looked at. The columns that lead to the elements
are always those by which the other side leads to its owner, and none of them leads to the owner of
the collection as well.
-/

set_option autoImplicit false
set_option relaxedAutoImplicit false

namespace ClassMap

open Traversal

theorem sameColumns_iff {a b : List String} :
    sameColumns a b = true ↔ a.map Text.foldLatin = b.map Text.foldLatin := by
  induction a generalizing b with
  | nil => cases b <;> simp [sameColumns]
  | cons x xs ih =>
    cases b with
    | nil => simp [sameColumns]
    | cons y ys =>
      rw [List.map_cons, List.map_cons, List.cons.injEq, ← ih, ← Text.sameName_iff]
      simp only [sameColumns, List.length_cons, List.zip_cons_cons, List.all_cons,
        Bool.and_eq_true, beq_iff_eq, Nat.add_right_cancel_iff]
      exact and_left_comm

namespace CollectionDescriptor

/-- Made by the declaration that made another collection. -/
def isCopyOf (z x : CollectionDescriptor) : Bool :=
  z.name == x.name && z.declaredIn == x.declaredIn

/-- Over the join table of another collection, in any case of letters. -/
def sharesTable (z x : CollectionDescriptor) : Bool :=
  match z.indirectionTable, x.indirectionTable with
  | some table, some joinTable => Text.sameName table joinTable
  | _, _ => false

end CollectionDescriptor

/-- The collection of a class that is taken for the other side of `x`. -/
def ClassDescriptor.counterpart? (d : ClassDescriptor) (x : CollectionDescriptor) :
    Option CollectionDescriptor :=
  d.collections.find? fun z ↦ !z.isCopyOf x && z.sharesTable x

namespace Scope

variable {s : Scope} {c element : ClassDecl} {a : EffectiveAssociation}
  {changes : List SchemaChange} {d : CollectionDescriptor} {options : CollectionOptions}
  {joinTable : String}

theorem findSharing_cons {className : String} {other : EffectiveAssociation}
    {others : List EffectiveAssociation}
    (hparsed : CollectionOptions.parse className other.tag = .ok options) :
    findSharing className joinTable (other :: others) =
      if options.indirectionTable.any (Text.sameName · joinTable) then .ok (some options)
      else findSharing className joinTable others := by
  simp only [findSharing, hparsed, bind, Except.bind]
  cases options.indirectionTable <;> rfl

theorem ResolvedCollection.isCopyOf_eq {z : CollectionDescriptor} {other : EffectiveAssociation}
    (h : ResolvedCollection s c other z changes options element) (hname : d.name = a.name)
    (hdeclared : d.declaredIn = a.declaredIn) :
    z.isCopyOf d = (other.name == a.name && other.declaredIn == a.declaredIn) := by
  rw [CollectionDescriptor.isCopyOf, h.descriptor, hname, hdeclared]
  rfl

theorem ResolvedCollection.sharesTable_eq {z : CollectionDescriptor} {other : EffectiveAssociation}
    (h : ResolvedCollection s c other z changes options element)
    (hjoin : d.indirectionTable = some joinTable) :
    z.sharesTable d = options.indirectionTable.any (Text.sameName · joinTable) := by
  rw [CollectionDescriptor.sharesTable, h.indirectionTable_eq, hjoin]
  cases options.indirectionTable <;> rfl

/-- The search over associations finds what the search over their descriptors finds. -/
theorem foreignKeys_of_findSharing {others : List EffectiveAssociation}
    {parts : List (Association × List SchemaChange)} {found : Option CollectionOptions}
    (hjoin : d.indirectionTable = some joinTable) (hname : d.name = a.name)
    (hdeclared : d.declaredIn = a.declaredIn)
    (hparts : others.mapM (s.associationPlan element) = .ok parts)
    (hfound : findSharing element.name joinTable (others.filter fun other ↦ other.isCollection &&
      !(other.name == a.name && other.declaredIn == a.declaredIn)) = .ok found) :
    found.map (·.foreignKeys) =
      (((parts.map (·.1)).filterMap Association.collection?).find? fun z ↦
        !z.isCopyOf d && z.sharesTable d).map (·.foreignKeys) := by
  -- every association stands across from its descriptor, so both searches go through one list
  have hall := mapM_eq_ok_iff.mp hparts
  clear hparts
  induction hall with
  | nil =>
    obtain rfl := Except.ok.inj hfound
    rfl
  | @cons other part others parts hpart _ ih =>
    rcases associationPlan_eq_ok_iff.mp hpart with ⟨hkind, z, hz, hplan⟩ | ⟨hkind, z, hz, -⟩
    · have hkeep : Association.collection? part.1 = some z := by rw [hz]; rfl
      rw [List.map_cons, List.filterMap_cons_some hkeep]
      obtain ⟨options, target, hresolved⟩ := collectionPlan_eq_ok hplan
      have hcopy := hresolved.isCopyOf_eq hname hdeclared
      have hshares := hresolved.sharesTable_eq hjoin
      by_cases hsame : z.isCopyOf d = true
      · -- both pass over the collection itself, in whatever class it has come to
        rw [List.filter_cons_of_neg (by simp [← hcopy, hsame])] at hfound
        rw [List.find?_cons_of_neg (by simp [hsame])]
        exact ih hfound
      · rw [List.filter_cons_of_pos (by simp [← hcopy, hsame, hkind]),
          findSharing_cons hresolved.parsed, ← hshares] at hfound
        by_cases htable : z.sharesTable d = true
        · rw [if_pos htable] at hfound
          obtain rfl := Except.ok.inj hfound
          rw [List.find?_cons_of_pos (by simp [hsame, htable])]
          exact congrArg some hresolved.foreignKeys_eq.symm
        · rw [if_neg htable] at hfound
          rw [List.find?_cons_of_neg (by simp [htable])]
          exact ih hfound
    · have hdrop : Association.collection? part.1 = none := by rw [hz]; rfl
      rw [List.map_cons, List.filterMap_cons_none hdrop]
      rw [List.filter_cons_of_neg (by simp [hkind])] at hfound
      exact ih hfound

/-- A column that leads to the elements is one by which the other side leads to its owner. -/
theorem sameColumns_of_remoteKeys {remote : List String} {other : CollectionOptions}
    (hremote : remoteKeys c element a options joinTable (some other) = .ok remote)
    (hagree : checkAgreement c element a options joinTable (some other) = .ok ()) :
    sameColumns remote other.foreignKeys = true := by
  have hagrees : disagrees options other = false := by
    by_cases hdisagrees : disagrees options other = true
    · simp [checkAgreement, hdisagrees] at hagree
    · simpa using hdisagrees
  rw [remoteKeys] at hremote
  by_cases hgiven : options.remoteForeignKeys.isEmpty = true
  · -- what is not given is taken over from the other side, and what is given is compared with it
    simp only [hgiven, Bool.not_true, Bool.false_eq_true, if_false] at hremote
    obtain rfl := Except.ok.inj hremote
    exact sameColumns_iff.mpr rfl
  · simp only [hgiven, Bool.not_false, if_true] at hremote
    obtain rfl := Except.ok.inj hremote
    simp only [disagrees, Bool.or_eq_false_iff] at hagrees
    simpa [hgiven] using hagrees.2

theorem apart_of_checkDisjoint {foreignKeys remote : List String}
    (hdisjoint : checkDisjoint c a joinTable foreignKeys remote = .ok ()) :
    ∀ key ∈ foreignKeys, ∀ other ∈ remote, Text.sameName key other = false := by
  rw [checkDisjoint] at hdisjoint
  split at hdisjoint
  case h_1 => exact absurd hdisjoint (by simp)
  case h_2 hnone =>
    intro key hkey other hother
    rw [Text.sameName_comm]
    by_contra hsame
    refine List.find?_eq_none.mp hnone key hkey ?_
    exact List.any_eq_true.mpr ⟨other, hother, by simpa using hsame⟩

/-- What the two lists of columns of a collection over a join table have gone through. -/
theorem joinKeys_checked {remote : List String}
    (hkeys : s.joinKeys c element a options joinTable = .ok (remote, changes)) :
    ∃ reciprocal, s.findReciprocal element a joinTable = .ok reciprocal ∧
      (∀ other, reciprocal = some other → sameColumns remote other.foreignKeys = true) ∧
      ∀ key ∈ options.foreignKeys, ∀ other ∈ remote, Text.sameName key other = false := by
  simp only [joinKeys, bind_eq_ok_iff, pure_eq_ok_iff, Prod.mk.injEq] at hkeys
  obtain ⟨reciprocal, hreciprocal, _, hremote, ⟨⟩, hagree, ⟨⟩, hdisjoint, ⟨⟩, -, ⟨⟩, -, rfl, -⟩ :=
    hkeys
  refine ⟨reciprocal, hreciprocal, ?_, apart_of_checkDisjoint hdisjoint⟩
  rintro other rfl
  exact sameColumns_of_remoteKeys hremote hagree

/-- The other side that a collection was resolved with is the counterpart among the descriptors. -/
theorem Describes.foreignKeys_counterpart? {q : PersistentClass} {e : ClassDescriptor}
    (he : s.Describes q e) (hjoin : d.indirectionTable = some joinTable) (hname : d.name = a.name)
    (hdeclared : d.declaredIn = a.declaredIn) {reciprocal : Option CollectionOptions}
    (hfound : s.findReciprocal q.decl a joinTable = .ok reciprocal) :
    reciprocal.map (·.foreignKeys) = (e.counterpart? d).map (·.foreignKeys) := by
  obtain ⟨parts, hparts, hassociations⟩ := he.associations
  rw [ClassDescriptor.counterpart?, ClassDescriptor.collections, hassociations]
  exact foreignKeys_of_findSharing hjoin hname hdeclared hparts hfound

end Scope

end ClassMap
