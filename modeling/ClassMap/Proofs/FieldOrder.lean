import ClassMap.Proofs.Members.Order
import ClassMap.Proofs.Members.Table
import ClassMap.Proofs.Resolution.Classes

/-!
Ordering by keys, exactly. Items without a key stay where they are, the places of the others are
filled with them in the order of their keys, and items of one key keep their order, so ordering once
more changes nothing. The fields of a class are ordered last, by the same option that becomes the
`id` of their descriptors, and so these come in ascending order in every class
(`orderByKeys_exact`).
-/

set_option autoImplicit false
set_option relaxedAutoImplicit false

namespace ClassMap

open Traversal

variable {α : Type} {items fillers result : List (α × Option Int32)} {key : Int32}

/-! ### Sorting -/

/-- Whether one of two items with keys may stand before the other. -/
def keyLe (a b : Int32 × α) : Bool :=
  decide (a.1 ≤ b.1)

theorem keyLe_trans (a b c : Int32 × α) (hab : keyLe a b = true) (hbc : keyLe b c = true) :
    keyLe a c = true :=
  decide_eq_true (Int32.le_trans (of_decide_eq_true hab) (of_decide_eq_true hbc))

theorem keyLe_total (a b : Int32 × α) : (keyLe a b || keyLe b a) = true := by
  rw [Bool.or_eq_true, keyLe, keyLe, decide_eq_true_eq, decide_eq_true_eq]
  exact Int32.le_total a.1 b.1

/-- Sorting leaves the items of one key in their order. -/
theorem filter_mergeSort_keyLe (key : Int32) (entries : List (Int32 × α)) :
    (entries.mergeSort keyLe).filter (·.1 == key) = entries.filter (·.1 == key) := by
  have hequal : (entries.filter (·.1 == key)).Pairwise (keyLe · · = true) := by
    refine List.pairwise_of_forall_mem_list fun a ha b hb ↦ decide_eq_true ?_
    have ha' : a.1 = key := by simpa using (List.mem_filter.mp ha).2
    have hb' : b.1 = key := by simpa using (List.mem_filter.mp hb).2
    rw [ha', hb']
    exact Int32.le_refl key
  have hsublist : (entries.filter (·.1 == key)).Sublist (entries.mergeSort keyLe) :=
    List.sublist_mergeSort keyLe_trans keyLe_total hequal List.filter_sublist
  have hinside := hsublist.filter (·.1 == key)
  simp only [List.filter_filter, Bool.and_self] at hinside
  have hlength := ((List.mergeSort_perm entries keyLe).filter (·.1 == key)).length_eq
  exact (hinside.eq_of_length hlength.symm).symm

/-! ### Items with their keys -/

/-- Items that are told apart from their keys by carrying them along. -/
def carryingKeys (items : List (α × Option Int32)) :
    List ((α × Option Int32) × Option Int32) :=
  items.map fun item ↦ (item, item.2)

/-- The items in the order of their keys, each with its key. -/
def reordered (items : List (α × Option Int32)) : List (α × Option Int32) :=
  orderByKeys (carryingKeys items)

/-- The items with a key, sorted by it. -/
def sortedItems (items : List (α × Option Int32)) : List (α × Option Int32) :=
  ((keyedItems (carryingKeys items)).mergeSort keyLe).map (·.2)

theorem reordered_eq_refill (items : List (α × Option Int32)) :
    reordered items = refill (carryingKeys items) (sortedItems items) := rfl

theorem map_fst_reordered (items : List (α × Option Int32)) :
    (reordered items).map (·.1) = orderByKeys items := by
  rw [reordered, ← orderByKeys_map, carryingKeys, List.map_map]
  exact congrArg orderByKeys (List.map_id' items)

theorem reordered_perm (items : List (α × Option Int32)) : (reordered items).Perm items := by
  have hitems : (carryingKeys items).map (·.1) = items := by
    rw [carryingKeys, List.map_map]
    exact List.map_id' items
  exact (orderByKeys_perm (carryingKeys items)).trans (List.Perm.of_eq hitems)

theorem map_snd_keyedItems_carryingKeys (items : List (α × Option Int32)) :
    (keyedItems (carryingKeys items)).map (·.2) = items.filter (·.2.isSome) := by
  induction items with
  | nil => rfl
  | cons item rest ih =>
    obtain ⟨x, key⟩ := item
    cases key with
    | none => exact ih
    | some key => exact congrArg ((x, some key) :: ·) ih

theorem snd_of_mem_keyedItems {entry : Int32 × (α × Option Int32)}
    (hentry : entry ∈ keyedItems (carryingKeys items)) : entry.2.2 = some entry.1 := by
  rw [keyedItems, carryingKeys, List.filterMap_map, List.mem_filterMap] at hentry
  obtain ⟨item, -, hitem⟩ := hentry
  obtain ⟨key, hkey, rfl⟩ := Option.map_eq_some_iff.mp hitem
  exact hkey

theorem snd_of_mem_mergeSort {entry : Int32 × (α × Option Int32)}
    (hentry : entry ∈ (keyedItems (carryingKeys items)).mergeSort keyLe) :
    entry.2.2 = some entry.1 :=
  snd_of_mem_keyedItems ((List.mergeSort_perm _ _).mem_iff.mp hentry)

theorem sortedItems_perm (items : List (α × Option Int32)) :
    (sortedItems items).Perm (items.filter (·.2.isSome)) := by
  rw [← map_snd_keyedItems_carryingKeys]
  exact (List.mergeSort_perm _ _).map _

theorem pairwise_sortedItems (items : List (α × Option Int32)) :
    ((sortedItems items).filterMap (·.2)).Pairwise (· ≤ ·) := by
  rw [sortedItems, List.filterMap_map, List.pairwise_filterMap]
  refine (List.pairwise_mergeSort keyLe_trans keyLe_total _).imp_of_mem ?_
  intro a b ha hb hab first hfirst second hsecond
  obtain rfl : a.1 = first := Option.some.inj ((snd_of_mem_mergeSort ha).symm.trans hfirst)
  obtain rfl : b.1 = second := Option.some.inj ((snd_of_mem_mergeSort hb).symm.trans hsecond)
  exact of_decide_eq_true hab

theorem filter_sortedItems (key : Int32) (items : List (α × Option Int32)) :
    (sortedItems items).filter (·.2 == some key) = items.filter (·.2 == some key) := by
  have hkeyed : ∀ entry ∈ keyedItems (carryingKeys items),
      (entry.1 == key) = ((·.2 == some key) ∘ Prod.snd) entry :=
    fun entry hentry ↦ by simp [snd_of_mem_keyedItems hentry]
  have hsorted : ∀ entry ∈ (keyedItems (carryingKeys items)).mergeSort keyLe,
      ((·.2 == some key) ∘ Prod.snd) entry = (entry.1 == key) :=
    fun entry hentry ↦ by simp [snd_of_mem_mergeSort hentry]
  have hsome : ∀ item : α × Option Int32, (item.2 == some key && item.2.isSome) =
      (item.2 == some key) := by
    rintro ⟨x, _ | k⟩ <;> simp
  calc (sortedItems items).filter (·.2 == some key)
      = (((keyedItems (carryingKeys items)).mergeSort keyLe).filter (·.1 == key)).map (·.2) := by
        rw [sortedItems, List.filter_map, List.filter_congr hsorted]
    _ = ((keyedItems (carryingKeys items)).map (·.2)).filter (·.2 == some key) := by
        rw [filter_mergeSort_keyLe, List.filter_congr hkeyed, List.filter_map]
    _ = items.filter (·.2 == some key) := by
        simp only [map_snd_keyedItems_carryingKeys, List.filter_filter, hsome]

/-! ### Filling the places -/

/-- The places of items with a key take the fillers, the others keep what they have. -/
structure Fills (items fillers result : List (α × Option Int32)) : Prop where
  unkeyed : ∀ (i : Nat) (x : α), items[i]? = some (x, none) → result[i]? = some (x, none)
  places : result.map (·.2.isSome) = items.map (·.2.isSome)
  keyed : result.filter (·.2.isSome) = fillers

theorem fills_refill (hkeyed : ∀ item ∈ fillers, item.2.isSome = true)
    (hlength : fillers.length = (items.filter (·.2.isSome)).length) :
    Fills items fillers (refill (carryingKeys items) fillers) := by
  induction items generalizing fillers with
  | nil =>
    obtain rfl : fillers = [] := List.eq_nil_of_length_eq_zero hlength
    exact ⟨fun i x hitem ↦ absurd hitem (by simp), rfl, rfl⟩
  | cons item rest ih =>
    obtain ⟨x, key⟩ := item
    -- only an item with a key takes from the fillers
    cases key with
    | none =>
      obtain ⟨hunkeyed, hplaces, hfilled⟩ := ih hkeyed hlength
      refine ⟨fun i y hitem ↦ ?_, congrArg (false :: ·) hplaces, hfilled⟩
      cases i with
      | zero => exact hitem
      | succ i => exact hunkeyed i y hitem
    | some key =>
      cases fillers with
      | nil => exact absurd hlength (by simp)
      | cons filler fillers =>
        obtain ⟨hfirst, hothers⟩ := List.forall_mem_cons.mp hkeyed
        obtain ⟨hunkeyed, hplaces, hfilled⟩ := ih hothers (Nat.succ.inj hlength)
        refine ⟨fun i y hitem ↦ ?_, ?_, ?_⟩
        · cases i with
          | zero => exact absurd hitem (by simp)
          | succ i => exact hunkeyed i y hitem
        · exact congrArg₂ List.cons hfirst hplaces
        · exact (List.filter_cons_of_pos (p := (·.2.isSome)) hfirst).trans
            (congrArg (filler :: ·) hfilled)

theorem fills_reordered (items : List (α × Option Int32)) :
    Fills items (sortedItems items) (reordered items) := by
  refine fills_refill (fun item hitem ↦ ?_) (sortedItems_perm items).length_eq
  exact (List.mem_filter.mp ((sortedItems_perm items).mem_iff.mp hitem)).2

/-- Filling the places of items with these items again. -/
theorem refill_filter (items : List (α × Option Int32)) :
    refill (carryingKeys items) (items.filter (·.2.isSome)) = items := by
  induction items with
  | nil => rfl
  | cons item rest ih =>
    obtain ⟨x, key⟩ := item
    cases key with
    | none => exact congrArg ((x, none) :: ·) ih
    | some key => exact congrArg ((x, some key) :: ·) ih

theorem map_fst_keyedItems_carryingKeys (items : List (α × Option Int32)) :
    (keyedItems (carryingKeys items)).map (·.1) = items.filterMap (·.2) := by
  induction items with
  | nil => rfl
  | cons item rest ih =>
    obtain ⟨x, key⟩ := item
    cases key with
    | none => exact ih
    | some key => exact congrArg (key :: ·) ih

/-- Items that stand in the order of their keys stay as they are. -/
theorem reordered_of_pairwise (hsorted : (items.filterMap (·.2)).Pairwise (· ≤ ·)) :
    reordered items = items := by
  rw [← map_fst_keyedItems_carryingKeys, List.pairwise_map] at hsorted
  have hkeyed : (keyedItems (carryingKeys items)).Pairwise (keyLe · · = true) :=
    hsorted.imp decide_eq_true
  have hstays : sortedItems items = items.filter (·.2.isSome) := by
    rw [sortedItems, List.mergeSort_of_pairwise hkeyed, map_snd_keyedItems_carryingKeys]
  rw [reordered_eq_refill, hstays, refill_filter]

/-- The items with a key have been put in the order of their keys, into the places they had. -/
structure OrderedByKeys (items result : List (α × Option Int32)) : Prop where
  perm : result.Perm items
  unkeyed : ∀ (i : Nat) (x : α), items[i]? = some (x, none) → result[i]? = some (x, none)
  places : result.map (·.2.isSome) = items.map (·.2.isSome)
  ascending : (result.filterMap (·.2)).Pairwise (· ≤ ·)
  stable : ∀ key, result.filter (·.2 == some key) = items.filter (·.2 == some key)

theorem orderedByKeys_reordered (items : List (α × Option Int32)) :
    OrderedByKeys items (reordered items) := by
  obtain ⟨hunkeyed, hplaces, hkeyed⟩ := fills_reordered items
  refine ⟨reordered_perm items, hunkeyed, hplaces, ?_, fun key ↦ ?_⟩
  · have hkeys : (reordered items).filterMap (·.2) = (sortedItems items).filterMap (·.2) := by
      rw [← hkeyed, List.filterMap_filter]
      refine List.filterMap_congr fun item _ ↦ ?_
      rcases item with ⟨x, _ | k⟩ <;> rfl
    exact hkeys ▸ pairwise_sortedItems items
  · have hsame : (reordered items).filter (·.2 == some key) =
        (sortedItems items).filter (·.2 == some key) := by
      rw [← hkeyed, List.filter_filter]
      refine List.filter_congr fun item _ ↦ ?_
      rcases item with ⟨x, _ | k⟩ <;> simp
    rw [hsame, filter_sortedItems]

/-- Ordering once more changes nothing. -/
theorem orderByKeys_reordered (items : List (α × Option Int32)) :
    orderByKeys (reordered items) = orderByKeys items := by
  rw [← map_fst_reordered, ← map_fst_reordered,
    reordered_of_pairwise (orderedByKeys_reordered items).ascending]

/-! ### Fields -/

theorem FieldDescriptor.id_of_build {className : String} {e : EffectiveField}
    {f : FieldDescriptor} (hbuild : build className e = .ok f) :
    TagReader.signed? ⟨className, e.tag⟩ "id" = .ok f.id := by
  simp only [build, bind_eq_ok_iff, pure_eq_ok_iff] at hbuild
  obtain ⟨options, hoptions, storage, -, rfl⟩ := hbuild
  simp only [FieldOptions.parse, bind_eq_ok_iff, pure_eq_ok_iff] at hoptions
  obtain ⟨_, -, _, -, _, -, _, -, _, -, _, -, _, -, _, -, _, -, _, -, _, -, id, hid, _, -, rfl⟩ :=
    hoptions
  exact hid

/-- The fields of a class, as they have been ordered, come to descriptors in the order of their
ids. -/
theorem pairwise_id_of_orderFields {className : String} {m ordered : EffectiveMembers}
    {fields : List FieldDescriptor} (horder : m.orderFields className = .ok ordered)
    (hbuild : ordered.fields.mapM (FieldDescriptor.build className) = .ok fields) :
    (fields.filterMap (·.id)).Pairwise (· ≤ ·) := by
  obtain ⟨keyed, hkeyed, hpure⟩ := bind_eq_ok_iff.mp horder
  obtain rfl := pure_eq_ok_iff.mp hpure
  have hread : ∀ item ∈ reordered keyed,
      TagReader.signed? ⟨className, item.1.tag⟩ "id" = .ok item.2 := by
    intro item hitem
    obtain ⟨f, -, hf⟩ := exists_of_mem_mapM hkeyed ((reordered_perm keyed).mem_iff.mp hitem)
    obtain ⟨key, hkey, hpair⟩ := bind_eq_ok_iff.mp hf
    obtain rfl := pure_eq_ok_iff.mp hpair
    exact hkey
  simp only [← map_fst_reordered, List.mapM_map] at hbuild
  have hids : fields.map (·.id) = (reordered keyed).map (·.2) :=
    map_eq_map_of_mapM hbuild fun item hitem f hf ↦
      Except.ok.inj ((FieldDescriptor.id_of_build hf).symm.trans (hread item hitem))
  have hkeys : fields.filterMap (·.id) = (reordered keyed).filterMap (·.2) := by
    simpa only [List.filterMap_map, Function.id_comp] using congrArg (List.filterMap id) hids
  exact hkeys ▸ (orderedByKeys_reordered keyed).ascending

/-- The effective members of a class have been put in the order of their keys last. -/
theorem Hierarchy.exists_orderFields {h : Hierarchy} {table : MemberTable} {c : ClassDecl}
    (hmembers : h.memberTable = .ok table) (hc : c ∈ h.classes) :
    ∃ m : EffectiveMembers, m.orderFields c.name = .ok (table.membersOf c) := by
  obtain ⟨hgrounded, hhas⟩ := memberTable_eq_ok hmembers
  have hstep := (hgrounded.step hc (hhas c hc)).2
  simp only [stepMembers, EffectiveMembers.complete, bind_eq_ok_iff] at hstep
  obtain ⟨_, -, _, -, patched, -, horder⟩ := hstep
  exact ⟨patched, horder⟩

/-- Ordering puts the items with a key in the order of their keys and leaves the others alone, and
it changes nothing when it is done once more; the fields of every resolved class come in the order
of their ids. -/
theorem orderByKeys_exact :
    (∀ (α : Type) (items : List (α × Option Int32)),
      OrderedByKeys items (reordered items) ∧
        orderByKeys items = (reordered items).map (·.1) ∧
        orderByKeys (reordered items) = orderByKeys items) ∧
    ∀ (decls : List ClassDecl) (checks : ChecksMode) (databaseName : String) (r : Repository),
      resolveDeclarations decls checks databaseName = .ok r →
        ∀ d ∈ r.classes, (d.fields.filterMap (·.id)).Pairwise (· ≤ ·) := by
  refine ⟨fun α items ↦ ⟨orderedByKeys_reordered items, (map_fst_reordered items).symm,
    orderByKeys_reordered items⟩, ?_⟩
  intro decls checks databaseName r hr d hd
  obtain ⟨h, s, changes, hresolved⟩ := exists_resolvedIn hr
  obtain ⟨p, hdescribes⟩ := Scope.exists_describes_of_mem hresolved.planned hd
  obtain ⟨m, horder⟩ := Hierarchy.exists_orderFields hresolved.built.members
    (hresolved.built.mem_classes hdescribes.mem)
  rw [hdescribes.fields]
  exact pairwise_id_of_orderFields horder (hresolved.built.mapM_build_eq hdescribes.mem)

/-- Names that are ordered by keys, one of them staying where it is. -/
def shelved : List (String × Option Int32) :=
  [("label", some 3), ("code", some 1), ("room", none), ("shelf", some 2)]

/-- A class with an id for one of its fields, and one below that inherits it under another id. -/
def drawers : List ClassDecl :=
  [{ name := "Drawer"
     tags := [⟨"ojb.class", []⟩]
     members := [⟨"label", "String", [⟨"ojb.field", []⟩]⟩,
       ⟨"code", "int", [⟨"ojb.field", [("id", "1"), ("primarykey", "true")]⟩]⟩] },
   { name := "Locker"
     superclass := some "Drawer"
     tags := [⟨"ojb.class", []⟩, ⟨"ojb.modify-inherited", [("name", "code"), ("id", "7")]⟩] }]

theorem orderByKeys_exact_drawers :
    OrderedByKeys shelved (reordered shelved) ∧
      ∃ r, resolveDeclarations drawers .strict "hall" = .ok r ∧
        ∀ d ∈ r.classes, (d.fields.filterMap (·.id)).Pairwise (· ≤ ·) := by
  have hok : (resolveDeclarations drawers .strict "hall").toBool = true := by decide +kernel
  obtain ⟨r, hr⟩ := exists_eq_ok_of_toBool hok
  exact ⟨(orderByKeys_exact.1 String shelved).1, r, hr,
    orderByKeys_exact.2 drawers .strict "hall" r hr⟩

end ClassMap
