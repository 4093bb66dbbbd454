import ClassMap.Proofs.Spelling.Members

/-!
Scopes of hierarchies that are folded to one. The same class has in both the same fields and
members after folding, and its table has one name up to the case of letters; so looking up fields,
classes, primary keys and the common table of a class comes to the same.
-/

set_option autoImplicit false
set_option relaxedAutoImplicit false

namespace ClassMap

open Traversal

/-! ### Fields -/

namespace FieldDescriptor

/-- The descriptor with one spelling for its column. -/
def folded (f : FieldDescriptor) : FieldDescriptor :=
  { f with column := Text.foldLatin f.column }

/-- Fields that are folded to the same are built to the same. -/
theorem matches_build {f g : EffectiveField} (h : f.folded = g.folded) (className : String) :
    Matches folded (build className f) (build className g) := by
  obtain ⟨hname, hdeclaredIn, htype, htag, hdefault⟩ := EffectiveField.mk.inj h
  have hoptions : Matches FieldOptions.folded (FieldOptions.parse className f.tag)
      (FieldOptions.parse className g.tag) := by
    refine .of_map_eq ?_
    rw [← FieldOptions.parse_folded, htag, FieldOptions.parse_folded]
  have htagName : f.tag.name = g.tag.name := by rw [← f.tag.name_folded, htag, g.tag.name_folded]
  rw [build, build]
  refine hoptions.bind fun options options' _ _ heq ↦ ?_
  obtain ⟨column, rfl, hcolumn⟩ := FieldOptions.exists_of_folded_eq heq
  have hstorage : f.storage className options = g.storage className { options with column } := by
    rw [EffectiveField.storage, EffectiveField.storage, htype, htagName, hname]
  have hgetD : ∀ (options : FieldOptions) (f : EffectiveField),
      Text.foldLatin ((options.column <|> f.defaultColumn).getD f.name) =
        (options.column.map Text.foldLatin <|> f.defaultColumn.map Text.foldLatin).getD
          (Text.foldLatin f.name) := by
    intro options f
    cases options.column <;> cases f.defaultColumn <;> rfl
  rw [hstorage]
  refine .bind_same fun storage _ ↦ .pure ?_
  rw [folded, folded, ofOptions, ofOptions, hgetD, hgetD, hcolumn, hdefault, hname, hdeclaredIn,
    htype]

end FieldDescriptor

namespace Scope

/-! ### Classes -/

/-- A class of one scope and the class of another scope that is folded to the same declaration. -/
structure SameClass (s t : Scope) (c c' : ClassDecl) : Prop where
  left : c ∈ s.hierarchy.classes
  right : c' ∈ t.hierarchy.classes
  folded_eq : c.folded = c'.folded

/-- Scopes that are the same but for the case of letters in the names of tables and columns. -/
structure SpelledLike (s t : Scope) : Prop where
  hierarchy : s.hierarchy.folded = t.hierarchy.folded
  checks : s.checks = t.checks
  classes : List.Forall₂
    (fun p q ↦ s.SameClass t p.decl q.decl ∧ List.Forall₂ (s.SameClass t) p.extents q.extents)
    s.classes t.classes
  members : ∀ c c', s.SameClass t c c' → (s.membersOf c).folded = (t.membersOf c').folded
  fields : ∀ c c', s.SameClass t c c' →
    (s.fieldsOf c).map FieldDescriptor.folded = (t.fieldsOf c').map FieldDescriptor.folded

variable {s t : Scope} {c c' d d' : ClassDecl}

namespace SameClass

theorem name_eq (hc : s.SameClass t c c') : c.name = c'.name :=
  ClassDecl.name_eq_of_folded_eq hc.folded_eq

theorem beq_eq (hc : s.SameClass t c c') (hd : s.SameClass t d d') : (c == d) = (c' == d') := by
  rw [← Hierarchy.beq_folded hc.left hd.left, hc.folded_eq, hd.folded_eq,
    Hierarchy.beq_folded hc.right hd.right]

theorem exists_options_eq (hc : s.SameClass t c c') :
    ∃ table, c'.options = { c.options with table } ∧
      c.options.table.map Text.foldLatin = table.map Text.foldLatin := by
  refine ClassOptions.exists_of_folded_eq ?_
  rw [← c.options_folded, hc.folded_eq, c'.options_folded]

theorem forall₂ {cs ds : List ClassDecl} (hcs : cs ⊆ s.hierarchy.classes)
    (hds : ds ⊆ t.hierarchy.classes) (h : cs.map ClassDecl.folded = ds.map ClassDecl.folded) :
    List.Forall₂ (s.SameClass t) cs ds :=
  (forall₂_of_map_eq h).imp fun _ _ hcd ↦ ⟨hcs hcd.1, hds hcd.2.1, hcd.2.2⟩

end SameClass

namespace SpelledLike

theorem isPersistent_eq (hsame : s.SpelledLike t) (hc : s.SameClass t c c') :
    s.isPersistent c = t.isPersistent c' := by
  have hall : s.classes.map (·.decl == c) = t.classes.map (·.decl == c') :=
    map_eq_map_of_forall₂ hsame.classes fun p q hpq ↦ hpq.1.beq_eq hc
  have hany := congrArg (List.any · id) hall
  rwa [List.any_map, List.any_map] at hany

theorem forall₂_extentsOf (hsame : s.SpelledLike t) (hc : s.SameClass t c c') :
    List.Forall₂ (s.SameClass t) (s.extentsOf c) (t.extentsOf c') := by
  have hclasses := hsame.classes
  rw [extentsOf, extentsOf]
  generalize s.classes = ps at hclasses
  generalize t.classes = qs at hclasses
  induction hclasses with
  | nil => exact .nil
  | @cons p q _ _ hpq _ ih =>
    rw [List.find?_cons, List.find?_cons, hpq.1.beq_eq hc]
    cases q.decl == c' with
    | true => exact hpq.2
    | false => exact ih

/-! ### Tables -/

theorem tableOf_eq (hsame : s.SpelledLike t) (hc : s.SameClass t c c') :
    (s.tableOf c).map Text.foldLatin = (t.tableOf c').map Text.foldLatin := by
  obtain ⟨table, hoptions, htable⟩ := hc.exists_options_eq
  have hgetD : ∀ (table : Option String) (name : String),
      Text.foldLatin (table.getD name) =
        (table.map Text.foldLatin).getD (Text.foldLatin name) := by
    intro table name
    cases table <;> rfl
  rw [tableOf, tableOf, hsame.isPersistent_eq hc, hoptions]
  split
  · rw [Option.map_some, Option.map_some, hgetD, hgetD, htable, hc.name_eq]
  · rfl

theorem tablesOf_eq (hsame : s.SpelledLike t) (hc : s.SameClass t c c') :
    (s.tablesOf c).map Text.foldLatin = (t.tablesOf c').map Text.foldLatin := by
  have hclasses : List.Forall₂ (s.SameClass t) (c :: s.extentsOf c) (c' :: t.extentsOf c') :=
    .cons hc (hsame.forall₂_extentsOf hc)
  have htables := map_eq_map_of_forall₂ hclasses fun _ _ hcd ↦ hsame.tableOf_eq hcd
  rw [tablesOf, tablesOf, List.map_filterMap, List.map_filterMap]
  have hnames := congrArg (List.filterMap id) htables
  rwa [List.filterMap_map, List.filterMap_map] at hnames

theorem uniformTable_eq (hsame : s.SpelledLike t) (hc : s.SameClass t c c') :
    (s.uniformTable c).map Text.foldLatin = (t.uniformTable c').map Text.foldLatin := by
  have htables := hsame.tablesOf_eq hc
  rw [uniformTable, uniformTable]
  cases hs : s.tablesOf c with
  | nil =>
    rw [hs] at htables
    rw [List.map_eq_nil_iff.mp htables.symm]
  | cons first others =>
    cases ht : t.tablesOf c' with
    | nil =>
      rw [hs, ht] at htables
      exact absurd htables (by simp)
    | cons first' others' =>
      rw [hs, ht] at htables
      obtain ⟨hfirst, hothers⟩ := List.cons.inj htables
      have hall := congrArg (List.all · (· == Text.foldLatin first)) hothers
      simp only [List.all_map] at hall
      have huniform :
          others.all (Text.sameName · first) = others'.all (Text.sameName · first') := by
        simp only [Text.sameName, ← hfirst]
        exact hall
      simp only [huniform]
      split
      · exact congrArg some hfirst
      · rfl

/-! ### Looking up -/

theorem primaryKeys_eq (hsame : s.SpelledLike t) (hc : s.SameClass t c c') :
    (s.primaryKeys c).map FieldDescriptor.folded =
      (t.primaryKeys c').map FieldDescriptor.folded := by
  have hfilter : ∀ fields : List FieldDescriptor,
      (fields.filter (·.primaryKey)).map FieldDescriptor.folded =
        (fields.map FieldDescriptor.folded).filter (·.primaryKey) := by
    intro fields
    rw [List.filter_map]
    rfl
  rw [primaryKeys, primaryKeys, hfilter, hfilter, hsame.fields c c' hc]

theorem matches_field (hsame : s.SpelledLike t) (hc : s.SameClass t c c') (name : String)
    (use : FieldUse) :
    Matches FieldDescriptor.folded (s.field c name use) (t.field c' name use) := by
  have hfind : ∀ (s : Scope) (c : ClassDecl),
      ((s.fieldsOf c).find? (·.name == Text.trim name)).map FieldDescriptor.folded =
        ((s.fieldsOf c).map FieldDescriptor.folded).find? (·.name == Text.trim name) := by
    intro s c
    rw [List.find?_map]
    rfl
  have hfound : ((s.fieldsOf c).find? (·.name == Text.trim name)).map FieldDescriptor.folded =
      ((t.fieldsOf c').find? (·.name == Text.trim name)).map FieldDescriptor.folded := by
    rw [hfind, hfind, hsame.fields c c' hc]
  have hsuppressed : (s.membersOf c).folded.isSuppressed = (t.membersOf c').folded.isSuppressed :=
    congrArg EffectiveMembers.isSuppressed (hsame.members c c' hc)
  rw [field, field, findField, findField]
  rcases option_cases_of_map_eq hfound with ⟨hf, hg⟩ | ⟨f, g, hf, hg, hfolded⟩
  · rw [hf, hg]
    exact .ite (iff_of_eq (congrArg (· (Text.trim name) = true) hsuppressed)) (.error _ _)
      (.error _ _)
  · rw [hf, hg]
    exact .ok hfolded

theorem matches_persistentClass (hsame : s.SpelledLike t) (className target : String)
    (use : ClassUse) :
    Matches ClassDecl.folded (s.persistentClass className target use)
      (t.persistentClass className target use) := by
  have hfound : (s.hierarchy.find? target).map ClassDecl.folded =
      (t.hierarchy.find? target).map ClassDecl.folded := by
    rw [← Hierarchy.find?_folded, hsame.hierarchy, Hierarchy.find?_folded]
  rw [persistentClass, persistentClass]
  rcases option_cases_of_map_eq hfound with ⟨hs, ht⟩ | ⟨c, c', hs, ht, hfolded⟩
  · rw [hs, ht]
    exact .error _ _
  · rw [hs, ht]
    have hc : s.SameClass t c c' :=
      ⟨Hierarchy.mem_of_declared? hs, Hierarchy.mem_of_declared? ht, hfolded⟩
    exact .ite (by rw [hsame.isPersistent_eq hc]) (.ok hc.folded_eq) (.error _ _)

end SpelledLike

/-! ### Building a scope -/

namespace Built

variable {h h' : Hierarchy} {checks : ChecksMode}

theorem forall₂_classes (hs : Built h checks s) (ht : Built h' checks t)
    (hh : h.folded = h'.folded) :
    List.Forall₂
      (fun p q ↦ s.SameClass t p.decl q.decl ∧ List.Forall₂ (s.SameClass t) p.extents q.extents)
      s.classes t.classes := by
  have hextents : ∀ {h : Hierarchy} {s : Scope} {p : PersistentClass}, Built h checks s →
      p ∈ s.classes → p.extents ⊆ s.hierarchy.classes := by
    intro h s p hs hp e he
    obtain ⟨⟨q, hq, rfl⟩, -⟩ := hs.mem_extents hp he
    exact hs.hierarchy ▸ hs.mem_classes hq
  have hclasses : List.map PersistentClass.folded <$> h.persistentClasses =
      List.map PersistentClass.folded <$> h'.persistentClasses := by
    rw [← Hierarchy.persistentClasses_folded, hh, Hierarchy.persistentClasses_folded]
  rw [hs.classes, ht.classes] at hclasses
  refine (forall₂_of_map_eq (Except.ok.inj hclasses)).imp fun p q hpq ↦ ?_
  obtain ⟨hp, hq, heq⟩ := hpq
  obtain ⟨hdecl, hextended⟩ := PersistentClass.mk.inj heq
  have hleft : p.decl ∈ s.hierarchy.classes := hs.hierarchy ▸ hs.mem_classes hp
  have hright : q.decl ∈ t.hierarchy.classes := ht.hierarchy ▸ ht.mem_classes hq
  exact ⟨⟨hleft, hright, hdecl⟩,
    SameClass.forall₂ (hextents hs hp) (hextents ht hq) hextended⟩

theorem folded_membersOf_eq (hs : Built h checks s) (ht : Built h' checks t)
    (hh : h.folded = h'.folded) (hc : s.SameClass t c c') :
    (s.membersOf c).folded = (t.membersOf c').folded := by
  obtain ⟨table, htable, hmembers⟩ := Hierarchy.exists_memberTable_of_folded_eq hh hs.members
  obtain rfl := Except.ok.inj (htable.symm.trans ht.members)
  exact hmembers c (hs.hierarchy ▸ hc.left) c' (ht.hierarchy ▸ hc.right) hc.folded_eq

/-- The fields of a class are built in both scopes, and to the same. -/
theorem matches_fields {m m' : EffectiveMembers} (hm : m.folded = m'.folded) (className : String) :
    Matches (List.map FieldDescriptor.folded) (m.fields.mapM (FieldDescriptor.build className))
      (m'.fields.mapM (FieldDescriptor.build className)) :=
  Matches.mapM (forall₂_of_map_eq (congrArg EffectiveMembers.fields hm)) fun _ _ hfg ↦
    FieldDescriptor.matches_build hfg.2.2 className

theorem folded_fieldsOf_eq (hs : Built h checks s) (ht : Built h' checks t)
    (hh : h.folded = h'.folded) (hc : s.SameClass t c c') :
    (s.fieldsOf c).map FieldDescriptor.folded = (t.fieldsOf c').map FieldDescriptor.folded := by
  have hclasses := hs.forall₂_classes ht hh
  have hnames : s.classes.map (·.decl.name) = t.classes.map (·.decl.name) :=
    map_eq_map_of_forall₂ hclasses fun _ _ hpq ↦ hpq.1.name_eq
  have hdecl : ∀ {h : Hierarchy} {s : Scope} {c : ClassDecl}, Built h checks s →
      c ∈ s.hierarchy.classes → c.name ∈ s.classes.map (·.decl.name) →
        ∃ p ∈ s.classes, p.decl = c := by
    intro h s c hs hc hname
    obtain ⟨p, hp, hpname⟩ := List.mem_map.mp hname
    exact ⟨p, hp, Hierarchy.eq_of_name_eq (hs.mem_classes hp) (hs.hierarchy ▸ hc) hpname⟩
  by_cases hname : c.name ∈ s.classes.map (·.decl.name)
  · obtain ⟨p, hp, rfl⟩ := hdecl hs hc.left hname
    obtain ⟨q, hq, rfl⟩ := hdecl ht hc.right (hc.name_eq ▸ hnames ▸ hname)
    have hbuilt := matches_fields (hs.folded_membersOf_eq ht hh hc) p.decl.name
    obtain ⟨fields, hfields, heq⟩ := hbuilt.exists_ok (hs.mapM_build_eq hp)
    rw [hc.name_eq, ht.mapM_build_eq hq] at hfields
    rw [heq, Except.ok.inj hfields]
  · have hnone : ¬ ∃ p ∈ s.classes, p.decl.name = c.name := fun ⟨p, hp, hpname⟩ ↦
      hname (List.mem_map.mpr ⟨p, hp, hpname⟩)
    have hnone' : ¬ ∃ q ∈ t.classes, q.decl.name = c'.name := fun ⟨q, hq, hqname⟩ ↦
      hname (hnames ▸ List.mem_map.mpr ⟨q, hq, hqname.trans hc.name_eq.symm⟩)
    rw [hs.fieldsOf_eq_nil hnone, ht.fieldsOf_eq_nil hnone']

/-- Scopes built for hierarchies that are folded to one are spelled alike. -/
theorem spelledLike (hs : Built h checks s) (ht : Built h' checks t) (hh : h.folded = h'.folded) :
    s.SpelledLike t where
  hierarchy := by rw [hs.hierarchy, ht.hierarchy, hh]
  checks := hs.checks.trans ht.checks.symm
  classes := hs.forall₂_classes ht hh
  members _ _ hc := hs.folded_membersOf_eq ht hh hc
  fields _ _ hc := hs.folded_fieldsOf_eq ht hh hc

/-- A scope can be built for the one hierarchy when it can be built for the other. -/
theorem exists_build_of_folded_eq (hs : Built h checks s) (hh : h.folded = h'.folded) :
    ∃ t, build h' checks = .ok t := by
  have hclasses : Matches (List.map PersistentClass.folded) h.persistentClasses
      h'.persistentClasses := by
    refine .of_map_eq ?_
    rw [← Hierarchy.persistentClasses_folded, hh, Hierarchy.persistentClasses_folded]
  obtain ⟨classes, hclasses', hdecls⟩ := hclasses.exists_ok hs.classes
  obtain ⟨members, hmembers, hfolded⟩ := Hierarchy.exists_memberTable_of_folded_eq hh hs.members
  have hfields : ∀ q ∈ classes, ∃ entry : String × List FieldDescriptor, (do
      let effective := (members.lookup q.decl.name).getD {}
      return (q.decl.name, ← effective.fields.mapM (FieldDescriptor.build q.decl.name))) =
        Except.ok entry := by
    intro q hq
    obtain ⟨p, hp, heq⟩ := List.mem_map.mp (hdecls ▸ List.mem_map_of_mem hq)
    have hdecl : p.decl.folded = q.decl.folded := congrArg PersistentClass.decl heq
    have hq' : q.decl ∈ h'.classes :=
      List.mem_of_mem_filter ((Hierarchy.persistentClasses_eq_ok hclasses').1 ▸
        List.mem_map_of_mem hq)
    have hm := hfolded p.decl (hs.mem_classes hp) q.decl hq' hdecl
    have hname : p.decl.name = q.decl.name := ClassDecl.name_eq_of_folded_eq hdecl
    obtain ⟨fields, hfields, -⟩ :=
      (matches_fields hm p.decl.name).exists_ok (hs.mapM_build_eq hp)
    rw [hname] at hfields
    exact ⟨_, bind_eq_ok_iff.mpr ⟨fields, hfields, rfl⟩⟩
  obtain ⟨fields, hfields⟩ := exists_mapM hfields
  refine ⟨{ hierarchy := h', checks, classes, members, fields }, ?_⟩
  rw [build]
  exact bind_eq_ok_iff.mpr ⟨classes, hclasses', bind_eq_ok_iff.mpr ⟨members, hmembers,
    bind_eq_ok_iff.mpr ⟨fields, hfields, rfl⟩⟩⟩

end Built

end Scope

end ClassMap
