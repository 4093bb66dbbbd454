import ClassMap.Proofs.Members.Settled
import ClassMap.Proofs.Resolution.Mapped

/-!
Patches that say what is so already. A class may restate the options of a member that it inherits,
each value as it stands and empty where nothing stands. Such a patch may still move values about in
the tag of the member, in places that nobody reads; so the effective members of the class, and of
all classes that build on it, settle as they would without the patch. Members that settle alike are
read alike, so the declarations without the patch have the same mapping, or the same error
(`restatement_invisible`).
-/

set_option autoImplicit false
set_option relaxedAutoImplicit false

namespace ClassMap

open Traversal

/-! ### Other patches -/

namespace ClassDecl

/-- Two declarations that differ in their patches of inherited members only. -/
structure DifferInPatches (c c' : ClassDecl) : Prop where
  name : c'.name = c.name
  kind : c'.kind = c.kind
  superclass : c'.superclass = c.superclass
  interfaces : c'.interfaces = c.interfaces
  members : c'.members = c.members
  tags : c'.tags.filter (·.name != TagName.modifyInherited) =
    c.tags.filter (·.name != TagName.modifyInherited)

namespace DifferInPatches

variable {c c' : ClassDecl} (hc : DifferInPatches c c')
include hc

theorem filterMap_tags {β : Type} {f : Tag → Option β}
    (hf : ∀ tag : Tag, tag.name = TagName.modifyInherited → f tag = none) :
    c'.tags.filterMap f = c.tags.filterMap f := by
  have hothers : ∀ tags : List Tag,
      (tags.filter (·.name != TagName.modifyInherited)).filterMap f = tags.filterMap f := by
    exact fun tags ↦ filterMap_filter_of_eq_none fun tag htag ↦ hf tag (by simpa using htag)
  rw [← hothers, hc.tags, hothers]

theorem filter_tags {p : Tag → Bool}
    (hp : ∀ tag : Tag, tag.name = TagName.modifyInherited → p tag = false) :
    c'.tags.filter p = c.tags.filter p := by
  rw [← List.filterMap_eq_filter]
  exact hc.filterMap_tags fun tag hname ↦ by rw [Option.guard, hp tag hname]; rfl

theorem tagsNamed {name : String} (hname : name ≠ TagName.modifyInherited) :
    c'.tagsNamed name = c.tagsNamed name :=
  hc.filter_tags fun _ htag ↦ beq_false_of_ne (htag ▸ hname.symm)

theorem supertypeNames : c'.supertypeNames = c.supertypeNames := by
  rw [ClassDecl.supertypeNames, ClassDecl.supertypeNames, hc.superclass, hc.interfaces]

theorem marker? : c'.marker? = c.marker? := by
  have hmarkers : (c'.tagsNamed TagName.classTag).head? = (c.tagsNamed TagName.classTag).head? := by
    rw [hc.tagsNamed (by decide)]
  rwa [ClassDecl.tagsNamed, ClassDecl.tagsNamed, List.head?_filter, List.head?_filter] at hmarkers

theorem parseOptions : c'.parseOptions = c.parseOptions := by
  rw [ClassDecl.parseOptions, ClassDecl.parseOptions, hc.marker?, hc.name]

theorem options : c'.options = c.options := by
  rw [ClassDecl.options, ClassDecl.options, hc.parseOptions]

theorem mappings : c'.mappings = c.mappings := by
  have hanonymous : c'.anonymousMappings = c.anonymousMappings :=
    hc.filterMap_tags fun tag hname ↦ by rw [hname]; rfl
  rw [ClassDecl.mappings, ClassDecl.mappings, hanonymous, memberMappings, memberMappings,
    hc.members]

theorem procedureTags : Scope.procedureTags c' = Scope.procedureTags c :=
  hc.filterMap_tags fun tag hname ↦ by rw [hname]; rfl

theorem argumentTags : Scope.argumentTags c' = Scope.argumentTags c :=
  hc.filter_tags fun tag hname ↦ by rw [Scope.declaresArgument, hname]; rfl

end DifferInPatches

/-- The declaration with `c'` in place of `c`. -/
def swapped (c c' d : ClassDecl) : ClassDecl :=
  if d = c then c' else d

variable {c c' d : ClassDecl}

theorem swapped_self (c c' : ClassDecl) : swapped c c' c = c' :=
  if_pos rfl

theorem swapped_of_ne (hne : d ≠ c) : swapped c c' d = d :=
  if_neg hne

/-- What is the same for the two classes is the same for all. -/
theorem apply_swapped {β : Type} (f : ClassDecl → β) (hf : f c' = f c) (d : ClassDecl) :
    f (swapped c c' d) = f d := by
  by_cases hd : d = c
  · rw [hd, swapped_self, hf]
  · rw [swapped_of_ne hd]

theorem map_swapped {pre post : List ClassDecl}
    (hnodup : ((pre ++ c :: post).map (·.name)).Nodup) :
    (pre ++ c :: post).map (swapped c c') = pre ++ c' :: post := by
  rw [List.map_append, List.map_cons, List.nodup_middle, List.nodup_cons, ← List.map_append]
    at hnodup
  have hothers : ∀ d ∈ pre ++ post, swapped c c' d = d := fun d hd ↦
    swapped_of_ne fun heq ↦ hnodup.1 (heq ▸ List.mem_map_of_mem hd)
  have hpre : pre.map (swapped c c') = pre :=
    (List.map_congr_left fun d hd ↦ hothers d (List.mem_append_left _ hd)).trans (List.map_id pre)
  have hpost : post.map (swapped c c') = post :=
    (List.map_congr_left fun d hd ↦ hothers d (List.mem_append_right _ hd)).trans
      (List.map_id post)
  rw [List.map_append, List.map_cons, swapped_self, hpre, hpost]

namespace DifferInPatches

variable (hc : DifferInPatches c c')
include hc

theorem keepsTables (h : Hierarchy) : KeepsTables h (swapped c c') id where
  name := apply_swapped _ hc.name
  supertypeNames d := by rw [apply_swapped ClassDecl.supertypeNames hc.supertypeNames]
  marked := apply_swapped (·.marker?.isSome) (by rw [hc.marker?])
  checked := apply_swapped (fun d ↦ (discard d.parseOptions : Except MappingError Unit))
    (by rw [hc.parseOptions])
  generateRepositoryInfo := apply_swapped (·.options.generateRepositoryInfo) (by rw [hc.options])
  determineExtents := apply_swapped (·.options.determineExtents) (by rw [hc.options])
  extentTags d := by
    rw [List.map_id]
    exact apply_swapped (·.tagsNamed TagName.extentClass) (hc.tagsNamed (by decide)) d
  extentName _ _ _ := rfl
  isInterface := apply_swapped (·.isInterface) (by rw [isInterface, isInterface, hc.kind])
  options := apply_swapped _ hc.options
  indexTags d := by
    rw [List.map_id]
    exact apply_swapped (·.tagsNamed TagName.index) (hc.tagsNamed (by decide)) d
  indexed := Tag.Agree.refl _

theorem keepsProcedures : KeepsProcedures (swapped c c') id where
  procedureTags d := by
    rw [Prod.map_id, List.map_id]
    exact apply_swapped Scope.procedureTags hc.procedureTags d
  argumentTags d := by
    rw [List.map_id]
    exact apply_swapped Scope.argumentTags hc.argumentTags d
  procedure := Tag.Agree.refl _
  runtime := Tag.Agree.refl _
  constant := Tag.Agree.refl _

end DifferInPatches

end ClassDecl

/-! ### Members that settle as before -/

/-- Members that settle alike are read alike. -/
theorem EffectiveMembers.readsAs_of_settled_eq {m m' : EffectiveMembers}
    (hm : m'.settled = m.settled) : m.ReadsAs m' := by
  have hagree : ∀ {keys : List String} {tag tag' : Tag}, tag'.settled = tag.settled →
      Tag.Agree keys tag tag' := fun htag ↦
    ⟨(Tag.settled_eq_iff.mp htag).1, fun key _ ↦ (Tag.settled_eq_iff.mp htag).2.2 key⟩
  obtain ⟨hfields, hassociations, hsuppressed⟩ := settled_eq_iff.mp hm
  refine ⟨(forall₂_of_map_eq hfields.symm).imp fun f f' hf ↦ ?_,
    (forall₂_of_map_eq hassociations.symm).imp fun a a' ha ↦ ?_, hsuppressed⟩
  · obtain ⟨hname, hdeclared, htype, htag, hdefault⟩ :=
      EffectiveField.settled_eq_iff.mp hf.2.2.symm
    exact ⟨hname, hdeclared, htype, hdefault, hagree htag⟩
  · obtain ⟨hname, hcollection, hdeclared, htype, htag⟩ :=
      EffectiveAssociation.settled_eq_iff.mp ha.2.2.symm
    exact ⟨hname, hcollection, hdeclared, htype, hagree htag, hagree htag⟩

namespace Hierarchy

/-- What a class inherits, before any of its patches. -/
def inherited (h : Hierarchy) (c : ClassDecl) : Except MappingError EffectiveMembers :=
  (h.inheritedFrom c).foldlM (inheritBy (h.membersOf h.depth [])) {}

variable {h : Hierarchy} {c d : ClassDecl} {φ : ClassDecl → ClassDecl} {m : EffectiveMembers}
  {plain plain' : ClassDecl → Except MappingError EffectiveMembers} {depth : Nat}
  {path : List String}

theorem distinct_inherited (hm : h.inherited c = .ok m) : m.Distinct := by
  refine foldlM_keeps EffectiveMembers.Distinct hm (fun above _ before after hstep hbefore ↦ ?_)
    ⟨List.nodup_nil, List.nodup_nil⟩
  obtain ⟨members, -, hafter⟩ := bind_eq_ok_iff.mp hstep
  obtain rfl := pure_eq_ok_iff.mp hafter
  exact hbefore.inherit

/-- A map of declarations that changes nothing but patches, and those in such a way that what a
class inherits settles under them as before. -/
structure KeepsSettled (h : Hierarchy) (φ : ClassDecl → ClassDecl) : Prop
    extends KeepsTables h φ id where
  mappings : ∀ d, (φ d).mappings = d.mappings
  nestedPatches : ∀ d, (φ d).tagsNamed TagName.modifyNested = d.tagsNamed TagName.modifyNested
  patched : ∀ d ∈ h.classes, ∀ m m' : EffectiveMembers, h.inherited d = .ok m →
    m'.settled = m.settled →
    EffectiveMembers.settled <$> m'.applyInheritedPatches (φ d) =
      EffectiveMembers.settled <$> m.applyInheritedPatches d

section Level

variable (hplain : ∀ e ∈ h.classes,
  EffectiveMembers.settled <$> plain' (φ e) = EffectiveMembers.settled <$> plain e)
include hplain

theorem map_settled_addMappingBy (hφ : KeepsPlace h φ) {own own' : OwnMembers}
    (hown : own'.settled = own.settled) (d : ClassDecl) (mapping : DeclaredMapping) :
    OwnMembers.settled <$> (h.mapped hφ).addMappingBy plain' (φ d) own' mapping =
      OwnMembers.settled <$> h.addMappingBy plain d own mapping := by
  have hsame : mapping.ReadsAs id mapping := ⟨rfl, rfl, rfl, rfl, rfl⟩
  rw [addMappingBy, addMappingBy, contribution_mapped hφ hsame, bind_map_left, map_bind, map_bind]
  refine bind_congr_ok fun contribution hcontribution ↦ ?_
  rcases contribution_eq_ok hcontribution with ⟨f, rfl, -⟩ | ⟨a, rfl, -⟩ |
    ⟨inner, rfl, -, hinner⟩
  · simp only [Contribution.mapped, hφ.name]
    exact OwnMembers.map_settled_addField hown rfl
  · simp only [Contribution.mapped, hφ.name]
    exact OwnMembers.map_settled_addAssociation hown a
  · simp only [Contribution.mapped, hφ.name]
    refine map_bind_congr (hplain inner (mem_classes_of_nestedClass hinner)) ?_
    exact fun _ _ _ _ hmembers ↦ OwnMembers.map_settled_addNested hown hmembers _

/-- One level of the recursion, if it inherits what the class inherits. -/
theorem KeepsSettled.map_settled_membersBy (hφ : h.KeepsSettled φ) (hd : d ∈ h.classes)
    (hinherited : ∀ raw, (h.inheritedFrom d).foldlM (inheritBy plain) {} = .ok raw →
      h.inherited d = .ok raw) :
    EffectiveMembers.settled <$> (h.mapped hφ.toKeepsPlace).membersBy plain' (φ d) =
      EffectiveMembers.settled <$> h.membersBy plain d := by
  have hraw : EffectiveMembers.settled <$>
        ((h.mapped hφ.toKeepsPlace).inheritedFrom (φ d)).foldlM (inheritBy plain') {} =
      EffectiveMembers.settled <$> (h.inheritedFrom d).foldlM (inheritBy plain) {} := by
    rw [inheritedFrom_mapped _ hφ.options, List.foldlM_map]
    refine map_foldlM_congr_left (fun e he m' m hsame ↦ ?_) rfl
    refine map_bind_congr (hplain e (mem_classes_of_mem_inheritedFrom he)) ?_
    exact fun _ _ _ _ habove ↦ congrArg Except.ok (EffectiveMembers.settled_inherit hsame habove)
  have hown : OwnMembers.settled <$> (φ d).mappings.foldlM
        ((h.mapped hφ.toKeepsPlace).addMappingBy plain' (φ d)) {} =
      OwnMembers.settled <$> d.mappings.foldlM (h.addMappingBy plain d) {} := by
    rw [hφ.mappings]
    exact map_foldlM_congr_left
      (fun mapping _ _ _ hsame ↦ map_settled_addMappingBy hplain _ hsame d mapping) rfl
  have hcomplete : EffectiveMembers.complete (φ d) = EffectiveMembers.complete d := by
    funext m own
    rw [EffectiveMembers.complete, EffectiveMembers.complete, EffectiveMembers.applyNestedPatches,
      EffectiveMembers.applyNestedPatches, hφ.nestedPatches, hφ.name]
  rw [membersBy, membersBy, hcomplete]
  refine map_bind_congr hraw fun raw' raw _ hok hsame ↦ ?_
  refine map_bind_congr (hφ.patched d hd raw raw' (hinherited raw hok) hsame) ?_
  refine fun inherited' inherited _ _ hpatched ↦ map_bind_congr hown ?_
  exact fun _ _ _ _ hown ↦ EffectiveMembers.map_settled_complete hpatched d hown

end Level

theorem KeepsSettled.map_settled_membersOf (hφ : h.KeepsSettled φ) (hpath : h.Underway depth path)
    (hd : d ∈ h.classes) :
    EffectiveMembers.settled <$> (h.mapped hφ.toKeepsPlace).membersOf depth path (φ d) =
      EffectiveMembers.settled <$> h.membersOf depth path d := by
  induction depth generalizing path d with
  | zero =>
    obtain ⟨k, hk⟩ := hpath.exists_succ
    exact absurd hk (by simp)
  | succ depth ih =>
    by_cases hunder : d.name ∈ path
    · rw [membersOf_of_mem (by rwa [hφ.name]), membersOf_of_mem hunder, hφ.name]
    · rw [membersOf_succ (by rwa [hφ.name]), membersOf_succ hunder, hφ.name]
      have hdeeper := hpath.push hd hunder
      refine hφ.map_settled_membersBy (fun e he ↦ ih hdeeper he) hd fun raw hraw ↦ ?_
      -- with more classes under way the recursion fails more often, but it gives nothing else
      refine foldlM_inheritBy_of_ok (fun e he m hm ↦ ?_) hraw
      exact membersOf_of_ok hdeeper (underway_nil h) (List.nil_subset _) he.mem_classes hm

theorem KeepsSettled.mirrorsMembers (hφ : h.KeepsSettled φ) :
    h.MirrorsMembers hφ.toKeepsTables :=
  mirrorsMembers_of_membersOf (fun _ _ ↦ EffectiveMembers.readsAs_of_settled_eq)
    fun _ hd ↦ hφ.map_settled_membersOf (underway_nil h) hd

/-! ### A patch that restates -/

/-- What a class inherits after those of the given tags that are patches of inherited members. -/
def inheritedAfter (h : Hierarchy) (c : ClassDecl) (tags : List Tag) :
    Except MappingError EffectiveMembers := do
  let inherited ← h.inherited c
  (tags.filter (·.name == TagName.modifyInherited)).foldlM
    (EffectiveMembers.applyInheritedPatch c.name) inherited

/-- A patch of an inherited member that says, where it stands behind the given tags, what the tag of
the member says already. -/
structure Restates (h : Hierarchy) (c : ClassDecl) (before : List Tag) (patch : Tag) : Prop where
  name : patch.name = TagName.modifyInherited
  restated : ∃ m, h.inheritedAfter c before = .ok m ∧ m.RestatedBy c.name patch

variable {before after : List Tag} {patch : Tag}

theorem Restates.differInPatches (hpatch : h.Restates c before patch)
    (htags : c.tags = before ++ patch :: after) :
    c.DifferInPatches { c with tags := before ++ after } := by
  refine ⟨rfl, rfl, rfl, rfl, rfl, ?_⟩
  rw [htags, List.filter_append, List.filter_append,
    List.filter_cons_of_neg (by simp [hpatch.name])]

/-- Without the patch, the class inherits members that settle as they do with it. -/
theorem Restates.map_settled_applyInheritedPatches (hpatch : h.Restates c before patch)
    (htags : c.tags = before ++ patch :: after) {m' : EffectiveMembers} (hm : h.inherited c = .ok m)
    (hsame : m'.settled = m.settled) :
    EffectiveMembers.settled <$> m'.applyInheritedPatches { c with tags := before ++ after } =
      EffectiveMembers.settled <$> m.applyInheritedPatches c := by
  obtain ⟨k, hk, hrestated⟩ := hpatch.restated
  obtain ⟨raw, hraw, hbefore⟩ := bind_eq_ok_iff.mp hk
  obtain rfl := Except.ok.inj (hraw.symm.trans hm)
  have hdistinct : k.Distinct := foldlM_keeps EffectiveMembers.Distinct hbefore
    (fun _ _ _ _ hstep ↦ EffectiveMembers.distinct_applyInheritedPatch hstep)
    (distinct_inherited hm)
  obtain ⟨result, hresult, hsettled⟩ :=
    EffectiveMembers.applyInheritedPatch_of_restatedBy hdistinct hrestated
  rw [EffectiveMembers.applyInheritedPatches, EffectiveMembers.applyInheritedPatches,
    ClassDecl.tagsNamed, ClassDecl.tagsNamed, htags, List.filter_append, List.filter_append,
    List.filter_cons_of_pos (by simp [hpatch.name]), List.foldlM_append, List.foldlM_append]
  refine map_bind_congr
    (EffectiveMembers.map_settled_foldlM_applyInheritedPatch hsame c.name _) ?_
  -- the tags before the patch leave both alike, and so does the patch on the side that has it
  intro k' k'' _ hk'' hfirst
  obtain rfl := Except.ok.inj (hk''.symm.trans hbefore)
  rw [List.foldlM_cons, hresult]
  exact EffectiveMembers.map_settled_foldlM_applyInheritedPatch (hfirst.trans hsettled.symm)
    c.name _

theorem Restates.keepsSettled (hpatch : h.Restates c before patch)
    (htags : c.tags = before ++ patch :: after) :
    h.KeepsSettled (c.swapped { c with tags := before ++ after }) := by
  have hdiffer := hpatch.differInPatches htags
  refine ⟨hdiffer.keepsTables h, ClassDecl.apply_swapped _ hdiffer.mappings,
    ClassDecl.apply_swapped (·.tagsNamed TagName.modifyNested) (hdiffer.tagsNamed (by decide)),
    fun d _ m m' hm hsame ↦ ?_⟩
  by_cases hd : d = c
  · subst hd
    rw [ClassDecl.swapped_self]
    exact hpatch.map_settled_applyInheritedPatches htags hm hsame
  · rw [ClassDecl.swapped_of_ne hd]
    exact EffectiveMembers.map_settled_foldlM_applyInheritedPatch hsame d.name _

end Hierarchy

/-- A patch that restates is as good as none: without it the declarations have the same mapping, or
the same error if they have none. -/
theorem restatement_invisible {pre post : List ClassDecl} {c : ClassDecl} {h : Hierarchy}
    {before after : List Tag} {patch : Tag}
    (hdecls : Hierarchy.ofDeclarations (pre ++ c :: post) = .ok h)
    (htags : c.tags = before ++ patch :: after) (hpatch : h.Restates c before patch)
    (checks : ChecksMode) (databaseName : String) :
    resolveDeclarations (pre ++ { c with tags := before ++ after } :: post) checks databaseName =
      resolveDeclarations (pre ++ c :: post) checks databaseName := by
  have hnodup : ((pre ++ c :: post).map (·.name)).Nodup := by
    rw [← Hierarchy.classes_of_ofDeclarations hdecls]
    exact h.nodup
  have hkeeps := hpatch.keepsSettled htags
  rw [← ClassDecl.map_swapped hnodup]
  refine resolveDeclarations_map hkeeps.name (hpatch.differInPatches htags).keepsProcedures
    (fun h' hdecls' ↦ ?_) checks databaseName
  obtain rfl := Except.ok.inj (hdecls'.symm.trans hdecls)
  exact ⟨hkeeps.toKeepsTables, hkeeps.mirrorsMembers⟩

/-- Vessels with a name whose column is written twice, the second being the one that counts. -/
def vessel : ClassDecl where
  name := "Vessel"
  members :=
    [⟨"id", "int", [⟨"ojb.field", [("primarykey", "true")]⟩]⟩,
      ⟨"name", "java.lang.String", [⟨"ojb.field", [("column", "CALL"), ("column", "NAME")]⟩]⟩]

/-- The column is that of the name already, and no length is given. -/
def restating : Tag :=
  ⟨"ojb.modify-inherited", [("name", "name"), ("column", "NAME"), ("length", "")]⟩

def ferry : ClassDecl where
  name := "Ferry"
  superclass := some "Vessel"
  tags := [⟨"ojb.class", []⟩, restating]

/-- Liners take the name on from ferries and write it elsewhere. -/
def liner : ClassDecl where
  name := "Liner"
  superclass := some "Ferry"
  tags := [⟨"ojb.class", []⟩, ⟨"ojb.modify-inherited", [("name", "name"), ("column", "LINE")]⟩]

theorem restatement_invisible_harbour :
    ∃ h, Hierarchy.ofDeclarations ([vessel] ++ ferry :: [liner]) = .ok h ∧
      ferry.tags = [⟨"ojb.class", []⟩] ++ restating :: [] ∧
      h.Restates ferry [⟨"ojb.class", []⟩] restating ∧
      (resolveDeclarations [vessel, ferry, liner] .strict "harbour").toBool = true ∧
      resolveDeclarations [vessel, { ferry with tags := [⟨"ojb.class", []⟩] }, liner] .strict
          "harbour" =
        resolveDeclarations [vessel, ferry, liner] .strict "harbour" := by
  have hok : (do
      let h ← Hierarchy.ofDeclarations ([vessel] ++ ferry :: [liner])
      let m ← h.inheritedAfter ferry [⟨"ojb.class", []⟩]
      return m.tag? "name") =
        .ok (some ⟨"ojb.field", [("column", "CALL"), ("column", "NAME")]⟩) := by
    decide +kernel
  obtain ⟨h, hdecls, hrest⟩ := bind_eq_ok_iff.mp hok
  obtain ⟨m, hm, htag⟩ := bind_eq_ok_iff.mp hrest
  have hpatch : h.Restates ferry [⟨"ojb.class", []⟩] restating := by
    refine ⟨rfl, m, hm, "name", _, by decide +kernel, pure_eq_ok_iff.mp htag, by decide, ?_⟩
    decide +kernel
  have htags : ferry.tags = [⟨"ojb.class", []⟩] ++ restating :: [] := rfl
  exact ⟨h, hdecls, htags, hpatch, by decide +kernel,
    restatement_invisible hdecls htags hpatch .strict "harbour"⟩

end ClassMap
