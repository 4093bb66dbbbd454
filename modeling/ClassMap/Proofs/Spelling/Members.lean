import ClassMap.Proofs.MemberTable
import ClassMap.Proofs.Members.Mapped
import ClassMap.Proofs.Spelling.Hierarchy

/-!
The effective members of folded declarations. Inheriting, patching, replacing and ordering members
commute with the folding of their tags. Only the inlining of a field does not: the column it makes
up is spelled like the column it stands for. So the members of two hierarchies that are folded to
the same one are the same after folding once more.
-/

set_option autoImplicit false
set_option relaxedAutoImplicit false

namespace ClassMap

open Traversal

def EffectiveField.folded (f : EffectiveField) : EffectiveField :=
  { f with tag := f.tag.folded, defaultColumn := f.defaultColumn.map Text.foldLatin }

def EffectiveAssociation.folded (a : EffectiveAssociation) : EffectiveAssociation :=
  { a with tag := a.tag.folded }

/-! ### Patches -/

namespace Tag

theorem applyEntry_folded (target : Tag) (entry : String × String) :
    target.folded.applyEntry (entry.1, foldValue entry.1 entry.2) =
      (target.applyEntry entry).folded := by
  simp only [applyEntry, isEmpty_trim_foldValue, erase_folded, set_folded]
  split
  · rfl
  · split
    · rfl
    · rfl

theorem applyPatch_folded (target patch : Tag) :
    target.folded.applyPatch patch.folded = (target.applyPatch patch).folded := by
  rw [applyPatch, applyPatch, folded.eq_def patch, List.foldl_map]
  exact List.foldl_hom folded fun tag entry ↦ applyEntry_folded tag entry

/-- What a patch says itself is not folded. -/
theorem keepsPatches_folded : KeepsPatches folded where
  applyPatch := applyPatch_folded
  member className patch need :=
    TagReader.required_folded (r := ⟨className, patch⟩) (by decide) need
  suppresses className patch := by
    have hignore : patch.folded.get? "ignore" = patch.get? "ignore" :=
      get?_folded_of_not_mem (by decide)
    have hflag : (⟨className, patch.folded⟩ : TagReader).flag "ignore" false =
        (⟨className, patch⟩ : TagReader).flag "ignore" false :=
      TagReader.flag_folded (r := ⟨className, patch⟩) (by decide) false
    rw [suppresses, suppresses, hignore, hflag]
  place className tag := TagReader.signed?_folded (r := ⟨className, tag⟩) (by decide)

end Tag

namespace EffectiveMembers

/-- The members with one spelling for the names of tables and columns. -/
def folded (m : EffectiveMembers) : EffectiveMembers :=
  { m with
    fields := m.fields.map EffectiveField.folded
    associations := m.associations.map EffectiveAssociation.folded }

theorem inherit_folded (m above : EffectiveMembers) :
    m.folded.inherit above.folded = (m.inherit above).folded :=
  m.inherit_mapped Tag.folded (Option.map Text.foldLatin) above

theorem applyInheritedPatches_folded (m : EffectiveMembers) (c : ClassDecl) :
    m.folded.applyInheritedPatches c.folded = folded <$> m.applyInheritedPatches c :=
  applyInheritedPatches_mapped (Option.map Text.foldLatin) Tag.keepsPatches_folded c.name_folded
    (c.tagsNamed_folded TagName.modifyInherited)

end EffectiveMembers

/-! ### Own members -/

namespace EffectiveField

theorem foldLatin_baseColumn (f : EffectiveField) :
    Text.foldLatin f.folded.baseColumn = Text.foldLatin f.baseColumn := by
  have hdefault : Text.foldLatin ((f.defaultColumn.map Text.foldLatin).getD (flattenName f.name)) =
      Text.foldLatin (f.defaultColumn.getD (flattenName f.name)) := by
    cases f.defaultColumn with
    | none => rfl
    | some column => exact Text.foldLatin_foldLatin column
  have hcolumn : f.folded.tag.get? "column" = (f.tag.get? "column").map Text.foldLatin := by
    rw [folded, Tag.get?_folded, Tag.foldValue_of_mem (by decide)]
  rw [baseColumn, baseColumn, hcolumn]
  cases f.tag.get? "column" with
  | none => exact hdefault
  | some column =>
    simp only [Option.map_some, Text.trim_foldLatin, Text.isEmpty_foldLatin]
    split
    · exact hdefault
    · exact Text.foldLatin_foldLatin column

/-- A field takes the spelling of its column along into the class around it. -/
theorem folded_inlined_congr {f g : EffectiveField} (heq : f.folded = g.folded)
    (className owner : String) :
    (f.inlined className owner).folded = (g.inlined className owner).folded := by
  obtain ⟨hname, -, htype, htag, -⟩ := EffectiveField.mk.inj heq
  have hcolumn : Text.foldLatin f.baseColumn = Text.foldLatin g.baseColumn := by
    rw [← foldLatin_baseColumn, heq, foldLatin_baseColumn]
  simp only [inlined, folded, ← Tag.erase_folded, Option.map_some, Text.foldLatin_append, hname,
    htype, htag, hcolumn]

end EffectiveField

namespace OwnMembers

def folded (own : OwnMembers) : OwnMembers where
  fields := own.fields.map EffectiveField.folded
  associations := own.associations.map EffectiveAssociation.folded

variable (className : String) {own own' : OwnMembers}

theorem addField_folded (own : OwnMembers) (f : EffectiveField) :
    own.folded.addField className f.folded = folded <$> own.addField className f :=
  addField_mapped Tag.folded (Option.map Text.foldLatin) className own f

theorem addAssociation_folded (own : OwnMembers) (a : EffectiveAssociation) :
    own.folded.addAssociation className a.folded = folded <$> own.addAssociation className a :=
  addAssociation_mapped Tag.folded (Option.map Text.foldLatin) className own a

theorem matches_addNested {inner inner' : EffectiveMembers} (name : String)
    (hown : own.folded = own'.folded) (hinner : inner.folded = inner'.folded) :
    Matches folded (own.addNested className name inner) (own'.addNested className name inner') := by
  have hfields : (inner.fields.map (·.inlined className name)).map EffectiveField.folded =
      (inner'.fields.map (·.inlined className name)).map EffectiveField.folded := by
    rw [List.map_map, List.map_map]
    exact map_eq_map_of_map_eq (congrArg EffectiveMembers.fields hinner)
      fun f g heq ↦ EffectiveField.folded_inlined_congr heq className name
  refine Matches.foldlM (forall₂_of_map_eq hfields) (fun f g own own' hfg hown ↦ ?_) hown
  refine .of_map_eq ?_
  rw [← addField_folded, ← addField_folded, hown, hfg.2.2]

end OwnMembers

theorem EffectiveMembers.complete_folded (c : ClassDecl) (m : EffectiveMembers)
    (own : OwnMembers) : complete c.folded m.folded own.folded = folded <$> complete c m own :=
  complete_mapped (Option.map Text.foldLatin) Tag.keepsPatches_folded c.name_folded
    (c.tagsNamed_folded TagName.modifyNested) m own

def Contribution.folded : Contribution → Contribution
  | .field f => .field f.folded
  | .association a => .association a.folded
  | .nested name inner => .nested name inner.folded

/-! ### The members of a class -/

namespace Hierarchy

variable {h h' : Hierarchy} {c c' : ClassDecl} {path : List String} {depth : Nat}
  {plain plain' : ClassDecl → Except MappingError EffectiveMembers}

theorem contribution_folded (h : Hierarchy) (c : ClassDecl) (d : DeclaredMapping) :
    h.folded.contribution c.folded d.folded = Contribution.folded <$> h.contribution c d := by
  have hname : d.folded.name = d.name := rfl
  have hkind : d.folded.kind = d.kind := rfl
  unfold contribution
  simp only [hname, hkind, d.type?_folded, nestedClass_folded]
  split
  · rfl
  · cases d.kind with
    | field => rfl
    | reference => rfl
    | collection => rfl
    | nested => cases h.nestedClass c d <;> rfl

/-- One mapping, where the recursion shows the same of classes that are folded to one. -/
theorem matches_addMappingBy (hh : h.folded = h'.folded) (hc : c.folded = c'.folded)
    (hplain : ∀ d d' : ClassDecl, d.folded = d'.folded →
      Matches EffectiveMembers.folded (plain d) (plain' d'))
    {d d' : DeclaredMapping} (hd : d.folded = d'.folded) {own own' : OwnMembers}
    (hown : own.folded = own'.folded) :
    Matches OwnMembers.folded (h.addMappingBy plain c own d)
      (h'.addMappingBy plain' c' own' d') := by
  have hname : c.name = c'.name := ClassDecl.name_eq_of_folded_eq hc
  have hcontribution : Matches Contribution.folded (h.contribution c d)
      (h'.contribution c' d') := by
    refine .of_map_eq ?_
    rw [← contribution_folded, ← contribution_folded, hh, hc, hd]
  rw [addMappingBy, addMappingBy, ← hname]
  refine hcontribution.bind fun contribution contribution' _ _ heq ↦ ?_
  cases contribution with
  | field f =>
    cases contribution' with
    | field f' =>
      refine .of_map_eq ?_
      rw [← OwnMembers.addField_folded, ← OwnMembers.addField_folded, hown,
        Contribution.field.inj heq]
    | association a => exact absurd heq (by simp [Contribution.folded])
    | nested name inner => exact absurd heq (by simp [Contribution.folded])
  | association a =>
    cases contribution' with
    | field f => exact absurd heq (by simp [Contribution.folded])
    | association a' =>
      refine .of_map_eq ?_
      rw [← OwnMembers.addAssociation_folded, ← OwnMembers.addAssociation_folded, hown,
        Contribution.association.inj heq]
    | nested name inner => exact absurd heq (by simp [Contribution.folded])
  | nested name inner =>
    cases contribution' with
    | field f => exact absurd heq (by simp [Contribution.folded])
    | association a => exact absurd heq (by simp [Contribution.folded])
    | nested name' inner' =>
      obtain ⟨rfl, hinner⟩ := Contribution.nested.inj heq
      exact (hplain inner inner' hinner).bind fun m m' _ _ hm ↦
        OwnMembers.matches_addNested c.name name hown hm

/-- One level of the recursion. -/
theorem matches_membersBy (hh : h.folded = h'.folded) (hc : c.folded = c'.folded)
    (hplain : ∀ d d' : ClassDecl, d.folded = d'.folded →
      Matches EffectiveMembers.folded (plain d) (plain' d')) :
    Matches EffectiveMembers.folded (h.membersBy plain c) (h'.membersBy plain' c') := by
  have habove : (h.inheritedFrom c).map ClassDecl.folded =
      (h'.inheritedFrom c').map ClassDecl.folded := by
    rw [← inheritedFrom_folded, ← inheritedFrom_folded, hh, hc]
  have hmappings : c.mappings.map DeclaredMapping.folded =
      c'.mappings.map DeclaredMapping.folded := by
    rw [← ClassDecl.mappings_folded, ← ClassDecl.mappings_folded, hc]
  have hinherited : Matches EffectiveMembers.folded
      ((h.inheritedFrom c).foldlM (inheritBy plain) {})
      ((h'.inheritedFrom c').foldlM (inheritBy plain') {}) := by
    refine Matches.foldlM (forall₂_of_map_eq habove) (fun d d' m m' hd hm ↦ ?_) rfl
    refine (hplain d d' hd.2.2).bind fun above above' _ _ habove ↦ .ok ?_
    rw [← EffectiveMembers.inherit_folded, ← EffectiveMembers.inherit_folded, hm, habove]
  rw [membersBy, membersBy]
  refine hinherited.bind fun m m' _ _ hm ↦ ?_
  have hpatched : Matches EffectiveMembers.folded (m.applyInheritedPatches c)
      (m'.applyInheritedPatches c') := by
    refine .of_map_eq ?_
    rw [← EffectiveMembers.applyInheritedPatches_folded,
      ← EffectiveMembers.applyInheritedPatches_folded, hm, hc]
  refine hpatched.bind fun m m' _ _ hm ↦ ?_
  have hown : Matches OwnMembers.folded (c.mappings.foldlM (h.addMappingBy plain c) {})
      (c'.mappings.foldlM (h'.addMappingBy plain' c') {}) :=
    Matches.foldlM (forall₂_of_map_eq hmappings)
      (fun d d' own own' hd hown ↦ matches_addMappingBy hh hc hplain hd.2.2 hown) rfl
  refine hown.bind fun own own' _ _ hown ↦ .of_map_eq ?_
  rw [← EffectiveMembers.complete_folded, ← EffectiveMembers.complete_folded, hc, hm, hown]

/-- The members of classes that are folded to one, by plain recursion. -/
theorem matches_membersOf (hh : h.folded = h'.folded) (hc : c.folded = c'.folded) :
    Matches EffectiveMembers.folded (h.membersOf depth path c) (h'.membersOf depth path c') := by
  induction depth generalizing path c c' with
  | zero => exact .error _ _
  | succ depth ih =>
    have hname : c.name = c'.name := ClassDecl.name_eq_of_folded_eq hc
    by_cases hunder : c.name ∈ path
    · rw [membersOf_of_mem hunder, membersOf_of_mem (hname ▸ hunder)]
      exact .error _ _
    · rw [membersOf_succ hunder, membersOf_succ (hname ▸ hunder), hname]
      exact matches_membersBy hh hc fun d d' hd ↦ ih hd

/-- Hierarchies that are folded to one have their classes in step. -/
theorem exists_folded_eq (hh : h.folded = h'.folded) (hc : c' ∈ h'.classes) :
    ∃ c ∈ h.classes, c.folded = c'.folded := by
  have hmem : c'.folded ∈ h.folded.classes := hh ▸ List.mem_map_of_mem hc
  exact List.mem_map.mp hmem

/-- The members of all classes of hierarchies that are folded to one. -/
theorem exists_memberTable_of_folded_eq (hh : h.folded = h'.folded) {table : MemberTable}
    (htable : h.memberTable = .ok table) :
    ∃ table', h'.memberTable = .ok table' ∧ ∀ c ∈ h.classes, ∀ c' ∈ h'.classes,
      c.folded = c'.folded → (table.membersOf c).folded = (table'.membersOf c').folded := by
  have hdepth : h.depth = h'.depth := by rw [← h.depth_folded, hh, h'.depth_folded]
  have hmatches : ∀ c ∈ h.classes, ∀ c' : ClassDecl, c.folded = c'.folded →
      ∃ m', h'.membersOf h'.depth [] c' = .ok m' ∧ (table.membersOf c).folded = m'.folded := by
    intro c hc c' heq
    rw [← hdepth]
    exact (matches_membersOf hh heq).exists_ok (membersOf_of_memberTable htable hc)
  have hall : ∀ c' ∈ h'.classes, ∃ m', h'.membersOf h'.depth [] c' = .ok m' := by
    intro c' hc'
    obtain ⟨c, hc, heq⟩ := exists_folded_eq hh hc'
    obtain ⟨m', hm', -⟩ := hmatches c hc c' heq
    exact ⟨m', hm'⟩
  obtain ⟨ms, hms⟩ := exists_mapM hall
  have hmade := h'.memberTable_plain
  rw [hms] at hmade
  cases htable' : h'.memberTable with
  | error e =>
    rw [htable'] at hmade
    exact absurd hmade (by simp [Except.map])
  | ok table' =>
    refine ⟨table', rfl, fun c hc c' hc' heq ↦ ?_⟩
    obtain ⟨m', hm', hfolded⟩ := hmatches c hc c' heq
    obtain rfl := Except.ok.inj ((membersOf_of_memberTable htable' hc').symm.trans hm')
    exact hfolded

end Hierarchy

end ClassMap
