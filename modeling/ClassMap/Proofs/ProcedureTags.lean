import ClassMap.Proofs.Resolution.Arguments
import ClassMap.Proofs.Resolution.Plan
import ClassMap.Proofs.Restatement

/-!
Procedures are passed through. A class is read without its tags for procedures and their arguments
as with them for everything but its procedures, so a resolution is one of the declarations without
these tags together with the procedures of each class (`resolveDeclarations_eq_ok_iff_apart`). It
follows that such tags have no part in the schema nor in anything else of a class, and that the
order of the tags of arguments, and their place among the others, decide nothing at all
(`procedures_passedThrough`).
-/

set_option autoImplicit false
set_option relaxedAutoImplicit false

namespace ClassMap

open Traversal

/-! ### Declarations without procedures -/

/-- Whether a tag declares a procedure or an argument of procedures. -/
def Tag.isProcedural (tag : Tag) : Bool :=
  (ProcedureKind.ofTagName? tag.name).isSome || Scope.declaresArgument tag

namespace ClassDecl

/-- The declaration without the tags of procedures and their arguments. -/
def withoutProcedures (c : ClassDecl) : ClassDecl :=
  { c with tags := c.tags.filter fun tag ↦ !tag.isProcedural }

variable (c : ClassDecl)

theorem filterMap_tags_withoutProcedures {β : Type} {f : Tag → Option β}
    (hf : ∀ tag : Tag, tag.isProcedural = true → f tag = none) :
    c.withoutProcedures.tags.filterMap f = c.tags.filterMap f := by
  exact filterMap_filter_of_eq_none fun tag htag ↦ hf tag (by simpa using htag)

theorem tagsNamed_withoutProcedures {name : String}
    (hname : (⟨name, []⟩ : Tag).isProcedural = false) :
    c.withoutProcedures.tagsNamed name = c.tagsNamed name := by
  rw [tagsNamed, tagsNamed, ← List.filterMap_eq_filter]
  refine c.filterMap_tags_withoutProcedures fun tag htag ↦ ?_
  have hne : tag.name ≠ name := by
    rintro rfl
    exact absurd (htag.symm.trans hname) (by simp)
  simp [Option.guard, hne]

theorem marker?_withoutProcedures : c.withoutProcedures.marker? = c.marker? := by
  have hclass : (⟨TagName.classTag, []⟩ : Tag).isProcedural = false := by decide
  have hmarkers := congrArg List.head? (c.tagsNamed_withoutProcedures hclass)
  rwa [tagsNamed, tagsNamed, List.head?_filter, List.head?_filter] at hmarkers

theorem parseOptions_withoutProcedures : c.withoutProcedures.parseOptions = c.parseOptions := by
  rw [parseOptions, parseOptions, marker?_withoutProcedures]
  rfl

theorem options_withoutProcedures : c.withoutProcedures.options = c.options := by
  rw [options, options, parseOptions_withoutProcedures]

theorem mappings_withoutProcedures : c.withoutProcedures.mappings = c.mappings := by
  have hanonymous : c.withoutProcedures.anonymousMappings = c.anonymousMappings := by
    refine c.filterMap_tags_withoutProcedures fun tag htag ↦ ?_
    have hkind : MappingKind.ofTagName? tag.name = none := by
      simp only [Tag.isProcedural, ProcedureKind.ofTagName?, Scope.declaresArgument,
        Bool.or_eq_true, beq_iff_eq] at htag
      rcases htag with htag | hname | hname
      · split_ifs at htag with hname hname hname
        · exact hname ▸ by decide
        · exact hname ▸ by decide
        · exact hname ▸ by decide
        · exact absurd htag (by simp)
      · exact hname ▸ by decide
      · exact hname ▸ by decide
    rw [hkind]
    rfl
  rw [mappings, mappings, hanonymous]
  rfl

theorem procedureTags_withoutProcedures : Scope.procedureTags c.withoutProcedures = [] := by
  refine List.filterMap_eq_nil_iff.mpr fun tag htag ↦ ?_
  have hleft := (List.mem_filter.mp htag).2
  simp only [Tag.isProcedural, Bool.not_eq_true', Bool.or_eq_false_iff, Option.isSome_eq_false_iff,
    Option.isNone_iff_eq_none] at hleft
  rw [hleft.1]
  rfl

theorem argumentTags_withoutProcedures : Scope.argumentTags c.withoutProcedures = [] := by
  refine List.filter_eq_nil_iff.mpr fun tag htag ↦ ?_
  have hleft := (List.mem_filter.mp htag).2
  simp only [Tag.isProcedural, Bool.not_eq_true', Bool.or_eq_false_iff] at hleft
  simp [hleft.2]

theorem keepsTables_withoutProcedures (h : Hierarchy) : KeepsTables h withoutProcedures id where
  name _ := rfl
  supertypeNames _ := rfl
  marked c := by rw [marker?_withoutProcedures]
  checked c := by rw [parseOptions_withoutProcedures]
  generateRepositoryInfo c := by rw [options_withoutProcedures]
  determineExtents c := by rw [options_withoutProcedures]
  extentTags c := by rw [tagsNamed_withoutProcedures c (by decide), List.map_id]
  extentName _ _ _ := rfl
  isInterface _ := rfl
  options := options_withoutProcedures
  indexTags c := by rw [tagsNamed_withoutProcedures c (by decide), List.map_id]
  indexed := Tag.Agree.refl _

theorem keepsSettled_withoutProcedures (h : Hierarchy) : h.KeepsSettled withoutProcedures where
  toKeepsTables := keepsTables_withoutProcedures h
  mappings := mappings_withoutProcedures
  nestedPatches c := c.tagsNamed_withoutProcedures (by decide)
  patched c _ m m' _ hm := by
    rw [EffectiveMembers.applyInheritedPatches, EffectiveMembers.applyInheritedPatches,
      tagsNamed_withoutProcedures c (by decide)]
    exact EffectiveMembers.map_settled_foldlM_applyInheritedPatch hm c.name _

end ClassDecl

/-! ### Resolution apart from procedures -/

/-- The descriptor without the procedures. -/
def ClassDescriptor.withoutProcedures (d : ClassDescriptor) : ClassDescriptor :=
  { d with procedures := [] }

def Repository.withoutProcedures (r : Repository) : Repository :=
  { r with classes := r.classes.map ClassDescriptor.withoutProcedures }

namespace Scope

variable {s s' : Scope} {p : PersistentClass} {tables result : List Table}

theorem procedures_withoutProcedures (s : Scope) (c : ClassDecl) :
    s.procedures c.withoutProcedures = .ok [] := by
  rw [procedures, arguments, Mirrors.foldlM_addArgument, c.argumentTags_withoutProcedures,
    c.procedureTags_withoutProcedures]
  rfl

namespace Mirrors

variable {hφ : KeepsTables s.hierarchy ClassDecl.withoutProcedures id} (hm : Mirrors hφ s')
  (hs : Built s.hierarchy s.checks s)
include hm hs

/-- A class is resolved if it is so without its procedures and the procedures are resolved. -/
theorem resolveClass_eq_ok_iff_apart (hp : p ∈ s.classes) {d : ClassDescriptor} :
    s.resolveClass tables p = .ok (d, result) ↔
      s'.resolveClass tables (p.mapped ClassDecl.withoutProcedures) =
          .ok (d.withoutProcedures, result) ∧
        s.procedures p.decl = .ok d.procedures := by
  have hc := hs.mem_classes hp
  have htypes := (Hierarchy.declaresType_of_mem_classes hs.members hc).associations
  have hassociations := hm.resolveAssociations_eq hs hc (hm.members _ hc).associations htypes tables
  have hdecl : (p.mapped ClassDecl.withoutProcedures).decl = p.decl.withoutProcedures := rfl
  simp only [resolveClass, hdecl, hassociations, hm.describe_eq hs hp,
    procedures_withoutProcedures, bind_eq_ok_iff, pure_eq_ok_iff, Prod.exists, Prod.mk.injEq,
    Except.ok.injEq, exists_eq_left']
  constructor
  · rintro ⟨associations, _, hresolved, procedures, hprocedures, rfl, rfl⟩
    exact ⟨⟨associations, _, hresolved, rfl, rfl⟩, hprocedures⟩
  · rintro ⟨⟨associations, _, hresolved, hdescribed, rfl⟩, hprocedures⟩
    refine ⟨associations, _, hresolved, d.procedures, hprocedures, ?_, rfl⟩
    exact congrArg (fun bare : ClassDescriptor ↦ { bare with procedures := d.procedures })
      hdescribed

theorem resolveClasses_eq_ok_iff_apart {classes : List PersistentClass}
    (hclasses : classes ⊆ s.classes) {ds : List ClassDescriptor} :
    s.resolveClasses tables classes = .ok (ds, result) ↔
      s'.resolveClasses tables (classes.map (PersistentClass.mapped ClassDecl.withoutProcedures)) =
          .ok (ds.map ClassDescriptor.withoutProcedures, result) ∧
        List.Forall₂ (fun p d ↦ s.procedures p.decl = .ok d.procedures) classes ds := by
  induction classes generalizing tables result ds with
  | nil =>
    cases ds with
    | nil => simp [resolveClasses]
    | cons d rest => simp [resolveClasses]
  | cons p rest ih =>
    obtain ⟨hp, hrest⟩ := List.cons_subset.mp hclasses
    simp only [List.map_cons, resolveClasses, bind_eq_ok_iff, pure_eq_ok_iff, Prod.exists,
      Prod.mk.injEq, hm.resolveClass_eq_ok_iff_apart hs hp, ih hrest]
    constructor
    · rintro ⟨d, middle, ⟨hfirst, hprocedures⟩, others, _, ⟨hothers, hall⟩, rfl, rfl⟩
      exact ⟨⟨_, middle, hfirst, _, _, hothers, rfl, rfl⟩, .cons hprocedures hall⟩
    · rintro ⟨⟨first, middle, hfirst, others, _, hothers, hds, rfl⟩, hall⟩
      cases hall with
      | cons hprocedures hall =>
        obtain ⟨rfl, rfl⟩ := List.cons.inj hds
        exact ⟨_, middle, ⟨hfirst, hprocedures⟩, _, _, ⟨hothers, hall⟩, rfl, rfl⟩

end Mirrors

end Scope

namespace Hierarchy

variable {h h' : Hierarchy} {s s' : Scope} {checks : ChecksMode} {databaseName : String}
  {r : Repository}

/-- The same classes without the tags of procedures and their arguments. -/
def withoutProcedures (h : Hierarchy) : Hierarchy :=
  h.mapped (ClassDecl.keepsTables_withoutProcedures h).toKeepsPlace

/-- The procedures of the persistent classes are those of the descriptors. -/
def HasProcedures (h : Hierarchy) (checks : ChecksMode) (ds : List ClassDescriptor) : Prop :=
  ∃ s, Scope.build h checks = .ok s ∧
    List.Forall₂ (fun p d ↦ s.procedures p.decl = .ok d.procedures) s.classes ds

theorem mirrors_withoutProcedures (hbuild : Scope.build h checks = .ok s) :
    ∃ s', Scope.build h.withoutProcedures checks = .ok s' ∧
      ∃ hφ : KeepsTables s.hierarchy ClassDecl.withoutProcedures id, Scope.Mirrors hφ s' :=
  (build_mapped (ClassDecl.keepsSettled_withoutProcedures h).mirrorsMembers checks).1 s hbuild

theorem exists_build_of_withoutProcedures
    (hbuild : Scope.build h.withoutProcedures checks = .ok s') :
    ∃ s, Scope.build h checks = .ok s := by
  have hmirrors := (ClassDecl.keepsSettled_withoutProcedures h).mirrorsMembers
  cases hfull : Scope.build h checks with
  | ok s => exact ⟨s, rfl⟩
  | error e =>
    have herror := (build_mapped hmirrors checks).2 e hfull
    exact absurd (hbuild.symm.trans herror) (by simp)

theorem resolve_eq_ok_iff_apart :
    h.resolve checks databaseName = .ok r ↔
      h.withoutProcedures.resolve checks databaseName = .ok r.withoutProcedures ∧
        h.HasProcedures checks r.classes := by
  have hsame : ∀ s, Scope.build h checks = .ok s →
      ((do
        let tables ← s.classes.foldlM s.addTable []
        let resolved ← s.resolveClasses tables s.classes
        return ({ classes := resolved.1, schema := ⟨databaseName, resolved.2⟩ } : Repository)) =
          .ok r ↔
      h.withoutProcedures.resolve checks databaseName = .ok r.withoutProcedures ∧
        List.Forall₂ (fun p d ↦ s.procedures p.decl = .ok d.procedures) s.classes r.classes) := by
    intro s hbuild
    obtain ⟨s', hbuild', hφ, hm⟩ := mirrors_withoutProcedures hbuild
    have hs := Scope.built_of_build hbuild
    obtain rfl := hs.hierarchy
    obtain rfl := hs.checks
    rw [resolve, hbuild']
    change _ ↔ (s'.classes.foldlM s'.addTable [] >>= fun tables ↦ _) = _ ∧ _
    rw [hm.foldlM_addTable_eq hs]
    simp only [hm.classes, bind_eq_ok_iff, pure_eq_ok_iff, Prod.exists,
      hm.resolveClasses_eq_ok_iff_apart hs (List.Subset.refl s.classes)]
    constructor
    · rintro ⟨tables, hadded, ds, result, ⟨hresolved, hall⟩, rfl⟩
      exact ⟨⟨tables, hadded, _, result, hresolved, rfl⟩, hall⟩
    · rintro ⟨⟨tables, hadded, ds, result, hresolved, heq⟩, hall⟩
      obtain ⟨rfl, hschema⟩ := Repository.mk.inj heq
      exact ⟨tables, hadded, r.classes, result, ⟨hresolved, hall⟩,
        congrArg (Repository.mk _) hschema⟩
  constructor
  · intro hresolve
    obtain ⟨s, hbuild, hrest⟩ := bind_eq_ok_iff.mp hresolve
    obtain ⟨hbare, hall⟩ := (hsame s hbuild).mp hrest
    exact ⟨hbare, s, hbuild, hall⟩
  · rintro ⟨hbare, s, hbuild, hall⟩
    exact bind_eq_ok_iff.mpr ⟨s, hbuild, (hsame s hbuild).mpr ⟨hbare, hall⟩⟩

end Hierarchy

/-- Declarations are resolved if they are so without the tags of procedures and the procedures of
each class are resolved. -/
theorem resolveDeclarations_eq_ok_iff_apart {decls : List ClassDecl} {checks : ChecksMode}
    {databaseName : String} {r : Repository} :
    resolveDeclarations decls checks databaseName = .ok r ↔
      resolveDeclarations (decls.map ClassDecl.withoutProcedures) checks databaseName =
          .ok r.withoutProcedures ∧
        ∃ h, Hierarchy.ofDeclarations decls = .ok h ∧ h.HasProcedures checks r.classes := by
  rw [resolveDeclarations_eq_ok_iff, resolveDeclarations_eq_ok_iff]
  constructor
  · rintro ⟨h, hdecls, hresolve⟩
    obtain ⟨hbare, hprocedures⟩ := Hierarchy.resolve_eq_ok_iff_apart.mp hresolve
    exact ⟨⟨h.withoutProcedures, Hierarchy.ofDeclarations_map hdecls _, hbare⟩, h, hdecls,
      hprocedures⟩
  · rintro ⟨⟨h', hdecls', hbare⟩, h, hdecls, hprocedures⟩
    obtain rfl := Except.ok.inj ((Hierarchy.ofDeclarations_map hdecls
      (ClassDecl.keepsTables_withoutProcedures h).toKeepsPlace).symm.trans hdecls')
    exact ⟨h, hdecls, Hierarchy.resolve_eq_ok_iff_apart.mpr ⟨hbare, hprocedures⟩⟩

/-! ### Rearranged arguments -/

/-- Two declarations that differ in the order in which they declare the arguments of procedures, and
in where these stand among the other tags. -/
structure ClassDecl.RearrangesArguments (c c' : ClassDecl) : Prop where
  others : c'.withoutProcedures = c.withoutProcedures
  procedures : Scope.procedureTags c' = Scope.procedureTags c
  arguments : (Scope.argumentTags c').Perm (Scope.argumentTags c)

namespace ClassDecl.RearrangesArguments

variable {c c' : ClassDecl} {decls decls' : List ClassDecl}

theorem symm (h : c.RearrangesArguments c') : c'.RearrangesArguments c :=
  ⟨h.others.symm, h.procedures.symm, h.arguments.symm⟩

theorem name (h : c.RearrangesArguments c') : c'.name = c.name := by
  change c'.withoutProcedures.name = c.withoutProcedures.name
  rw [h.others]

theorem map_eq (h : List.Forall₂ RearrangesArguments decls decls') :
    decls'.map withoutProcedures = decls.map withoutProcedures :=
  (map_eq_map_of_forall₂ h fun _ _ hc ↦ hc.others.symm).symm

/-- Under a name there is the rearranged declaration of that name. -/
theorem of_name_eq (h : List.Forall₂ RearrangesArguments decls decls')
    (hnodup : (decls'.map (·.name)).Nodup) (hc : c ∈ decls) (hc' : c' ∈ decls')
    (hname : c'.name = c.name) : c.RearrangesArguments c' := by
  obtain ⟨d, hd, hcd⟩ := exists_mem_of_forall₂ h hc
  rwa [List.inj_on_of_nodup_map hnodup hc' hd (hname.trans hcd.name.symm)]

end ClassDecl.RearrangesArguments

/-- Procedures can be had from rearranged arguments as well. -/
theorem Hierarchy.HasProcedures.of_rearranges {h h' : Hierarchy} {checks : ChecksMode}
    {ds : List ClassDescriptor}
    (hrearranged : List.Forall₂ ClassDecl.RearrangesArguments h.classes h'.classes)
    (hprocedures : h.HasProcedures checks ds) : h'.HasProcedures checks ds := by
  have hothers : h'.withoutProcedures = h.withoutProcedures := by
    rw [withoutProcedures, withoutProcedures, mapped, mapped, Hierarchy.mk.injEq]
    exact ClassDecl.RearrangesArguments.map_eq hrearranged
  obtain ⟨s, hbuild, hall⟩ := hprocedures
  obtain ⟨bare, hbare, _, hm⟩ := mirrors_withoutProcedures hbuild
  obtain ⟨s', hbuild'⟩ := exists_build_of_withoutProcedures (hothers ▸ hbare)
  obtain ⟨bare', hbare', _, hm'⟩ := mirrors_withoutProcedures hbuild'
  obtain rfl : bare' = bare := Except.ok.inj (hbare'.symm.trans (hothers ▸ hbare))
  have hs := Scope.built_of_build hbuild
  have hs' := Scope.built_of_build hbuild'
  refine ⟨s', hbuild', forall₂_of_forall₂ (forall₂_of_map_eq (hm.classes.symm.trans hm'.classes))
    hall fun p p' d hpair hd ↦ ?_⟩
  obtain ⟨hp, hp', hsame⟩ := hpair
  have hc := hs.mem_classes hp
  have hc' := hs'.mem_classes hp'
  have hdecl : p'.decl.withoutProcedures = p.decl.withoutProcedures :=
    congrArg (fun q : PersistentClass ↦ q.decl) hsame.symm
  have hname : p'.decl.name = p.decl.name := by
    change p'.decl.withoutProcedures.name = p.decl.withoutProcedures.name
    rw [hdecl]
  have htags := ClassDecl.RearrangesArguments.of_name_eq hrearranged h'.nodup hc hc' hname
  have hfield : s'.field p'.decl = s.field p.decl := by
    rw [← hm.field_eq (by rwa [hs.hierarchy]), ← hm'.field_eq (by rwa [hs'.hierarchy]), hdecl]
  exact Scope.procedures_of_perm hname hfield htags.arguments htags.procedures hd

theorem resolveDeclarations_of_rearranges {decls decls' : List ClassDecl} {checks : ChecksMode}
    {databaseName : String} {r : Repository}
    (hrearranged : List.Forall₂ ClassDecl.RearrangesArguments decls decls')
    (hr : resolveDeclarations decls checks databaseName = .ok r) :
    resolveDeclarations decls' checks databaseName = .ok r := by
  obtain ⟨hbare, h, hdecls, hprocedures⟩ := resolveDeclarations_eq_ok_iff_apart.mp hr
  have hnames : decls'.map (·.name) = decls.map (·.name) :=
    (map_eq_map_of_forall₂ hrearranged fun _ _ hc ↦ hc.name.symm).symm
  obtain rfl := Hierarchy.classes_of_ofDeclarations hdecls
  obtain ⟨h', hdecls'⟩ := Hierarchy.exists_ofDeclarations (hnames ▸ h.nodup)
  obtain rfl := Hierarchy.classes_of_ofDeclarations hdecls'
  rw [← ClassDecl.RearrangesArguments.map_eq hrearranged] at hbare
  exact resolveDeclarations_eq_ok_iff_apart.mpr
    ⟨hbare, h', hdecls', hprocedures.of_rearranges hrearranged⟩

/-- Procedures are passed through. Declarations that differ in the tags of procedures and their
arguments only have the same schema and the same classes but for their procedures, if they are
resolved at all; and where the arguments alone are declared in another order, or elsewhere among the
tags, the mapping is the very same. -/
theorem procedures_passedThrough (decls decls' : List ClassDecl) (checks : ChecksMode)
    (databaseName : String) :
    (decls'.map ClassDecl.withoutProcedures = decls.map ClassDecl.withoutProcedures →
      ∀ r r', resolveDeclarations decls checks databaseName = .ok r →
        resolveDeclarations decls' checks databaseName = .ok r' →
          r'.schema = r.schema ∧ r'.classes.map ClassDescriptor.withoutProcedures =
            r.classes.map ClassDescriptor.withoutProcedures) ∧
      (List.Forall₂ ClassDecl.RearrangesArguments decls decls' →
        ∀ r, resolveDeclarations decls checks databaseName = .ok r ↔
          resolveDeclarations decls' checks databaseName = .ok r) := by
  constructor
  · intro hothers r r' hr hr'
    have hbare := (resolveDeclarations_eq_ok_iff_apart.mp hr).1
    have hbare' := (resolveDeclarations_eq_ok_iff_apart.mp hr').1
    rw [hothers] at hbare'
    have hsame : r'.withoutProcedures = r.withoutProcedures :=
      Except.ok.inj (hbare'.symm.trans hbare)
    have hschema : r'.withoutProcedures.schema = r.withoutProcedures.schema := by rw [hsame]
    have hclasses : r'.withoutProcedures.classes = r.withoutProcedures.classes := by rw [hsame]
    exact ⟨hschema, hclasses⟩
  · intro hrearranged r
    have hback : List.Forall₂ ClassDecl.RearrangesArguments decls' decls :=
      List.Forall₂.flip (hrearranged.imp fun _ _ hc ↦ hc.symm)
    exact ⟨resolveDeclarations_of_rearranges hrearranged, resolveDeclarations_of_rearranges hback⟩

/-- A class that is inserted by a procedure which is passed its key and the name of the caller, with
tags for that in some order. -/
def visitor (tags : List Tag) : ClassDecl where
  name := "Visitor"
  tags := ⟨"ojb.class", [("table", "VISITOR")]⟩ :: tags
  members :=
    [⟨"id", "int", [⟨"ojb.field", [("primarykey", "true")]⟩]⟩,
     ⟨"badge", "java.lang.String", [⟨"ojb.field", []⟩]⟩]

def visitorInserted : Tag :=
  ⟨"ojb.insert-procedure", [("name", "admit"), ("arguments", "key,caller")]⟩

def visitorKey : Tag := ⟨"ojb.runtime-argument", [("name", "key"), ("field-ref", "id")]⟩

def visitorCaller : Tag := ⟨"ojb.constant-argument", [("name", "caller"), ("value", "gate")]⟩

/-- The arguments may stand around the procedure that is passed them, and the class is stored as it
would be without any of the three. -/
theorem procedures_passedThrough_visitor :
    ∃ r r', resolveDeclarations [visitor [visitorInserted, visitorKey, visitorCaller]] .strict
        "gate" = .ok r ∧
      resolveDeclarations [visitor [visitorCaller, visitorInserted, visitorKey]] .strict "gate" =
        .ok r ∧
      resolveDeclarations [visitor []] .strict "gate" = .ok r' ∧
      r.classes.map (·.procedures) ≠ r'.classes.map (·.procedures) ∧
      r'.schema = r.schema ∧
      r'.classes.map ClassDescriptor.withoutProcedures =
        r.classes.map ClassDescriptor.withoutProcedures := by
  have hok : (do
      let r ← resolveDeclarations [visitor [visitorInserted, visitorKey, visitorCaller]] .strict
        "gate"
      return r.classes.map fun d : ClassDescriptor ↦ d.procedures.length) = .ok [1] := by
    decide +kernel
  have hok' : (do
      let r ← resolveDeclarations [visitor []] .strict "gate"
      return r.classes.map fun d : ClassDescriptor ↦ d.procedures.length) = .ok [0] := by
    decide +kernel
  obtain ⟨r, hr, hcount⟩ := bind_eq_ok_iff.mp hok
  obtain ⟨r', hr', hcount'⟩ := bind_eq_ok_iff.mp hok'
  have hrearranged : (visitor [visitorInserted, visitorKey, visitorCaller]).RearrangesArguments
      (visitor [visitorCaller, visitorInserted, visitorKey]) :=
    ⟨by decide +kernel, by decide +kernel, by decide +kernel⟩
  have hmoved := ((procedures_passedThrough _ _ .strict "gate").2 (.cons hrearranged .nil) r).mp hr
  have hrest := (procedures_passedThrough _ _ .strict "gate").1 (by decide +kernel) r r' hr hr'
  refine ⟨r, r', hr, hmoved, hr', fun hsame ↦ ?_, hrest⟩
  have hlengths := congrArg (List.map List.length) hsame
  rw [List.map_map, List.map_map] at hlengths
  have hone : [1] = [0] :=
    (pure_eq_ok_iff.mp hcount).symm.trans (hlengths.trans (pure_eq_ok_iff.mp hcount'))
  exact absurd hone (by decide)

end ClassMap
