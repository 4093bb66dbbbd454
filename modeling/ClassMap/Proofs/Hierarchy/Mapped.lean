import ClassMap.Proofs.Hierarchy.Heeded
import ClassMap.Proofs.Matches

/-!
Declarations under a map. A map that keeps the name of every class keeps the classes of a hierarchy
apart. If it also keeps the names of supertypes that are heeded, whatever is found along the
supertypes, chains, cycles and subtypes, is what was found before, mapped. If the map keeps what the
markers and the extent tags say as well, the same holds of the persistent classes and their extents.
-/

set_option autoImplicit false
set_option relaxedAutoImplicit false

namespace ClassMap

open Traversal

/-- A map of declarations that leaves each class of a hierarchy where it stands. -/
structure KeepsPlace (h : Hierarchy) (φ : ClassDecl → ClassDecl) : Prop where
  name : ∀ c, (φ c).name = c.name
  supertypeNames : ∀ c,
    (φ c).supertypeNames.filter (heeds h.classes) = c.supertypeNames.filter (heeds h.classes)

/-- A map of declarations, with a map of their tags, that keeps all that the persistence of classes
and their extents depend on. -/
structure KeepsPersistence (h : Hierarchy) (φ : ClassDecl → ClassDecl) (ψ : Tag → Tag) : Prop
    extends KeepsPlace h φ where
  marked : ∀ c, (φ c).marker?.isSome = c.marker?.isSome
  checked : ∀ c, (discard (φ c).parseOptions : Except MappingError Unit) = discard c.parseOptions
  generateRepositoryInfo : ∀ c,
    (φ c).options.generateRepositoryInfo = c.options.generateRepositoryInfo
  determineExtents : ∀ c, (φ c).options.determineExtents = c.options.determineExtents
  extentTags : ∀ c, (φ c).tagsNamed TagName.extentClass = (c.tagsNamed TagName.extentClass).map ψ
  extentName : ∀ className tag need, (⟨className, ψ tag⟩ : TagReader).required "class-ref" need =
    (⟨className, tag⟩ : TagReader).required "class-ref" need

def PersistentClass.mapped (φ : ClassDecl → ClassDecl) (p : PersistentClass) : PersistentClass :=
  ⟨φ p.decl, p.extents.map φ⟩

namespace Hierarchy

variable {φ : ClassDecl → ClassDecl} {ψ : Tag → Tag} {h : Hierarchy} {c d : ClassDecl}
  {persistent found : List ClassDecl} {name : String}

/-- The same classes under a map. -/
def mapped (h : Hierarchy) (hφ : KeepsPlace h φ) : Hierarchy where
  classes := h.classes.map φ
  nodup := by
    have hnames : (·.name) ∘ φ = (·.name) := funext hφ.name
    rw [List.map_map, hnames]
    exact h.nodup

section Place

variable (hφ : KeepsPlace h φ)

theorem depth_mapped : (h.mapped hφ).depth = h.depth := by
  rw [depth, depth, mapped, List.length_map]

include hφ in
/-- A map that keeps names keeps the classes of a hierarchy apart. -/
theorem eq_of_mapped_eq (hc : c ∈ h.classes) (hd : d ∈ h.classes) (heq : φ c = φ d) : c = d := by
  refine eq_of_name_eq hc hd ?_
  rw [← hφ.name c, heq, hφ.name d]

include hφ in
theorem contains_mapped (hfound : found ⊆ h.classes) (hc : c ∈ h.classes) :
    (found.map φ).contains (φ c) = found.contains c := by
  rw [Bool.eq_iff_iff, List.contains_iff_mem, List.contains_iff_mem]
  refine ⟨fun hmem ↦ ?_, List.mem_map_of_mem⟩
  obtain ⟨d, hd, heq⟩ := List.mem_map.mp hmem
  exact eq_of_mapped_eq hφ (hfound hd) hc heq ▸ hd

include hφ in
theorem beq_mapped (hc : c ∈ h.classes) (hd : d ∈ h.classes) : (φ c == φ d) = (c == d) := by
  rw [Bool.eq_iff_iff, beq_iff_eq, beq_iff_eq]
  exact ⟨eq_of_mapped_eq hφ hc hd, congrArg φ⟩

/-! ### Names -/

theorem declared?_mapped (name : String) :
    (h.mapped hφ).declared? name = (h.declared? name).map φ := by
  have hname : (fun c : ClassDecl ↦ c.name == name) ∘ φ = fun c ↦ c.name == name :=
    funext fun c ↦ by rw [Function.comp_apply, hφ.name]
  rw [declared?, declared?, mapped, List.find?_map, hname]

theorem find?_mapped (name : String) : (h.mapped hφ).find? name = (h.find? name).map φ :=
  declared?_mapped hφ (Text.trim name)

theorem typeExists_mapped : (h.mapped hφ).typeExists = h.typeExists := by
  funext name
  rw [typeExists, typeExists, find?_mapped, Option.isSome_map]

include hφ in
theorem mem_supertypeNames_mapped_iff (hheeds : heeds h.classes name = true) (c : ClassDecl) :
    name ∈ (φ c).supertypeNames ↔ name ∈ c.supertypeNames := by
  have hmem : name ∈ (φ c).supertypeNames.filter (heeds h.classes) ↔
      name ∈ c.supertypeNames.filter (heeds h.classes) := by
    rw [hφ.supertypeNames]
  simpa [List.mem_filter, hheeds] using hmem

/-! ### Subtyping by name -/

theorem mem_namesAbove_mapped_iff {above : String} (hheeds : heeds h.classes above = true) :
    above ∈ (h.mapped hφ).namesAbove name ↔ above ∈ h.namesAbove name := by
  rw [namesAbove, namesAbove, find?_mapped]
  cases h.find? name with
  | none => rfl
  | some c => exact mem_supertypeNames_mapped_iff hφ hheeds c

/-- A way to a name that is asked for only goes through names of declared classes. -/
theorem reaches_mapped_iff {top : String} (hheeds : heeds h.classes top = true) :
    Walk.Reaches (h.mapped hφ).namesAbove name top ↔ Walk.Reaches h.namesAbove name top := by
  constructor
  · intro hreach
    induction hreach with
    | refl => exact .refl
    | @tail middle top _ hstep ih =>
      have hlast := (mem_namesAbove_mapped_iff hφ hheeds).mp hstep
      obtain ⟨c, hc, -⟩ := mem_namesAbove_iff.mp hlast
      exact (ih (heeds_of_find? hc)).tail hlast
  · intro hreach
    induction hreach with
    | refl => exact .refl
    | @tail middle top _ hstep ih =>
      obtain ⟨c, hc, -⟩ := mem_namesAbove_iff.mp hstep
      exact (ih (heeds_of_find? hc)).tail ((mem_namesAbove_mapped_iff hφ hheeds).mpr hstep)

theorem isSubtypeName_mapped {sup : String} (hsup : heeds h.classes sup = true) (sub : String) :
    (h.mapped hφ).isSubtypeName sub sup = h.isSubtypeName sub sup := by
  have hhits : ∀ top, (h.mapped hφ).Hits sup top ↔ h.Hits sup top := by
    intro top
    rw [Hits, Hits, find?_mapped, Option.map_eq_none_iff]
  rw [Bool.eq_iff_iff, isSubtypeName_iff_finds, isSubtypeName_iff_finds]
  refine or_congr_right (exists_congr fun name ↦ and_congr_right fun _ ↦ exists_congr fun top ↦ ?_)
  rw [hhits]
  exact and_congr_left fun hend ↦ reaches_mapped_iff hφ (heeds_of_hits hsup hend)

theorem areCompatible_mapped {a b : String} (ha : heeds h.classes a = true)
    (hb : heeds h.classes b = true) :
    (h.mapped hφ).areCompatible a b = h.areCompatible a b := by
  rw [areCompatible, areCompatible, isSubtypeName_mapped hφ hb, isSubtypeName_mapped hφ ha]

/-- Where the map keeps all names of supertypes, subtyping is the same for all names. -/
theorem isSubtypeName_mapped_of_eq (hnames : ∀ c, (φ c).supertypeNames = c.supertypeNames) :
    (h.mapped hφ).isSubtypeName = h.isSubtypeName := by
  have habove : (h.mapped hφ).namesAbove = h.namesAbove := by
    funext name
    rw [namesAbove, namesAbove, find?_mapped]
    cases h.find? name with
    | none => rfl
    | some c => exact hnames c
  have hmentioned : (h.mapped hφ).mentionedNames = h.mentionedNames := by
    rw [mentionedNames, mentionedNames, mapped, List.flatMap_map]
    exact List.flatMap_congr fun c _ ↦ hnames c
  have hfrom : (h.mapped hφ).namesFrom = h.namesFrom := by
    funext name
    rw [namesFrom, namesFrom, habove, hmentioned]
  funext sub sup
  simp only [isSubtypeName, hfrom, find?_mapped, Option.isNone_map]

/-! ### Walks -/

/-- Only names that are asked for lead to declared classes. -/
theorem filterMap_declared?_filter (names : List String) :
    (names.filter (heeds h.classes)).filterMap h.declared? = names.filterMap h.declared? := by
  rw [List.filterMap_filter]
  refine List.filterMap_congr fun name _ ↦ ?_
  cases hdeclared : h.declared? name with
  | none => exact ite_self none
  | some c => rw [if_pos (heeds_of_declared? hdeclared)]

theorem supertypes_mapped (c : ClassDecl) :
    (h.mapped hφ).supertypes (φ c) = (h.supertypes c).map φ := by
  have hdeclared : (h.mapped hφ).declared? = fun name ↦ (h.declared? name).map φ :=
    funext fun name ↦ declared?_mapped hφ name
  rw [supertypes, supertypes, hdeclared, ← List.map_filterMap, ← filterMap_declared?_filter,
    hφ.supertypeNames, filterMap_declared?_filter]

theorem directSubtypes_mapped (hc : c ∈ h.classes) :
    (h.mapped hφ).directSubtypes (φ c) = (h.directSubtypes c).map φ := by
  have hheeds : heeds h.classes c.name = true :=
    heeds_of_declared? (declared?_eq_some_iff.mpr ⟨hc, rfl⟩)
  rw [directSubtypes, directSubtypes, mapped, List.filter_map]
  refine congrArg _ (List.filter_congr fun d _ ↦ ?_)
  rw [Function.comp_apply, hφ.name, Bool.eq_iff_iff, List.contains_iff_mem,
    List.contains_iff_mem, mem_supertypeNames_mapped_iff hφ hheeds]

theorem carries_supertypes : Walk.Carries φ h.classes h.supertypes (h.mapped hφ).supertypes :=
  ⟨fun _ hc _ hd ↦ eq_of_mapped_eq hφ hc hd, fun _ _ _ hd ↦ (mem_supertypes hd).1,
    fun c _ ↦ supertypes_mapped hφ c⟩

theorem carries_directSubtypes :
    Walk.Carries φ h.classes h.directSubtypes (h.mapped hφ).directSubtypes :=
  ⟨fun _ hc _ hd ↦ eq_of_mapped_eq hφ hc hd, fun _ _ _ hd ↦ (mem_directSubtypes_iff.mp hd).1,
    fun _ hc ↦ directSubtypes_mapped hφ hc⟩

theorem supertypeChain_mapped (hc : c ∈ h.classes) :
    (h.mapped hφ).supertypeChain (φ c) = (h.supertypeChain c).map φ := by
  rw [supertypeChain, supertypeChain, depth_mapped,
    (carries_supertypes hφ).preorder_map h.depth hc, List.map_tail]

theorem subtypeWalk_mapped (hc : c ∈ h.classes) :
    (h.mapped hφ).subtypeWalk (φ c) = (h.subtypeWalk c).map φ := by
  rw [subtypeWalk, subtypeWalk, depth_mapped,
    (carries_directSubtypes hφ).preorder_map h.depth hc, List.map_tail]

theorem supertypeChain_subset (hc : c ∈ h.classes) : h.supertypeChain c ⊆ h.classes := by
  have hplace : KeepsPlace h id := ⟨fun _ ↦ rfl, fun _ ↦ rfl⟩
  exact fun _ hd ↦ ((carries_supertypes hplace).visit_map h.depth hc (List.nil_subset _)).2
    (List.mem_of_mem_tail hd)

theorem subtypeWalk_subset (hc : c ∈ h.classes) : h.subtypeWalk c ⊆ h.classes := by
  have hplace : KeepsPlace h id := ⟨fun _ ↦ rfl, fun _ ↦ rfl⟩
  exact fun _ hd ↦ ((carries_directSubtypes hplace).visit_map h.depth hc (List.nil_subset _)).2
    (List.mem_of_mem_tail hd)

theorem isSubtype_mapped (hc : c ∈ h.classes) (hd : d ∈ h.classes) :
    (h.mapped hφ).isSubtype (φ c) (φ d) = h.isSubtype c d := by
  rw [isSubtype, isSubtype, beq_mapped hφ hc hd, supertypeChain_mapped hφ hc,
    contains_mapped hφ (supertypeChain_subset hc) hd]

theorem checkAcyclic_mapped : (h.mapped hφ).checkAcyclic = h.checkAcyclic := by
  have hcycle : (h.mapped hφ).findSupertypeCycle? = h.findSupertypeCycle?.map φ := by
    rw [findSupertypeCycle?, findSupertypeCycle?, depth_mapped]
    exact (carries_supertypes hφ).findCycle?_map h.depth
  rw [checkAcyclic, checkAcyclic, hcycle]
  cases h.findSupertypeCycle? with
  | none => rfl
  | some c => simp only [Option.map_some, hφ.name]

end Place

/-! ### Persistence -/

section Persistence

variable (hφ : KeepsPersistence h φ ψ)
include hφ

theorem isPersistent_mapped (hc : c ∈ h.classes) :
    (h.mapped hφ.toKeepsPlace).isPersistent (φ c) = h.isPersistent c := by
  have henables : ∀ d, (φ d).enablesPersistence = d.enablesPersistence := by
    intro d
    rw [ClassDecl.enablesPersistence, ClassDecl.enablesPersistence, hφ.marked,
      hφ.generateRepositoryInfo]
  have habove : ((h.mapped hφ.toKeepsPlace).supertypeChain (φ c)).any (·.enablesPersistence) =
      (h.supertypeChain c).any (·.enablesPersistence) := by
    rw [supertypeChain_mapped hφ.toKeepsPlace hc, List.any_map]
    exact congrArg _ (funext henables)
  have hmarked := hφ.marked c
  rw [isPersistent, isPersistent, habove, hφ.generateRepositoryInfo]
  cases hold : c.marker? with
  | none =>
    have hnew : (φ c).marker? = none := Option.not_isSome_iff_eq_none.mp (by simp [hmarked, hold])
    rw [hnew]
  | some tag =>
    rw [hold] at hmarked
    obtain ⟨tag', hnew⟩ := Option.isSome_iff_exists.mp hmarked
    rw [hnew]

theorem filter_isPersistent_mapped :
    (h.mapped hφ.toKeepsPlace).classes.filter (h.mapped hφ.toKeepsPlace).isPersistent =
      (h.classes.filter h.isPersistent).map φ := by
  rw [mapped, List.filter_map]
  exact congrArg _ (List.filter_congr fun c hc ↦ isPersistent_mapped hφ hc)

section Extents

variable (hpersistent : persistent ⊆ h.classes)
include hpersistent

theorem explicitExtent_mapped (hc : c ∈ h.classes) (tag : Tag) :
    (h.mapped hφ.toKeepsPlace).explicitExtent (persistent.map φ) (φ c) (ψ tag) =
      φ <$> h.explicitExtent persistent c tag := by
  simp only [explicitExtent, hφ.name, hφ.extentName, map_bind]
  refine congrArg _ (funext fun target ↦ ?_)
  rw [find?_mapped]
  cases hfind : h.find? target with
  | none => rfl
  | some d =>
    have hd : d ∈ h.classes := mem_of_declared? hfind
    have hne : (φ d != φ c) = (d != c) := by rw [bne, bne, beq_mapped hφ.toKeepsPlace hd hc]
    simp only [Option.map_some, hne, contains_mapped hφ.toKeepsPlace hpersistent hd,
      isSubtype_mapped hφ.toKeepsPlace hd hc]
    split
    · rfl
    · rfl

theorem extents_mapped (hc : c ∈ h.classes) :
    (h.mapped hφ.toKeepsPlace).extents (persistent.map φ) (φ c) =
      List.map φ <$> h.extents persistent c := by
  have hwalk : (h.mapped hφ.toKeepsPlace).subtypesAmong (persistent.map φ) (φ c) =
      (h.subtypesAmong persistent c).map φ := by
    rw [subtypesAmong, subtypesAmong, subtypeWalk_mapped hφ.toKeepsPlace hc, List.filter_map]
    refine congrArg _ (List.filter_congr fun d hd ↦ ?_)
    exact contains_mapped hφ.toKeepsPlace hpersistent (subtypeWalk_subset hc hd)
  have hstart : (if (φ c).options.determineExtents then
        (h.mapped hφ.toKeepsPlace).subtypesAmong (persistent.map φ) (φ c) else []) =
      (if c.options.determineExtents then h.subtypesAmong persistent c else []).map φ := by
    rw [apply_ite (List.map φ), ← hwalk, hφ.determineExtents]
    rfl
  rw [extents, extents, hstart, hφ.extentTags]
  refine foldlM_map_eq_of_keeps (· ⊆ h.classes) (fun tag _ found hfound ↦ ⟨?_, ?_⟩) ?_
  · rw [explicitExtent_mapped hφ hpersistent hc]
    cases hextent : h.explicitExtent persistent c tag with
    | error e => rfl
    | ok d =>
      have hd : d ∈ h.classes := hpersistent (explicitExtent_eq_ok hextent).1
      have hcontains := contains_mapped hφ.toKeepsPlace hfound hd
      simp only [Functor.map, Except.map, bind, Except.bind, pure, Except.pure, hcontains]
      rw [apply_ite (List.map φ), List.map_append]
      rfl
  · intro more hmore
    obtain ⟨d, hd, hadded⟩ := bind_eq_ok_iff.mp hmore
    rw [← pure_eq_ok_iff.mp hadded]
    split
    · exact hfound
    · exact List.append_subset.mpr ⟨hfound, by simpa using hpersistent (explicitExtent_eq_ok hd).1⟩
  · split
    · exact fun d hd ↦ subtypeWalk_subset hc (List.mem_of_mem_filter hd)
    · exact List.nil_subset _

end Extents

/-- The persistent classes with their extents are the mapped ones, and the checks on the way fail
in the same way. -/
theorem persistentClasses_mapped :
    (h.mapped hφ.toKeepsPlace).persistentClasses =
      List.map (PersistentClass.mapped φ) <$> h.persistentClasses := by
  have hdecls : ∀ classes : List ClassDecl,
      (classes.map φ).forM (fun c ↦ discard c.parseOptions) =
        (classes.forM fun c ↦ discard c.parseOptions : Except MappingError Unit) := by
    intro classes
    induction classes with
    | nil => rfl
    | cons c rest ih =>
      change (discard (φ c).parseOptions >>= fun _ ↦ (rest.map φ).forM _) =
        (discard c.parseOptions >>= fun _ ↦ rest.forM _)
      rw [hφ.checked, ih]
  have hsubset : h.classes.filter h.isPersistent ⊆ h.classes :=
    fun _ hc ↦ List.mem_of_mem_filter hc
  have hextents : ((h.classes.filter h.isPersistent).map φ).mapM (fun c ↦ do
      return (⟨c, ← (h.mapped hφ.toKeepsPlace).extents
        ((h.classes.filter h.isPersistent).map φ) c⟩ : PersistentClass)) =
      List.map (PersistentClass.mapped φ) <$>
        (h.classes.filter h.isPersistent).mapM fun c ↦ do
          return ⟨c, ← h.extents (h.classes.filter h.isPersistent) c⟩ := by
    refine mapM_map_eq fun c hc ↦ ?_
    rw [extents_mapped hφ hsubset (hsubset hc)]
    simp only [map_bind, bind_map_left, map_pure]
    rfl
  have hparsed : (h.mapped hφ.toKeepsPlace).classes.forM (fun c ↦ discard c.parseOptions) =
      (h.classes.forM fun c ↦ discard c.parseOptions : Except MappingError Unit) :=
    hdecls h.classes
  simp only [persistentClasses, checkAcyclic_mapped, hparsed, filter_isPersistent_mapped hφ,
    map_bind, hextents]

end Persistence

end Hierarchy

end ClassMap
