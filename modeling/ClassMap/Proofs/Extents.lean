import ClassMap.Proofs.Hierarchy.Reordering
import ClassMap.Proofs.Members.Names
import ClassMap.Proofs.Options
import ClassMap.Proofs.Unfolding

/-!
Persistent classes and their extents. Which classes are persistent is found by going up from each,
and which of them are extents of another by going down; both are read here off the one relation of
a class to those it has above itself. A class lists as its extents the persistent classes below it
in the order in which a walk first comes to them, or, where it says so, the classes its tags name
(`extents_exact`).
-/

set_option autoImplicit false
set_option relaxedAutoImplicit false

namespace ClassMap

open Traversal

/-- The class has a marker, and its marker does not switch persistence off. -/
def ClassDecl.Enables (c : ClassDecl) : Prop :=
  ∃ tag, c.marker? = some tag ∧ ¬ tag.SwitchesOff "generate-repository-info"

/-- No marker of the class leaves its extents to its tags. -/
def ClassDecl.DeterminesExtents (c : ClassDecl) : Prop :=
  ∀ tag, c.marker? = some tag → ¬ tag.SwitchesOff "determine-extents"

namespace Hierarchy

/-- The second class is among the transitive supertypes of the first. -/
def IsBelow (h : Hierarchy) (sub sup : ClassDecl) : Prop :=
  Relation.TransGen (DirectlyBelow h.classes) sub.name sup.name

/-- A class is persistent by its own marker, or without one by the marker of a class above it. -/
def TakesPart (h : Hierarchy) (c : ClassDecl) : Prop :=
  c.Enables ∨ (c.marker? = none ∧ ∃ a ∈ h.classes, a.Enables ∧ h.IsBelow c a)

/-- The class that an extent tag names, blanks around the name aside. -/
def NamesExtent (h : Hierarchy) (tag : Tag) (d : ClassDecl) : Prop :=
  d ∈ h.classes ∧ ∃ value, tag.get? "class-ref" = some value ∧ d.name = Text.trim value

/-- Extents found in the hierarchy: all persistent classes below a class, in the order in which a
walk down, through whatever classes there are, first comes to them. -/
structure DeterminedExtents (h : Hierarchy) (persistent : List ClassDecl) (c : ClassDecl)
    (found : List ClassDecl) : Prop where
  mem_iff : ∀ d, d ∈ found ↔ d ∈ persistent ∧ h.IsBelow d c
  nodup : found.Nodup
  not_mem_self : c ∉ found
  order : ∃ visits, Walk.Unfolds h.directSubtypes (h.directSubtypes c) visits ∧
    found = visits.eraseDups.filter persistent.contains

/-- Extents named by the tags of a class, each at its first tag. -/
structure NamedExtents (h : Hierarchy) (persistent : List ClassDecl) (c : ClassDecl)
    (found : List ClassDecl) : Prop where
  order : ∃ named, List.Forall₂ h.NamesExtent (c.tagsNamed TagName.extentClass) named ∧
    found = named.eraseDups
  below : ∀ d ∈ found, d ∈ persistent ∧ d ≠ c ∧ h.IsBelow d c

end Hierarchy

namespace ClassDecl

variable {c : ClassDecl} {tag : Tag}

theorem options_of_marker {options : ClassOptions} (hoptions : c.parseOptions = .ok options)
    (hmarker : c.marker? = some tag) :
    (c.options.generateRepositoryInfo = true ↔ ¬ tag.SwitchesOff "generate-repository-info") ∧
      (c.options.determineExtents = true ↔ ¬ tag.SwitchesOff "determine-extents") := by
  have hparse : ClassOptions.parse c.name tag = .ok options := by
    rw [parseOptions, hmarker] at hoptions
    exact hoptions
  have heq : c.options = options := by rw [ClassDecl.options, hoptions]
  rw [heq]
  exact ClassOptions.flags_of_parse hparse

theorem enablesPersistence_iff {options : ClassOptions}
    (hoptions : c.parseOptions = .ok options) : c.enablesPersistence = true ↔ c.Enables := by
  rw [enablesPersistence, Enables]
  cases hmarker : c.marker? with
  | none => simp
  | some tag => simpa using (options_of_marker hoptions hmarker).1

theorem determineExtents_iff {options : ClassOptions} (hoptions : c.parseOptions = .ok options) :
    c.options.determineExtents = true ↔ c.DeterminesExtents := by
  rw [DeterminesExtents]
  cases hmarker : c.marker? with
  | none =>
    have hdefault : c.options = {} := by rw [ClassDecl.options, parseOptions, hmarker]
    simp [hdefault]
  | some tag => simpa using (options_of_marker hoptions hmarker).2

end ClassDecl

namespace Hierarchy

variable {h : Hierarchy} {c d : ClassDecl} {persistent found : List ClassDecl}

theorem leads_supertypes_iff (hc : c ∈ h.classes) (hd : d ∈ h.classes) :
    Walk.Leads h.supertypes c d ↔ h.IsBelow c d := by
  constructor
  · exact fun hleads ↦ (below_of_leads_supertypes hc hleads).2
  · intro hbelow
    -- the last step up is made by a declared class, from which the induction goes on
    have hway : ∀ {top : String}, Relation.TransGen (DirectlyBelow h.classes) c.name top →
        ∀ d ∈ h.classes, d.name = top → Walk.Leads h.supertypes c d := by
      intro top hbelow
      induction hbelow with
      | single hstep =>
        rintro d hd rfl
        obtain ⟨e, he, hname, hmentioned⟩ := hstep
        obtain rfl := eq_of_name_eq he hc hname
        exact .single (mem_supertypes_iff.mpr ⟨hd, hmentioned⟩)
      | tail _ hstep ih =>
        rintro d hd rfl
        obtain ⟨e, he, hname, hmentioned⟩ := hstep
        exact .tail (ih e he hname) (mem_supertypes_iff.mpr ⟨hd, hmentioned⟩)
    exact hway hbelow d hd rfl

theorem leads_directSubtypes_iff (hc : c ∈ h.classes) (hd : d ∈ h.classes) :
    Walk.Leads h.directSubtypes c d ↔ h.IsBelow d c := by
  constructor
  · exact fun hleads ↦ (below_of_leads_directSubtypes hleads).2
  · intro hbelow
    have hway : Walk.Leads h.supertypes d c := (leads_supertypes_iff hd hc).mpr hbelow
    have hdown : ∀ {e : ClassDecl}, Walk.Leads h.supertypes d e →
        Walk.Leads h.directSubtypes e d := by
      intro e hleads
      induction hleads with
      | single hstep =>
        exact .single (mem_directSubtypes_iff.mpr ⟨hd, (mem_supertypes_iff.mp hstep).2⟩)
      | tail hleads hstep ih =>
        have he := (below_of_leads_supertypes hd hleads).1
        exact .head (mem_directSubtypes_iff.mpr ⟨he, (mem_supertypes_iff.mp hstep).2⟩) ih
    exact hdown hway

/-- Where no class is above itself, none is below itself. -/
theorem not_leads_directSubtypes (hacyclic : ∀ c, ¬ Walk.Leads h.supertypes c c) (c : ClassDecl) :
    ¬ Walk.Leads h.directSubtypes c c := by
  intro hleads
  have hc : c ∈ h.classes := (below_of_leads_directSubtypes hleads).1
  have hbelow : h.IsBelow c c := (leads_directSubtypes_iff hc hc).mp hleads
  exact hacyclic c ((leads_supertypes_iff hc hc).mpr hbelow)

theorem ne_of_isBelow (hacyclic : ∀ c, ¬ Walk.Leads h.supertypes c c) (hd : d ∈ h.classes)
    (hbelow : h.IsBelow d c) : d ≠ c := by
  rintro rfl
  exact hacyclic d ((leads_supertypes_iff hd hd).mpr hbelow)

/-- The walk up lists every other class above its start, whether or not there are cycles. -/
theorem mem_supertypeChain_iff (hc : c ∈ h.classes) :
    d ∈ h.supertypeChain c ↔ d ≠ c ∧ d ∈ h.classes ∧ h.IsBelow c d := by
  have hnext : ∀ c, ∀ d ∈ h.supertypes c, d ∈ h.classes := fun _ _ hd ↦ (mem_supertypes hd).1
  have hchain : d ∈ h.supertypeChain c ↔ d ≠ c ∧ Walk.Leads h.supertypes c d :=
    Walk.mem_tail_preorder_iff hnext hc (Nat.le_succ _)
  rw [hchain]
  refine and_congr_right fun _ ↦ ⟨fun hleads ↦ ?_, fun hbelow ↦ ?_⟩
  · have hd : d ∈ h.classes := (below_of_leads_supertypes hc hleads).1
    exact ⟨hd, (leads_supertypes_iff hc hd).mp hleads⟩
  · exact (leads_supertypes_iff hc hbelow.1).mpr hbelow.2

theorem isPersistent_iff (hacyclic : ∀ c, ¬ Walk.Leads h.supertypes c c)
    (hoptions : ∀ c ∈ h.classes, ∃ options, c.parseOptions = .ok options) (hc : c ∈ h.classes) :
    h.isPersistent c = true ↔ h.TakesPart c := by
  rw [isPersistent, TakesPart]
  cases hmarker : c.marker? with
  | some tag =>
    obtain ⟨options, hparse⟩ := hoptions c hc
    have hflags := ClassDecl.options_of_marker hparse hmarker
    simp [ClassDecl.Enables, hmarker, hflags.1]
  | none =>
    have hown : ¬ c.Enables := by simp [ClassDecl.Enables, hmarker]
    simp only [hown, false_or, true_and, List.any_eq_true]
    constructor
    · rintro ⟨a, hchain, henables⟩
      obtain ⟨-, ha, hbelow⟩ := (mem_supertypeChain_iff hc).mp hchain
      obtain ⟨options, hparse⟩ := hoptions a ha
      exact ⟨a, ha, (ClassDecl.enablesPersistence_iff hparse).mp henables, hbelow⟩
    · rintro ⟨a, ha, henables, hbelow⟩
      obtain ⟨options, hparse⟩ := hoptions a ha
      have hne : a ≠ c := (ne_of_isBelow hacyclic hc hbelow).symm
      exact ⟨a, (mem_supertypeChain_iff hc).mpr ⟨hne, ha, hbelow⟩,
        (ClassDecl.enablesPersistence_iff hparse).mpr henables⟩

/-- What a walk down finds of some classes, and in which order. -/
theorem determinedExtents_subtypesAmong (hacyclic : ∀ c, ¬ Walk.Leads h.supertypes c c)
    (hsub : ∀ d ∈ persistent, d ∈ h.classes) (hc : c ∈ h.classes) :
    h.DeterminedExtents persistent c (h.subtypesAmong persistent c) := by
  have hmem : ∀ d, d ∈ h.subtypesAmong persistent c ↔ d ∈ persistent ∧ h.IsBelow d c := by
    intro d
    rw [subtypesAmong, List.mem_filter, List.contains_iff_mem, mem_subtypeWalk_iff hc, and_comm]
    refine and_congr_right fun hd ↦ ?_
    rw [leads_directSubtypes_iff hc (hsub d hd)]
    exact ⟨fun hbelow ↦ hbelow.2, fun hbelow ↦ ⟨ne_of_isBelow hacyclic (hsub d hd) hbelow, hbelow⟩⟩
  constructor
  case mem_iff => exact hmem
  case nodup => exact (nodup_subtypeWalk c).filter _
  case not_mem_self =>
    intro hself
    exact ne_of_isBelow hacyclic hc ((hmem c).mp hself).2 rfl
  case order =>
    have hnext : ∀ c, ∀ d ∈ h.directSubtypes c, d ∈ h.classes :=
      fun c d hd ↦ (mem_directSubtypes_iff.mp hd).1
    have hdown := not_leads_directSubtypes hacyclic
    obtain ⟨visits, hvisits⟩ := Walk.exists_unfolds hnext hdown hc
    refine ⟨visits, hvisits, ?_⟩
    rw [subtypesAmong, subtypeWalk, depth, Walk.tail_preorder_eq hnext hdown le_rfl hvisits]

/-- Extents are gathered from the tags one after the other, none of them twice. -/
theorem extents_eq_ok (hext : h.extents persistent c = .ok found) :
    ∃ named, (c.tagsNamed TagName.extentClass).mapM (h.explicitExtent persistent c) = .ok named ∧
      found = named.foldl Walk.meet
        (if c.options.determineExtents then h.subtypesAmong persistent c else []) := by
  have hmeet : (fun (found : List ClassDecl) d ↦
      if found.contains d then found else found ++ [d]) = Walk.meet := by
    funext found d
    simp only [Walk.meet, List.contains_iff_mem]
  rw [← hmeet]
  exact exists_mapM_of_foldlM hext

theorem namesExtent_of_explicitExtent {tag : Tag}
    (hext : h.explicitExtent persistent c tag = .ok d) : h.NamesExtent tag d := by
  simp only [explicitExtent, bind_eq_ok_iff, EffectiveMembers.required_eq_ok] at hext
  obtain ⟨target, htext, hfound⟩ := hext
  obtain ⟨-, written, hget, rfl⟩ := TagReader.text?_eq_some_iff.mp htext
  have htrim : Text.trim (Text.trim written) = Text.trim written := Text.trimmed_trim written
  rw [find?, htrim] at hfound
  split at hfound
  case h_1 e hdeclared =>
    split at hfound
    case isTrue =>
      obtain rfl := pure_eq_ok_iff.mp hfound
      obtain ⟨he, hname⟩ := declared?_eq_some_iff.mp hdeclared
      exact ⟨he, written, hget, hname⟩
    case isFalse => exact absurd hfound (by simp [throw, throwThe, MonadExceptOf.throw])
  case h_2 => exact absurd hfound (by simp [throw, throwThe, MonadExceptOf.throw])

theorem isBelow_of_explicitExtent (hsub : ∀ d ∈ persistent, d ∈ h.classes) {tag : Tag}
    (hext : h.explicitExtent persistent c tag = .ok d) :
    d ∈ persistent ∧ d ≠ c ∧ h.IsBelow d c := by
  obtain ⟨hmem, hne, hsubtype⟩ := explicitExtent_eq_ok hext
  exact ⟨hmem, hne, (strictlyBelow_of_isSubtype (hsub d hmem) hne hsubtype).2⟩

/-- Tags add nothing to the extents that are found in the hierarchy. -/
theorem determinedExtents_of_extents (hacyclic : ∀ c, ¬ Walk.Leads h.supertypes c c)
    (hsub : ∀ d ∈ persistent, d ∈ h.classes) (hc : c ∈ h.classes)
    (hdetermine : c.options.determineExtents = true)
    (hext : h.extents persistent c = .ok found) : h.DeterminedExtents persistent c found := by
  obtain ⟨named, hnamed, hfound⟩ := extents_eq_ok hext
  have hdetermined := determinedExtents_subtypesAmong hacyclic hsub hc
  have hthere : ∀ d ∈ named, d ∈ h.subtypesAmong persistent c := by
    intro d hd
    obtain ⟨tag, -, htag⟩ := exists_of_mem_mapM hnamed hd
    obtain ⟨hmem, -, hbelow⟩ := isBelow_of_explicitExtent hsub htag
    exact (hdetermined.mem_iff d).mpr ⟨hmem, hbelow⟩
  rw [if_pos hdetermine, Walk.foldl_meet_eq_self hthere] at hfound
  exact hfound ▸ hdetermined

theorem namedExtents_of_extents (hsub : ∀ d ∈ persistent, d ∈ h.classes)
    (hdetermine : ¬ c.options.determineExtents = true)
    (hext : h.extents persistent c = .ok found) : h.NamedExtents persistent c found := by
  obtain ⟨named, hnamed, hfound⟩ := extents_eq_ok hext
  have heq : found = named.eraseDups := by
    rw [hfound, if_neg hdetermine, Walk.foldl_meet]
    simp
  constructor
  case order =>
    have htags := mapM_eq_ok_iff.mp hnamed
    exact ⟨named, htags.imp fun _ _ htag ↦ namesExtent_of_explicitExtent htag, heq⟩
  case below =>
    intro d hd
    rw [heq, List.mem_eraseDups] at hd
    obtain ⟨tag, -, htag⟩ := exists_of_mem_mapM hnamed hd
    exact isBelow_of_explicitExtent hsub htag

end Hierarchy

/-- What is persistent in a hierarchy, in the order of the declarations. -/
structure Hierarchy.Participation (h : Hierarchy) (persistent : List ClassDecl) : Prop where
  mem_iff : ∀ c, c ∈ persistent ↔ c ∈ h.classes ∧ h.TakesPart c
  order : persistent.Sublist h.classes

/-- Wherever persistence is resolved, the persistent classes are those that take part by their own
marker or by one above them, and each has exactly the extents it should have, by the hierarchy or
by its tags. -/
theorem extents_exact {h : Hierarchy} {classes : List PersistentClass}
    (hclasses : h.persistentClasses = .ok classes) :
    h.Participation (classes.map (·.decl)) ∧ ∀ p ∈ classes,
      (p.decl.DeterminesExtents → h.DeterminedExtents (classes.map (·.decl)) p.decl p.extents) ∧
      (¬ p.decl.DeterminesExtents → h.NamedExtents (classes.map (·.decl)) p.decl p.extents) := by
  obtain ⟨hdecls, hextents⟩ := Hierarchy.persistentClasses_eq_ok hclasses
  simp only [Hierarchy.persistentClasses, bind_eq_ok_iff] at hclasses
  obtain ⟨⟨⟩, hchecked, ⟨⟩, hparsed, -⟩ := hclasses
  have hacyclic := Hierarchy.checkAcyclic_eq_ok_iff.mp hchecked
  have hoptions : ∀ c ∈ h.classes, ∃ options, c.parseOptions = .ok options :=
    fun c hc ↦ discard_eq_ok_iff.mp (forM_eq_ok_iff.mp hparsed c hc)
  have hsub : ∀ d ∈ classes.map (·.decl), d ∈ h.classes :=
    fun d hd ↦ List.mem_of_mem_filter (hdecls ▸ hd)
  rw [← hdecls] at hextents
  refine ⟨?_, fun p hp ↦ ?_⟩
  · constructor
    case mem_iff =>
      intro c
      rw [hdecls, List.mem_filter]
      exact and_congr_right fun hc ↦ Hierarchy.isPersistent_iff hacyclic hoptions hc
    case order => exact hdecls ▸ List.filter_sublist
  · have hc : p.decl ∈ h.classes := hsub p.decl (List.mem_map_of_mem hp)
    obtain ⟨options, hparse⟩ := hoptions p.decl hc
    rw [← ClassDecl.determineExtents_iff hparse]
    constructor
    · intro hdetermine
      exact Hierarchy.determinedExtents_of_extents hacyclic hsub hc hdetermine (hextents p hp)
    · intro hdetermine
      exact Hierarchy.namedExtents_of_extents hsub hdetermine (hextents p hp)

/-- There are two ways down to the amphibian, one of them through boats, which are not persistent.
The ferry names its extents itself, one of them twice. -/
def vehicles : Hierarchy where
  classes :=
    [{ name := "Vehicle", kind := .interface, tags := [⟨"ojb.class", []⟩,
        ⟨"ojb.extent-class", [("class-ref", "Amphibian")]⟩] },
     { name := "Boat", interfaces := ["Vehicle"], tags := [⟨"ojb.class",
        [("generate-repository-info", "false")]⟩] },
     { name := "Car", interfaces := ["Vehicle"] },
     { name := "Amphibian", superclass := some "Car", interfaces := ["Boat"] },
     { name := "Ferry", superclass := some "Boat", tags := [⟨"ojb.class",
        [("determine-extents", " FALSE ")]⟩, ⟨"ojb.extent-class", [("class-ref", "Icebreaker")]⟩,
        ⟨"ojb.extent-class", [("class-ref", "Hydrofoil")]⟩,
        ⟨"ojb.extent-class", [("class-ref", " Icebreaker")]⟩] },
     { name := "Hydrofoil", superclass := some "Ferry" },
     { name := "Icebreaker", superclass := some "Ferry" }]
  nodup := by decide

theorem extents_exact_vehicles :
    ∃ classes, vehicles.persistentClasses = .ok classes ∧
      classes.map (fun p : PersistentClass ↦ (p.decl.name, p.extents.map ClassDecl.name)) =
        [("Vehicle", ["Amphibian", "Ferry", "Hydrofoil", "Icebreaker", "Car"]),
          ("Car", ["Amphibian"]), ("Amphibian", []), ("Ferry", ["Icebreaker", "Hydrofoil"]),
          ("Hydrofoil", []), ("Icebreaker", [])] ∧
      vehicles.Participation (classes.map (·.decl)) ∧ ∀ p ∈ classes,
        (p.decl.DeterminesExtents →
          vehicles.DeterminedExtents (classes.map (·.decl)) p.decl p.extents) ∧
        (¬ p.decl.DeterminesExtents →
          vehicles.NamedExtents (classes.map (·.decl)) p.decl p.extents) := by
  have hok : (do
      let classes ← vehicles.persistentClasses
      return classes.map fun p : PersistentClass ↦ (p.decl.name, p.extents.map ClassDecl.name)) =
        .ok [("Vehicle", ["Amphibian", "Ferry", "Hydrofoil", "Icebreaker", "Car"]),
          ("Car", ["Amphibian"]), ("Amphibian", []), ("Ferry", ["Icebreaker", "Hydrofoil"]),
          ("Hydrofoil", []), ("Icebreaker", [])] := by
    decide +kernel
  obtain ⟨classes, hclasses, hnames⟩ := bind_eq_ok_iff.mp hok
  exact ⟨classes, hclasses, pure_eq_ok_iff.mp hnames, extents_exact hclasses⟩

end ClassMap
