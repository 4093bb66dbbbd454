import ClassMap.Container
import ClassMap.Proofs.Cycle
import ClassMap.Proofs.Entries
import ClassMap.Proofs.Members.Complete
import ClassMap.Proofs.Resolution.Scope

/-!
The same classes declared in another order. Names lead to the same classes, so everything that is
found by going up, persistence, subtyping and the effective members, is the same. Going down meets
the subtypes of a class in another order but leaves none out, so extents come out rearranged. And a
cycle is found in the one order exactly when one is found in the other.
-/

set_option autoImplicit false
set_option relaxedAutoImplicit false

namespace ClassMap.Hierarchy

open Traversal

/-- The same classes in any order. -/
def Reorders (h other : Hierarchy) : Prop :=
  h.classes.Perm other.classes

variable {h other : Hierarchy} {c d : ClassDecl} {persistent persistent' found : List ClassDecl}
  {table : MemberTable}

/-- A class above itself is what is refused, wherever the search begins. -/
theorem checkAcyclic_eq_ok_iff :
    h.checkAcyclic = .ok () ↔ ∀ c, ¬ Walk.Leads h.supertypes c c := by
  have hnext : ∀ c, ∀ d ∈ h.supertypes c, d ∈ h.classes := fun c d hd ↦ (mem_supertypes hd).1
  rw [← Walk.findCycle?_eq_none_iff hnext (Nat.lt_succ_self _)]
  change _ ↔ h.findSupertypeCycle? = none
  rw [checkAcyclic]
  cases h.findSupertypeCycle? with
  | none => simp
  | some c => simp

/-- The walk down lists all classes below another. -/
theorem mem_subtypeWalk_iff (hc : c ∈ h.classes) :
    d ∈ h.subtypeWalk c ↔ d ≠ c ∧ Walk.Leads h.directSubtypes c d := by
  have hnext : ∀ c, ∀ d ∈ h.directSubtypes c, d ∈ h.classes :=
    fun c d hd ↦ (mem_directSubtypes_iff.mp hd).1
  exact Walk.mem_tail_preorder_iff hnext hc (Nat.le_succ _)

theorem nodup_subtypeWalk (c : ClassDecl) : (h.subtypeWalk c).Nodup :=
  (Walk.nodup_preorder h.depth c).sublist (List.tail_sublist _)

theorem areCompatible_congr (hsub : h.isSubtypeName = other.isSubtypeName) :
    h.areCompatible = other.areCompatible :=
  funext₂ fun _ _ ↦ by rw [areCompatible, areCompatible, hsub]

/-- The names that the check of a container asks subtyping for. -/
def containerNames (declared : MemberType) : List String :=
  [LibraryType.list, LibraryType.set, LibraryType.map, LibraryType.collection,
    LibraryType.manageableCollection, declared.rawName]

/-- The check of a container sees of a hierarchy which names it knows and which names are below
those it asks for. -/
theorem checkContainer_congr_of_asked {declaredType : String}
    (hsub : ∀ sup ∈ containerNames (MemberType.parse declaredType), ∀ sub,
      h.isSubtypeName sub sup = other.isSubtypeName sub sup)
    (hexists : h.typeExists = other.typeExists) (className member : String)
    (collectionClass : Option String) :
    h.checkContainer className member declaredType collectionClass =
      other.checkContainer className member declaredType collectionClass := by
  simp only [containerNames, List.forall_mem_cons] at hsub
  obtain ⟨hlist, hset, hmap, hcollection, hmanageable, hraw, -⟩ := hsub
  have hkind : ContainerKind.of h (MemberType.parse declaredType) =
      .of other (MemberType.parse declaredType) := by
    simp only [ContainerKind.of, hlist, hset, hmap, hcollection]
  have haccepts : ∀ implementation kind,
      ContainerKind.accepts h (MemberType.parse declaredType) implementation kind =
        ContainerKind.accepts other (MemberType.parse declaredType) implementation kind := by
    intro implementation kind
    cases kind <;> simp only [ContainerKind.accepts, ContainerKind.accepts.implementing, hlist,
      hset, hmap, hcollection, hraw]
  simp only [checkContainer, hexists, hmanageable, hkind, haccepts]

theorem checkContainer_congr (hsub : h.isSubtypeName = other.isSubtypeName)
    (hexists : h.typeExists = other.typeExists) : h.checkContainer = other.checkContainer := by
  funext className member declaredType collectionClass
  exact checkContainer_congr_of_asked (fun _ _ _ ↦ by rw [hsub]) hexists className member
    collectionClass

namespace Reorders

theorem symm (hsame : h.Reorders other) : other.Reorders h :=
  List.Perm.symm hsame

theorem declared?_eq (hsame : h.Reorders other) : h.declared? = other.declared? :=
  funext fun _ ↦ find?_eq_of_perm hsame h.nodup

theorem find?_eq (hsame : h.Reorders other) : h.find? = other.find? :=
  funext fun _ ↦ by rw [find?, find?, hsame.declared?_eq]

theorem depth_eq (hsame : h.Reorders other) : h.depth = other.depth :=
  congrArg (· + 1) (List.Perm.length_eq hsame)

theorem supertypes_eq (hsame : h.Reorders other) : h.supertypes = other.supertypes :=
  funext fun _ ↦ by rw [supertypes, supertypes, hsame.declared?_eq]

theorem supertypeChain_eq (hsame : h.Reorders other) :
    h.supertypeChain = other.supertypeChain :=
  funext fun _ ↦ by rw [supertypeChain, supertypeChain, hsame.supertypes_eq, hsame.depth_eq]

theorem isSubtype_eq (hsame : h.Reorders other) : h.isSubtype = other.isSubtype :=
  funext₂ fun _ _ ↦ by rw [isSubtype, isSubtype, hsame.supertypeChain_eq]

theorem isPersistent_eq (hsame : h.Reorders other) : h.isPersistent = other.isPersistent :=
  funext fun _ ↦ by rw [isPersistent, isPersistent, hsame.supertypeChain_eq]

theorem namesFrom_eq (hsame : h.Reorders other) : h.namesFrom = other.namesFrom := by
  have habove : h.namesAbove = other.namesAbove :=
    funext fun _ ↦ by rw [namesAbove, namesAbove, hsame.find?_eq]
  have hlength : h.mentionedNames.length = other.mentionedNames.length :=
    (List.Perm.flatMap_right _ hsame).length_eq
  exact funext fun _ ↦ by rw [namesFrom, namesFrom, habove, hlength]

theorem isSubtypeName_eq (hsame : h.Reorders other) :
    h.isSubtypeName = other.isSubtypeName :=
  funext₂ fun _ _ ↦ by
    rw [isSubtypeName, isSubtypeName, hsame.namesFrom_eq, hsame.find?_eq]

theorem areCompatible_eq (hsame : h.Reorders other) : h.areCompatible = other.areCompatible :=
  areCompatible_congr hsame.isSubtypeName_eq

theorem checkContainer_eq (hsame : h.Reorders other) :
    h.checkContainer = other.checkContainer :=
  checkContainer_congr hsame.isSubtypeName_eq
    (funext fun _ ↦ by rw [typeExists, typeExists, hsame.find?_eq])

theorem inheritedFrom_eq (hsame : h.Reorders other) : h.inheritedFrom = other.inheritedFrom :=
  funext fun _ ↦ by rw [inheritedFrom, inheritedFrom, hsame.supertypes_eq]

theorem nestedClass_eq (hsame : h.Reorders other) : h.nestedClass = other.nestedClass :=
  funext₂ fun _ _ ↦ by rw [nestedClass, nestedClass, hsame.find?_eq]

theorem stepMembers_eq (hsame : h.Reorders other) : h.stepMembers = other.stepMembers := by
  have hcontribution : h.contribution = other.contribution :=
    funext₂ fun _ _ ↦ by rw [contribution, contribution, hsame.nestedClass_eq]
  have hadd : h.addMapping = other.addMapping := by
    funext of c own d
    rw [addMapping, addMapping, hcontribution]
  have hinherit : h.inheritAll = other.inheritAll :=
    funext₂ fun _ _ ↦ by rw [inheritAll, inheritAll, hsame.inheritedFrom_eq]
  exact funext₂ fun _ _ ↦ by rw [stepMembers, stepMembers, hinherit, hadd]

theorem needs_iff (hsame : h.Reorders other) : h.Needs c d ↔ other.Needs c d := by
  rw [Needs, Needs, hsame.inheritedFrom_eq, hsame.nestedClass_eq]

theorem mem_classes_iff (hsame : h.Reorders other) : c ∈ h.classes ↔ c ∈ other.classes :=
  List.Perm.mem_iff hsame

theorem grounded (hsame : h.Reorders other) (htable : Grounded h table) :
    Grounded other table := by
  induction htable with
  | nil => exact .nil
  | cons hc _ hnew hneeds hstep ih =>
    rw [hsame.stepMembers_eq] at hstep
    refine .cons (hsame.mem_classes_iff.mp hc) ih hnew (fun d hd ↦ ?_) hstep
    obtain ⟨hmem, hhas⟩ := hneeds d (hsame.needs_iff.mpr hd)
    exact ⟨hsame.mem_classes_iff.mp hmem, hhas⟩

/-- The effective members can be computed in either order, and they are the same. -/
theorem exists_memberTable (hsame : h.Reorders other) (htable : h.memberTable = .ok table) :
    ∃ table', other.memberTable = .ok table' ∧
      ∀ name, table.lookup name = table'.lookup name := by
  obtain ⟨hgrounded, hall⟩ := memberTable_eq_ok htable
  have hgrounded' : Grounded other table := hsame.grounded hgrounded
  have hall' : ∀ c ∈ other.classes, table.Has c :=
    fun c hc ↦ hall c (hsame.mem_classes_iff.mpr hc)
  obtain ⟨table', htable'⟩ := exists_memberTable_iff.mpr ⟨table, hgrounded', hall'⟩
  obtain ⟨hother, hallOther⟩ := memberTable_eq_ok htable'
  exact ⟨table', htable', hgrounded'.lookup_eq hother hall' hallOther⟩

theorem leads_directSubtypes_iff (hsame : h.Reorders other) :
    Walk.Leads h.directSubtypes c d ↔ Walk.Leads other.directSubtypes c d := by
  have hstep : Walk.Step h.directSubtypes = Walk.Step other.directSubtypes := by
    funext c d
    refine propext ?_
    change d ∈ h.directSubtypes c ↔ d ∈ other.directSubtypes c
    rw [mem_directSubtypes_iff, mem_directSubtypes_iff, hsame.mem_classes_iff]
  rw [Walk.Leads, Walk.Leads, hstep]

/-- The classes below a class are met in another order. -/
theorem subtypeWalk_perm (hsame : h.Reorders other) (hc : c ∈ h.classes) :
    (h.subtypeWalk c).Perm (other.subtypeWalk c) := by
  refine (List.perm_ext_iff_of_nodup (nodup_subtypeWalk c) (nodup_subtypeWalk c)).mpr fun d ↦ ?_
  rw [mem_subtypeWalk_iff hc, mem_subtypeWalk_iff (hsame.mem_classes_iff.mp hc),
    hsame.leads_directSubtypes_iff]

theorem explicitExtent_eq (hsame : h.Reorders other) (hpersistent : persistent.Perm persistent') :
    h.explicitExtent persistent = other.explicitExtent persistent' := by
  funext c tag
  simp only [explicitExtent, hsame.find?_eq, hsame.isSubtype_eq, hpersistent.contains_eq]

/-- The extents of a class are found in either order, rearranged. -/
theorem exists_extents (hsame : h.Reorders other) (hpersistent : persistent.Perm persistent')
    (hc : c ∈ h.classes) (hext : h.extents persistent c = .ok found) :
    ∃ found', other.extents persistent' c = .ok found' ∧ found.Perm found' := by
  refine exists_foldlM (R := List.Perm) ?_ ?_ hext
  · intro tag _ start next start' hstart hnext
    obtain ⟨d, hd, hpure⟩ := bind_eq_ok_iff.mp hnext
    obtain rfl := pure_eq_ok_iff.mp hpure
    rw [hsame.explicitExtent_eq hpersistent] at hd
    refine ⟨_, bind_eq_ok_iff.mpr ⟨d, hd, rfl⟩, ?_⟩
    rw [hstart.contains_eq]
    by_cases hthere : start'.contains d = true
    · rw [if_pos hthere, if_pos hthere]
      exact hstart
    · rw [if_neg hthere, if_neg hthere]
      exact hstart.append_right [d]
  · by_cases hdetermine : c.options.determineExtents = true
    · have hcontains : persistent.contains = persistent'.contains :=
        funext fun d ↦ hpersistent.contains_eq
      rw [if_pos hdetermine, if_pos hdetermine, subtypesAmong, subtypesAmong, hcontains]
      exact (hsame.subtypeWalk_perm hc).filter _
    · rw [if_neg hdetermine, if_neg hdetermine]

/-- The persistent classes are found in either order, with rearranged extents. -/
theorem exists_persistentClasses (hsame : h.Reorders other) {classes : List PersistentClass}
    (hclasses : h.persistentClasses = .ok classes) :
    ∃ classes', other.persistentClasses = .ok classes' ∧
      (classes.map (·.decl)).Perm (classes'.map (·.decl)) ∧
      ∀ p ∈ classes, ∀ q ∈ classes', p.decl = q.decl → p.extents.Perm q.extents := by
  have hpersistent : (h.classes.filter h.isPersistent).Perm
      (other.classes.filter other.isPersistent) := by
    rw [hsame.isPersistent_eq]
    exact List.Perm.filter _ hsame
  obtain ⟨hdecls, hextents⟩ := persistentClasses_eq_ok hclasses
  simp only [persistentClasses, bind_eq_ok_iff] at hclasses
  obtain ⟨⟨⟩, hacyclic, ⟨⟩, hoptions, hpass⟩ := hclasses
  have hacyclic' : other.checkAcyclic = .ok () := by
    rw [checkAcyclic_eq_ok_iff] at hacyclic ⊢
    exact hsame.supertypes_eq ▸ hacyclic
  have hoptions' : (other.classes.forM fun c ↦ discard c.parseOptions) = .ok () :=
    forM_eq_ok_iff.mpr fun c hc ↦
      forM_eq_ok_iff.mp hoptions c (hsame.mem_classes_iff.mpr hc)
  have hfound : ∀ c ∈ other.classes.filter other.isPersistent, ∃ p : PersistentClass,
      (do return ⟨c, ← other.extents (other.classes.filter other.isPersistent) c⟩) =
        Except.ok p := by
    intro c hc
    have hc' : c ∈ h.classes.filter h.isPersistent := hpersistent.mem_iff.mpr hc
    obtain ⟨p, -, hp⟩ := exists_mapM_of_mem hpass hc'
    obtain ⟨extents, hextents, -⟩ := bind_eq_ok_iff.mp hp
    obtain ⟨extents', hextents', -⟩ :=
      hsame.exists_extents hpersistent (List.mem_of_mem_filter hc') hextents
    exact ⟨⟨c, extents'⟩, bind_eq_ok_iff.mpr ⟨extents', hextents', rfl⟩⟩
  obtain ⟨classes', hpass'⟩ := exists_mapM hfound
  have hclasses' : other.persistentClasses = .ok classes' := by
    simp only [persistentClasses, bind_eq_ok_iff]
    exact ⟨(), hacyclic', (), hoptions', hpass'⟩
  obtain ⟨hdecls', hextents'⟩ := persistentClasses_eq_ok hclasses'
  refine ⟨classes', hclasses', ?_, fun p hp q hq hdecl ↦ ?_⟩
  · rw [hdecls, hdecls']
    exact hpersistent
  · have hmem : p.decl ∈ h.classes.filter h.isPersistent := hdecls ▸ List.mem_map_of_mem hp
    obtain ⟨found, hfound, hperm⟩ :=
      hsame.exists_extents hpersistent (List.mem_of_mem_filter hmem) (hextents p hp)
    rw [hdecl, hextents' q hq] at hfound
    exact Except.ok.inj hfound ▸ hperm

end Reorders

end ClassMap.Hierarchy
