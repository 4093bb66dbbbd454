import ClassMap.Proofs.Members.Table

/-!
On which classes the members of a class depend, told from the declarations. A class depends on the
declared supertypes that it inherits from and on the classes that the types of its nested members
name. A table that is made entry by entry has no class that depends on itself.
-/

set_option autoImplicit false
set_option relaxedAutoImplicit false

namespace ClassMap.Hierarchy

/-- A class takes over members of another: it names it as a supertype and inherits, or one of its
members is nested and of that type. -/
inductive DependsOn (h : Hierarchy) (c d : ClassDecl) : Prop
  | inherited (hd : d ∈ h.classes) (hname : d.name ∈ c.supertypeNames)
      (hinherits : c.options.includeInherited = true) : DependsOn h c d
  | inlined {member : Member} {tag : Tag} (hd : d ∈ h.classes) (hmember : member ∈ c.members)
      (htag : tag ∈ member.tags) (hnested : tag.name = TagName.nested)
      (hname : d.name = Text.trim (MemberType.parse member.type).rawName) : DependsOn h c d

variable {h : Hierarchy} {c d : ClassDecl} {table : MemberTable}

theorem mem_inheritedFrom_iff :
    d ∈ h.inheritedFrom c ↔
      d ∈ h.classes ∧ d.name ∈ c.supertypeNames ∧ c.options.includeInherited = true := by
  unfold inheritedFrom
  split
  · rename_i hinherits
    rw [mem_supertypes_iff]
    simp [hinherits]
  · rename_i hinherits
    simp [hinherits]

theorem ofTagName?_eq_nested_iff {name : String} :
    MappingKind.ofTagName? name = some .nested ↔ name = TagName.nested := by
  unfold MappingKind.ofTagName?
  split_ifs with hfield hreference hcollection hnested
  · subst hfield
    decide
  · subst hreference
    decide
  · subst hcollection
    decide
  · simp [hnested]
  · simp [hnested]

/-- Nested mappings stand on members. -/
theorem mem_mappings_nested_iff {mapping : DeclaredMapping} :
    mapping ∈ c.mappings ∧ mapping.kind = .nested ↔
      ∃ member ∈ c.members, ∃ tag ∈ member.tags, tag.name = TagName.nested ∧
        mapping = ⟨member.name, .nested, tag, some member⟩ := by
  simp only [ClassDecl.mappings, ClassDecl.memberMappings, List.mem_append, List.mem_flatMap,
    List.mem_filterMap, Option.map_eq_some_iff]
  constructor
  · rintro ⟨hanonymous | ⟨member, hmember, tag, htag, kind, hkind, rfl⟩, hnested⟩
    · simp only [ClassDecl.anonymousMappings, List.mem_filterMap, Option.bind_eq_bind,
        Option.bind_eq_some_iff] at hanonymous
      obtain ⟨tag, -, kind, -, hallowed⟩ := hanonymous
      split at hallowed
      · rename_i hclass
        obtain rfl := Option.some.inj hallowed
        have hkind : kind = .nested := hnested
        rw [hkind] at hclass
        exact absurd hclass (by simp [MappingKind.allowedOnClass])
      · exact absurd hallowed (by simp)
    · have hkind' : kind = .nested := hnested
      rw [hkind'] at hkind
      exact ⟨member, hmember, tag, htag, ofTagName?_eq_nested_iff.mp hkind, by rw [hkind']⟩
  · rintro ⟨member, hmember, tag, htag, hnested, rfl⟩
    exact ⟨Or.inr ⟨member, hmember, tag, htag, .nested, ofTagName?_eq_nested_iff.mpr hnested, rfl⟩,
      rfl⟩

theorem nestedClass_eq_ok_iff {mapping : DeclaredMapping} :
    h.nestedClass c mapping = .ok d ↔
      d ∈ h.classes ∧
        d.name = Text.trim (MemberType.parse (mapping.type?.getD "")).rawName := by
  unfold nestedClass find?
  dsimp only
  split
  · rename_i inner hinner
    rw [← declared?_eq_some_iff, hinner]
    simp
  · rename_i hnone
    rw [← declared?_eq_some_iff, hnone]
    simp

/-- The classes whose members go into those of a class are the ones it depends on. -/
theorem needs_iff_dependsOn : h.Needs c d ↔ h.DependsOn c d := by
  constructor
  · rintro (hd | ⟨mapping, hmapping, hkind, hd⟩)
    · obtain ⟨hd, hname, hinherits⟩ := mem_inheritedFrom_iff.mp hd
      exact .inherited hd hname hinherits
    · obtain ⟨member, hmember, tag, htag, hnested, rfl⟩ :=
        mem_mappings_nested_iff.mp ⟨hmapping, hkind⟩
      obtain ⟨hd, hname⟩ := nestedClass_eq_ok_iff.mp hd
      exact .inlined hd hmember htag hnested hname
  · rintro (⟨hd, hname, hinherits⟩ | ⟨hd, hmember, htag, hnested, hname⟩)
    · exact Or.inl (mem_inheritedFrom_iff.mpr ⟨hd, hname, hinherits⟩)
    · obtain ⟨hmapping, hkind⟩ :=
        mem_mappings_nested_iff.mpr ⟨_, hmember, _, htag, hnested, rfl⟩
      exact Or.inr ⟨_, hmapping, hkind, nestedClass_eq_ok_iff.mpr ⟨hd, hname⟩⟩

theorem DependsOn.mem_classes (hd : h.DependsOn c d) : d ∈ h.classes := by
  cases hd with
  | inherited hd => exact hd
  | inlined hd => exact hd

/-- No class in a grounded table depends on itself: what it depends on stands below its entry. -/
theorem Grounded.not_transGen (htable : Grounded h table) (hc : c ∈ h.classes)
    (hhas : table.Has c) : ¬ Relation.TransGen h.DependsOn c c := by
  induction htable generalizing c with
  | nil =>
    obtain ⟨m, hm⟩ := hhas
    exact absurd hm (by simp)
  | @cons below d m hd hbelow hnew hneeds hmade ih =>
    by_cases hname : c.name = d.name
    · obtain rfl := eq_of_name_eq hc hd hname
      intro hcycle
      obtain ⟨e, hfirst, hback⟩ := Relation.TransGen.head'_iff.mp hcycle
      obtain ⟨he, hthere⟩ := hneeds e (needs_iff_dependsOn.mpr hfirst)
      -- the cycle through the class is one through the first class on it
      have hround : Relation.TransGen h.DependsOn e e := by
        rcases Relation.reflTransGen_iff_eq_or_transGen.mp hback with rfl | hback
        · exact .single hfirst
        · exact hback.tail hfirst
      exact ih he hthere hround
    · exact ih hc ((has_cons_iff_of_ne hname).mp hhas)

end ClassMap.Hierarchy
