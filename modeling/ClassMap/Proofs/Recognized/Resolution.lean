import ClassMap.Proofs.Recognized.Members
import ClassMap.Proofs.Resolution.Mapped

/-!
Resolution without what means nothing. The tags of a class and those of its effective members are
read as the whole tags are, so leaving the rest out is a map of declarations under which the mapping
and the errors stay the same.
-/

set_option autoImplicit false
set_option relaxedAutoImplicit false

namespace ClassMap

open Traversal

/-! ### What is read -/

namespace ClassDecl

theorem keepsTables_recognized (h : Hierarchy) : KeepsTables h recognized Tag.recognized where
  toKeepsPersistence := keepsPersistence_recognized h
  isInterface _ := rfl
  options := options_recognized
  indexTags c := c.tagsNamed_recognized (by decide)
  indexed tag := tag.agree_recognized (by decide)

theorem argumentTags_recognized (c : ClassDecl) :
    Scope.argumentTags c.recognized = (Scope.argumentTags c).map Tag.recognized := by
  have hsame : Scope.declaresArgument ∘ Tag.recognized = Scope.declaresArgument := rfl
  rw [Scope.argumentTags, Scope.argumentTags, recognized, List.filter_map, hsame,
    List.filter_filter]
  refine congrArg _ (List.filter_congr fun tag _ ↦ ?_)
  -- tags of arguments are among those that a class may carry
  have hkept : Scope.declaresArgument tag = true → TagName.onClasses.contains tag.name = true := by
    intro hdeclares
    simp only [Scope.declaresArgument, Bool.or_eq_true, beq_iff_eq] at hdeclares
    rcases hdeclares with hname | hname
    · exact hname ▸ by decide
    · exact hname ▸ by decide
  cases hdeclares : Scope.declaresArgument tag with
  | true => rw [hkept hdeclares, Bool.and_self]
  | false => rw [Bool.false_and]

theorem keepsProcedures_recognized : KeepsProcedures recognized Tag.recognized where
  procedureTags := procedureTags_recognized
  argumentTags := argumentTags_recognized
  procedure tag := tag.agree_recognized (by decide)
  runtime tag := tag.agree_recognized (by decide)
  constant tag := tag.agree_recognized (by decide)

end ClassDecl

theorem EffectiveField.readsAs_recognized (f : EffectiveField) : f.ReadsAs f.recognized :=
  ⟨rfl, rfl, rfl, rfl, f.tag.agree_recognized (by decide)⟩

theorem EffectiveAssociation.readsAs_recognized (a : EffectiveAssociation) :
    a.ReadsAs a.recognized :=
  ⟨rfl, rfl, rfl, rfl, a.tag.agree_recognized (by decide), a.tag.agree_recognized (by decide)⟩

theorem EffectiveMembers.readsAs_recognized (m : EffectiveMembers) : m.ReadsAs m.recognized where
  fields := List.forall₂_map_right_iff.mpr
    (List.forall₂_same.mpr fun f _ ↦ f.readsAs_recognized)
  associations := List.forall₂_map_right_iff.mpr
    (List.forall₂_same.mpr fun a _ ↦ a.readsAs_recognized)
  suppressed := rfl

/-! ### The mapping -/

theorem Hierarchy.mirrorsMembers_recognized (h : Hierarchy) :
    h.MirrorsMembers (ClassDecl.keepsTables_recognized h) := by
  have hread : ∀ m m' : EffectiveMembers, id m' = m.recognized → m.ReadsAs m' := by
    intro m m' hm
    obtain rfl : m' = m.recognized := hm
    exact m.readsAs_recognized
  exact mirrorsMembers_of_membersOf hread fun d _ ↦
    (id_map _).trans (membersOf_recognized h.depth [] d)

/-- Declarations are resolved from those of their tags and attributes that mean something. -/
theorem resolveDeclarations_recognized (decls : List ClassDecl) (checks : ChecksMode)
    (databaseName : String) :
    resolveDeclarations (decls.map ClassDecl.recognized) checks databaseName =
      resolveDeclarations decls checks databaseName := by
  have hname : ∀ c : ClassDecl, c.recognized.name = c.name := fun _ ↦ rfl
  exact resolveDeclarations_map hname ClassDecl.keepsProcedures_recognized
    (fun h _ ↦ ⟨ClassDecl.keepsTables_recognized h, h.mirrorsMembers_recognized⟩) checks
    databaseName

end ClassMap
