import ClassMap.LibraryType
import ClassMap.Proofs.Text.Trim
import ClassMap.Proofs.Walk

/-!
The registry of library types. Every type stands after its supertypes, so the place of a type bounds
the ways up from it, and the bounded search for a supertype finds whatever is reached
(`isSubtype_iff`). Supertypes of library types are library types, and their names have no blanks
around them.
-/

set_option autoImplicit false
set_option relaxedAutoImplicit false

namespace ClassMap.LibraryType

variable {name sub sup : String} {type : LibraryType} {depth : Nat}

/-- The supertypes of the library type that a name stands for, as they are named. -/
def namesAbove (name : String) : List String :=
  match find? name with
  | some type => type.supertypes
  | none => []

/-- The place of a name in the registry. -/
def rank (name : String) : Nat :=
  all.findIdx (·.name == name)

theorem find?_eq_some (h : find? name = some type) : type ∈ all ∧ type.name = name :=
  ⟨List.mem_of_find?_eq_some h, by simpa using List.find?_some h⟩

theorem find?_of_mem : ∀ type ∈ all, find? type.name = some type := by
  decide +kernel

/-- The names of the registry are made of the characters that containers are named with. -/
theorem isNameChar_of_mem (htype : type ∈ all) :
    ∀ c ∈ type.name.toList, MemberType.isNameChar c = true := by
  have hall : ∀ type ∈ all, type.name.toList.all MemberType.isNameChar = true := by
    decide +kernel
  exact List.all_eq_true.mp (hall type htype)

theorem trimmed_of_isSome (h : (find? name).isSome) : Text.Trimmed name := by
  obtain ⟨type, hfind⟩ := Option.isSome_iff_exists.mp h
  obtain ⟨htype, rfl⟩ := find?_eq_some hfind
  have hplain : type.name.toList.all (fun c ↦ !Text.isBlank c) = true := by
    simpa using fun c hc ↦
      MemberType.isBlank_eq_false_of_isNameChar (isNameChar_of_mem htype c hc)
  rw [← String.ofList_toList (s := type.name)]
  exact Text.trimmed_ofList_of_endsPlain (Text.endsPlain_of_all hplain)

theorem isSome_find?_of_mem_supertypes :
    ∀ type ∈ all, ∀ above ∈ type.supertypes, (find? above).isSome := by
  decide +kernel

theorem rank_of_mem_supertypes :
    ∀ type ∈ all, ∀ above ∈ type.supertypes, rank above < rank type.name := by
  decide +kernel

theorem namesAbove_object : namesAbove object = [] := by
  decide +kernel

theorem mem_namesAbove_iff {above : String} :
    above ∈ namesAbove name ↔ ∃ type, find? name = some type ∧ above ∈ type.supertypes := by
  unfold namesAbove
  cases find? name with
  | none => simp
  | some type => simp

theorem rank_of_mem_namesAbove {above : String} (h : above ∈ namesAbove name) :
    rank above < rank name := by
  obtain ⟨type, hfind, habove⟩ := mem_namesAbove_iff.mp h
  obtain ⟨htype, rfl⟩ := find?_eq_some hfind
  exact rank_of_mem_supertypes type htype above habove

theorem isSome_find?_of_reaches (hsub : (find? sub).isSome)
    (hreach : Walk.Reaches namesAbove sub sup) : (find? sup).isSome := by
  induction hreach with
  | refl => exact hsub
  | tail _ hstep =>
    obtain ⟨type, hfind, habove⟩ := mem_namesAbove_iff.mp hstep
    exact isSome_find?_of_mem_supertypes type (find?_eq_some hfind).1 _ habove

theorem isSubtypeWithin_iff (hdepth : rank sub ≤ depth) :
    isSubtypeWithin depth sub sup = true ↔ Walk.Reaches namesAbove sub sup := by
  -- each step up lowers the rank, so the rank is depth enough
  induction depth generalizing sub with
  | zero =>
    rw [isSubtypeWithin, beq_iff_eq]
    refine ⟨fun heq ↦ heq ▸ .refl, fun hreach ↦ ?_⟩
    rcases hreach.cases_head with heq | ⟨above, hstep, -⟩
    · exact heq
    · have hrank := rank_of_mem_namesAbove hstep
      omega
  | succ depth ih =>
    rw [isSubtypeWithin, Bool.or_eq_true, beq_iff_eq, Walk.Reaches,
      Relation.ReflTransGen.cases_head_iff]
    refine or_congr_right ?_
    cases hfind : find? sub with
    | none => simp [Walk.Step, mem_namesAbove_iff, hfind]
    | some type =>
      have hstep : ∀ above, Walk.Step namesAbove sub above ↔ above ∈ type.supertypes := by
        intro above
        rw [Walk.Step, mem_namesAbove_iff, hfind]
        simp
      simp only [List.any_eq_true, hstep]
      refine exists_congr fun above ↦ and_congr_right fun habove ↦ ih ?_
      have hrank := rank_of_mem_namesAbove ((hstep above).mpr habove)
      omega

/-- The subtypes of a library type are those that lead to it. -/
theorem isSubtype_iff : isSubtype sub sup = true ↔ Walk.Reaches namesAbove sub sup :=
  isSubtypeWithin_iff List.findIdx_le_length

end ClassMap.LibraryType
