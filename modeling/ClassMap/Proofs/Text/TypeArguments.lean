import ClassMap.Proofs.LibraryTypes

/-!
Type arguments. Neither the name that a declared type comes down to nor that of its elements is
written with type arguments, however deep the type is nested, and no library type has a name of that
form.
-/

set_option autoImplicit false
set_option relaxedAutoImplicit false

namespace ClassMap

namespace MemberType

def isParameterized : MemberType → Bool
  | generic _ _ => true
  | _ => false

/-- One step into a type: it is an array, a container with its arguments or a plain name. -/
theorem readWithin_succ (depth : Nat) (cs : List Char) :
    (∃ element, beforeBrackets? (Text.trimBoth cs) = some element ∧
      readWithin (depth + 1) cs = array (readWithin depth element)) ∨
    (∃ name inner, container? (Text.trimBoth cs) = some (name, inner) ∧
      readWithin (depth + 1) cs =
        generic (String.ofList name) ((splitArguments inner).map (readWithin depth))) ∨
    container? (Text.trimBoth cs) = none ∧
      readWithin (depth + 1) cs = scalar (String.ofList (Text.trimBoth cs)) := by
  rw [readWithin]
  cases hbrackets : beforeBrackets? (Text.trimBoth cs) with
  | some element => exact Or.inl ⟨element, rfl, rfl⟩
  | none =>
    cases hcontainer : container? (Text.trimBoth cs) with
    | some found => exact Or.inr (Or.inl ⟨found.1, found.2, rfl, rfl⟩)
    | none => exact Or.inr (Or.inr ⟨rfl, rfl⟩)

theorem mem_of_container? {cs name inner : List Char}
    (hcontainer : container? cs = some (name, inner)) :
    name = cs.takeWhile isNameChar ∧ '<' ∈ cs := by
  unfold container? at hcontainer
  have hrest : Text.trimStart (cs.dropWhile isNameChar) ⊆ cs :=
    ((List.dropWhile_sublist _).trans (List.dropWhile_sublist _)).subset
  grind

theorem isParameterized_parse_of_brackets {s : String} {element : List Char}
    (htrimmed : Text.Trimmed s) (hbrackets : beforeBrackets? s.toList = some element) :
    (parse s).isParameterized = false := by
  have hplain : Text.trimBoth s.toList = s.toList := by rw [← Text.toList_trim, htrimmed]
  rw [parse, readWithin, hplain]
  simp only [hbrackets, isParameterized]

theorem isParameterized_parse_of_container? {s : String}
    (hcontainer : container? (Text.trimBoth s.toList) = none) :
    (parse s).isParameterized = false := by
  rcases readWithin_succ s.toList.length s.toList with
    ⟨element, -, heq⟩ | ⟨name, inner, hsome, -⟩ | ⟨-, heq⟩
  · rw [parse, heq]
    rfl
  · exact absurd (hcontainer.symm.trans hsome) (by simp)
  · rw [parse, heq]
    rfl

/-- Type arguments stand behind an opening bracket. -/
theorem isParameterized_parse_of_not_mem {s : String} (hplain : '<' ∉ s.toList) :
    (parse s).isParameterized = false := by
  refine isParameterized_parse_of_container? (Option.eq_none_iff_forall_ne_some.mpr ?_)
  rintro ⟨name, inner⟩ hcontainer
  have htrimmed : Text.trimBoth s.toList ⊆ s.toList :=
    ((List.rdropWhile_prefix _ _).sublist.trans (List.dropWhile_sublist _)).subset
  exact hplain (htrimmed (mem_of_container? hcontainer).2)

/-- What a type comes down to has no type arguments. -/
theorem isParameterized_rawName_readWithin (depth : Nat) (cs : List Char) :
    (parse (readWithin (depth + 1) cs).rawName).isParameterized = false := by
  have htrimmed := trimmed_rawName_readWithin (depth + 1) cs
  rcases readWithin_succ depth cs with
    ⟨element, -, heq⟩ | ⟨name, inner, hcontainer, heq⟩ | ⟨hcontainer, heq⟩
  · rw [heq] at htrimmed ⊢
    have hbrackets : beforeBrackets? (array (readWithin depth element)).rawName.toList =
        some (readWithin depth element).rawName.toList := by
      simp [rawName, beforeBrackets?]
    exact isParameterized_parse_of_brackets htrimmed hbrackets
  · rw [heq]
    refine isParameterized_parse_of_not_mem fun hopen ↦ ?_
    rw [rawName, String.toList_ofList, (mem_of_container? hcontainer).1] at hopen
    exact absurd (List.mem_takeWhile_imp hopen) (by decide)
  · rw [heq] at htrimmed ⊢
    refine isParameterized_parse_of_container? ?_
    rw [← Text.toList_trim, htrimmed, rawName, String.toList_ofList]
    exact hcontainer

theorem isParameterized_rawName_parse (s : String) :
    (parse (parse s).rawName).isParameterized = false :=
  isParameterized_rawName_readWithin s.toList.length s.toList

theorem isParameterized_of_elementType? {s name : String}
    (hname : (parse s).elementType? = some name) : (parse name).isParameterized = false := by
  -- an empty text is a plain name, so within another there is a step left for the elements
  cases hlength : s.toList.length with
  | zero =>
    have hnone : (readWithin 1 []).elementType? = none := by decide
    rw [parse, hlength, List.length_eq_zero_iff.mp hlength, hnone] at hname
    exact absurd hname (by simp)
  | succ depth =>
    rw [parse, hlength] at hname
    rcases readWithin_succ (depth + 1) s.toList with
      ⟨element, -, heq⟩ | ⟨container, inner, -, heq⟩ | ⟨-, heq⟩
    · rw [heq] at hname
      exact Option.some.inj hname ▸ isParameterized_rawName_readWithin depth element
    · rw [heq] at hname
      obtain ⟨argument, hargument, rfl⟩ := Option.map_eq_some_iff.mp hname
      obtain ⟨piece, -, rfl⟩ := List.mem_map.mp (List.mem_of_getLast? hargument)
      exact isParameterized_rawName_readWithin depth piece
    · rw [heq] at hname
      exact absurd hname (by simp [elementType?])

end MemberType

theorem LibraryType.isParameterized_of_mem :
    ∀ type ∈ all, (MemberType.parse type.name).isParameterized = false := by
  refine fun type htype ↦ MemberType.isParameterized_parse_of_not_mem fun hopen ↦ ?_
  exact absurd (isNameChar_of_mem htype '<' hopen) (by decide)

end ClassMap
