import ClassMap.Declaration
import ClassMap.Proofs.WrittenTypes
import Mathlib.Data.List.Infix

/-!
Lists of types are cut in two places: the supertypes of a class at commas outside brackets, counted
with a floor, and the arguments of a container at commas at the depth of the start, counted without
one. The two counts are the same as long as no bracket closes what is not open, and what each leaves
of the empty pieces does not matter once they are all left out (`splitTypeList_eq_splitArguments`).
A bracket too many sets them apart for the rest of the text.
-/

set_option autoImplicit false
set_option relaxedAutoImplicit false

namespace ClassMap

/-- From a depth on, no angle bracket closes more than what is open before it. -/
def ClosesOpened (depth : Nat) (cs : List Char) : Prop :=
  ∀ before, before <+: cs → before.count '>' ≤ depth + before.count '<'

instance (depth : Nat) (cs : List Char) : Decidable (ClosesOpened depth cs) :=
  decidable_of_iff (∀ before ∈ cs.inits, before.count '>' ≤ depth + before.count '<')
    (forall_congr' fun before ↦ by rw [List.mem_inits])

/-- The depth behind a character, counted with a floor. -/
def flooredAfter (depth : Nat) (c : Char) : Nat :=
  if c == '<' then depth + 1 else if c == '>' then depth - 1 else depth

theorem typeListPieces_ne_nil (depth : Nat) (cs : List Char) : typeListPieces depth cs ≠ [] := by
  cases cs with
  | nil => simp [typeListPieces]
  | cons c rest =>
    rw [typeListPieces]
    split
    · simp
    · dsimp only
      split <;> simp

theorem typeListPieces_comma (rest : List Char) :
    typeListPieces 0 (',' :: rest) = [] :: typeListPieces 0 rest := by
  simp [typeListPieces]

theorem typeListPieces_cons {depth : Nat} {c : Char} (hc : c = ',' → depth ≠ 0)
    (rest : List Char) :
    typeListPieces depth (c :: rest) =
      (typeListPieces (flooredAfter depth c) rest).modifyHead (c :: ·) := by
  have hnot : ¬ (c == ',' && depth == 0) = true := by simpa using hc
  rw [typeListPieces, if_neg hnot]
  obtain ⟨piece, others, hpieces⟩ :=
    List.exists_cons_of_ne_nil (typeListPieces_ne_nil (flooredAfter depth c) rest)
  have hpieces' := hpieces
  rw [flooredAfter] at hpieces'
  simp only [hpieces, hpieces', List.modifyHead_cons]

namespace ClosesOpened

variable {depth depth' : Nat} {c : Char} {rest : List Char}

/-- The rest of a text is counted from the depth behind its first character. -/
theorem of_cons (h : ClosesOpened depth (c :: rest))
    (hdepth : depth + [c].count '<' = depth' + [c].count '>') : ClosesOpened depth' rest := by
  intro before hbefore
  have hcount := h (c :: before) (List.cons_prefix_cons.mpr ⟨rfl, hbefore⟩)
  rw [← List.singleton_append, List.count_append, List.count_append] at hcount
  omega

theorem pos (h : ClosesOpened depth ('>' :: rest)) : 0 < depth := by
  have hcount := h ['>'] (List.cons_prefix_cons.mpr ⟨rfl, List.nil_prefix⟩)
  simpa [Nat.one_le_iff_ne_zero, Nat.pos_iff_ne_zero] using hcount

/-- The floor is never met, so the depth behind a character is the same with and without it. -/
theorem step (h : ClosesOpened depth (c :: rest)) :
    MemberType.depthAfter depth c = flooredAfter depth c ∧
      ClosesOpened (flooredAfter depth c) rest := by
  by_cases hopen : c = '<'
  · subst hopen
    exact ⟨rfl, h.of_cons (by simp [flooredAfter])⟩
  · by_cases hclose : c = '>'
    · subst hclose
      have hpos := h.pos
      have hfloored : flooredAfter depth '>' = depth - 1 := rfl
      have hafter : MemberType.depthAfter depth '>' = (depth : Int) - 1 := rfl
      rw [hfloored, hafter]
      exact ⟨by omega, h.of_cons (by simp; omega)⟩
    · have hfloored : flooredAfter depth c = depth := by simp [flooredAfter, hopen, hclose]
      have hafter : MemberType.depthAfter depth c = depth := by
        simp [MemberType.depthAfter, hopen, hclose]
      rw [hfloored, hafter]
      exact ⟨rfl, h.of_cons (by simp [hopen, hclose])⟩

end ClosesOpened

/-- The pieces are cut at the same commas. -/
theorem typeListPieces_eq_argumentPieces {depth : Nat} {cs : List Char}
    (h : ClosesOpened depth cs) : typeListPieces depth cs = MemberType.argumentPieces depth cs := by
  induction cs generalizing depth with
  | nil => rfl
  | cons c rest ih =>
    obtain ⟨hafter, hrest⟩ := h.step
    by_cases hcut : c = ',' ∧ depth = 0
    · obtain ⟨rfl, rfl⟩ := hcut
      rw [typeListPieces_comma, Int.natCast_zero, MemberType.argumentPieces_comma]
      exact congrArg _ (ih hrest)
    · rw [typeListPieces_cons (by simpa using hcut), ih hrest,
        MemberType.argumentPieces_cons (by simpa using hcut), hafter]

theorem MemberType.filter_dropEmptyLast (pieces : List (List Char)) :
    (dropEmptyLast pieces).filter (!·.isEmpty) = pieces.filter (!·.isEmpty) := by
  induction pieces using dropEmptyLast.induct with
  | case1 => rfl
  | case2 piece hempty => simp [dropEmptyLast, hempty]
  | case3 piece hpiece => simp [dropEmptyLast, hpiece]
  | case4 piece next others ih => rw [dropEmptyLast, List.filter_cons, List.filter_cons, ih]

/-- A text in which brackets only close what is open has the same entries as a list of supertypes
and, the empty ones left out, as the arguments of a container. -/
theorem splitTypeList_eq_splitArguments {s : String} (h : ClosesOpened 0 s.toList) :
    ((MemberType.splitArguments s.toList).filter (!·.isEmpty)).map String.ofList =
      splitTypeList s := by
  rw [splitTypeList, typeListPieces_eq_argumentPieces h, MemberType.splitArguments,
    MemberType.filter_dropEmptyLast, Int.natCast_zero]

/-- Two entries, one of them with arguments of its own, between commas with nothing in between. -/
theorem splitTypeList_eq_splitArguments_catalogue :
    ClosesOpened 0 ", Map<Straße, List<B, C>> ,, D ,".toList ∧
      ((MemberType.splitArguments ", Map<Straße, List<B, C>> ,, D ,".toList).filter
        (!·.isEmpty)).map String.ofList = splitTypeList ", Map<Straße, List<B, C>> ,, D ," ∧
      splitTypeList ", Map<Straße, List<B, C>> ,, D ," = ["Map<Straße, List<B, C>>", "D"] := by
  have hcloses : ClosesOpened 0 ", Map<Straße, List<B, C>> ,, D ,".toList := by decide +kernel
  exact ⟨hcloses, splitTypeList_eq_splitArguments hcloses, by decide +kernel⟩

/-- With a bracket too many, what comes after it is one argument but still two supertypes. -/
example : splitTypeList "A>, B" = ["A>", "B"] ∧
    MemberType.splitArguments "A>, B".toList = ["A>, B".toList] := by
  decide +kernel

end ClassMap
