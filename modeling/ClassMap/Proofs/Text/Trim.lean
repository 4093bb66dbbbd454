import Mathlib.Data.List.DropRight
import ClassMap.MemberType
import ClassMap.Options.Association
import ClassMap.Proofs.Traversal

/-!
Trimmed texts. Trimming a text twice is trimming it once, and every name that is read from an
option or from a declared type comes out trimmed, so a second trim on the way to a look-up changes
nothing.
-/

set_option autoImplicit false
set_option relaxedAutoImplicit false

namespace ClassMap

open Traversal

namespace Text

/-- Neither the first nor the last character is blank. -/
def EndsPlain (cs : List Char) : Prop :=
  (∀ c ∈ cs.head?, isBlank c = false) ∧ ∀ c ∈ cs.getLast?, isBlank c = false

theorem endsPlain_of_all {cs : List Char} (h : cs.all (fun c ↦ !isBlank c) = true) :
    EndsPlain cs := by
  have hplain : ∀ c ∈ cs, isBlank c = false := by simpa using h
  exact ⟨fun c hc ↦ hplain c (List.mem_of_mem_head? hc),
    fun c hc ↦ hplain c (List.mem_of_mem_getLast? hc)⟩

/-- Nothing is left to trim. -/
def Trimmed (s : String) : Prop :=
  trim s = s

instance (s : String) : Decidable (Trimmed s) :=
  inferInstanceAs (Decidable (trim s = s))

theorem trimEnd_eq_rdropWhile (cs : List Char) : trimEnd cs = cs.rdropWhile isBlank := rfl

theorem trimBoth_of_endsPlain {cs : List Char} (h : EndsPlain cs) : trimBoth cs = cs := by
  have hstart : trimStart cs = cs := by
    cases cs with
    | nil => rfl
    | cons c rest =>
      have hc : isBlank c = false := h.1 c rfl
      simp [trimStart, hc]
  rw [trimBoth, hstart, trimEnd_eq_rdropWhile, List.rdropWhile_eq_self_iff]
  intro hne
  simp [h.2 _ (List.getLast?_eq_some_getLast hne)]

theorem endsPlain_trimBoth (cs : List Char) : EndsPlain (trimBoth cs) := by
  have hprefix : trimBoth cs <+: trimStart cs := List.rdropWhile_prefix isBlank (trimStart cs)
  constructor
  · intro c hc
    have hstart : (cs.dropWhile isBlank).head? = some c := by
      obtain ⟨rest, hrest⟩ := hprefix
      rw [show cs.dropWhile isBlank = trimBoth cs ++ rest from hrest.symm, List.head?_append]
      simp [Option.mem_def.mp hc]
    have hnot := List.head?_dropWhile_not isBlank cs
    rw [hstart] at hnot
    exact hnot
  · intro c hc
    have hne : trimBoth cs ≠ [] := by
      intro hnil
      rw [hnil] at hc
      exact absurd hc (by simp)
    have hlast := List.rdropWhile_last_not isBlank (trimStart cs) hne
    have hc' : (trimBoth cs).getLast hne = c := by
      rw [List.getLast?_eq_some_getLast hne] at hc
      exact Option.some.inj hc
    rw [← hc']
    exact Bool.eq_false_iff.mpr hlast

theorem trimmed_ofList_iff {cs : List Char} : Trimmed (String.ofList cs) ↔ trimBoth cs = cs := by
  rw [Trimmed, trim, String.toList_ofList, String.ofList_inj]

theorem trimmed_ofList_of_endsPlain {cs : List Char} (h : EndsPlain cs) :
    Trimmed (String.ofList cs) :=
  trimmed_ofList_iff.mpr (trimBoth_of_endsPlain h)

theorem Trimmed.endsPlain {s : String} (h : Trimmed s) : EndsPlain s.toList := by
  have hlist : trimBoth s.toList = s.toList := by
    rw [← toList_trim, show trim s = s from h]
  exact hlist ▸ endsPlain_trimBoth s.toList

theorem trimmed_trim (s : String) : Trimmed (trim s) :=
  trimmed_ofList_of_endsPlain (endsPlain_trimBoth s.toList)

theorem trimmed_of_trimmed? {s t : String} (h : trimmed? s = some t) : Trimmed t := by
  unfold trimmed? at h
  split at h
  · exact absurd h (by simp)
  · rw [← Option.some.inj h]
    exact trimmed_trim s

theorem trimmed_of_mem_entries {s entry : String} (h : entry ∈ entries s) : Trimmed entry := by
  obtain ⟨cs, hcs, rfl⟩ := List.mem_map.mp h
  obtain ⟨piece, -, rfl⟩ := List.mem_map.mp (List.mem_filter.mp hcs).1
  exact trimmed_ofList_of_endsPlain (endsPlain_trimBoth piece)

/-- The code points of the blank characters. -/
def blanks : List Nat :=
  [9, 10, 11, 12, 13, 0x20, 0x85, 0xA0, 0x1680, 0x2000, 0x2001, 0x2002, 0x2003, 0x2004, 0x2005,
    0x2006, 0x2007, 0x2008, 0x2009, 0x200A, 0x2028, 0x2029, 0x202F, 0x205F, 0x3000]

theorem toNat_mem_blanks {c : Char} (h : isBlank c = true) : c.toNat ∈ blanks := by
  simp only [isBlank, Bool.or_eq_true, Bool.and_eq_true, decide_eq_true_eq, beq_iff_eq] at h
  simp only [blanks, List.mem_cons, List.not_mem_nil, or_false]
  omega

theorem isWord_of_mem_blanks : ∀ n ∈ blanks, isWord (Char.ofNat n) = false := by
  decide +kernel

theorem isBlank_eq_false_of_isWord {c : Char} (h : isWord c = true) : isBlank c = false := by
  by_contra hblank
  have hmem := toNat_mem_blanks (by simpa using hblank)
  have hword := isWord_of_mem_blanks _ hmem
  rw [Char.ofNat_toNat, h] at hword
  exact Bool.noConfusion hword

end Text

namespace TagReader

theorem trimmed_of_text? {r : TagReader} {key value : String} (h : r.text? key = some value) :
    Text.Trimmed value := by
  obtain ⟨raw, -, hraw⟩ := Option.bind_eq_some_iff.mp h
  exact Text.trimmed_of_trimmed? hraw

theorem trimmed_of_mem_entries {r : TagReader} {key entry : String} (h : entry ∈ r.entries key) :
    Text.Trimmed entry := by
  unfold entries at h
  split at h
  · exact Text.trimmed_of_mem_entries h
  · exact absurd h List.not_mem_nil

theorem entries_of_someEntries {r : TagReader} {key need : String} {names : List String}
    (h : r.someEntries key need = .ok names) : names = r.entries key ∧ names ≠ [] := by
  unfold someEntries at h
  split at h
  · exact absurd h (by simp)
  · rename_i hne
    have heq := Except.ok.inj h
    exact ⟨heq.symm, fun hnil ↦ hne (heq.trans hnil)⟩

end TagReader

theorem OrderBy.trimmed_of_parse {entry : String} {o : OrderBy} (hentry : Text.Trimmed entry)
    (h : OrderBy.parse entry = .ok o) : Text.Trimmed o.field := by
  unfold OrderBy.parse at h
  split at h
  · exact Except.ok.inj h ▸ hentry
  · split at h
    · exact Except.ok.inj h ▸ Text.trimmed_trim _
    · exact Except.ok.inj h ▸ Text.trimmed_trim _
    · exact absurd h (by simp)

namespace MemberType

theorem isBlank_eq_false_of_isNameChar {c : Char} (h : isNameChar c = true) :
    Text.isBlank c = false := by
  simp only [isNameChar, Bool.or_eq_true, beq_iff_eq] at h
  rcases h with (hword | rfl) | rfl
  · exact Text.isBlank_eq_false_of_isWord hword
  · decide
  · decide

theorem endsPlain_of_container? {cs name inner : List Char}
    (h : container? cs = some (name, inner)) : Text.EndsPlain name := by
  have hname : name = cs.takeWhile isNameChar := by
    unfold container? at h
    grind
  have hall : ∀ c ∈ name, Text.isBlank c = false := fun c hc ↦
    isBlank_eq_false_of_isNameChar (List.mem_takeWhile_imp (hname ▸ hc))
  exact ⟨fun c hc ↦ hall c (List.mem_of_mem_head? hc),
    fun c hc ↦ hall c (List.mem_of_mem_getLast? hc)⟩

theorem trimmed_rawName_array {element : MemberType} (h : Text.Trimmed element.rawName) :
    Text.Trimmed (array element).rawName := by
  have hcs : (array element).rawName = String.ofList (element.rawName.toList ++ ['[', ']']) := by
    rw [rawName, String.ofList_append, String.ofList_toList]
  rw [hcs]
  refine Text.trimmed_ofList_of_endsPlain ⟨fun c hc ↦ ?_, fun c hc ↦ ?_⟩
  · rw [List.head?_append] at hc
    cases hhead : element.rawName.toList.head? with
    | none =>
      rw [hhead] at hc
      obtain rfl : '[' = c := Option.some.inj hc
      decide
    | some first =>
      rw [hhead] at hc
      exact Option.some.inj hc ▸ h.endsPlain.1 first hhead
  · rw [List.getLast?_append] at hc
    obtain rfl : ']' = c := Option.some.inj hc
    decide

/-- The name a declared type comes down to has no blanks at its ends, however the type is
written. -/
theorem trimmed_rawName_readWithin (depth : Nat) (cs : List Char) :
    Text.Trimmed (readWithin depth cs).rawName := by
  induction depth generalizing cs with
  | zero => exact Text.trimmed_ofList_of_endsPlain (Text.endsPlain_trimBoth cs)
  | succ depth ih =>
    unfold readWithin
    dsimp only
    split
    · rename_i element helement
      exact trimmed_rawName_array (ih element)
    · split
      · rename_i name inner hcontainer
        exact Text.trimmed_ofList_of_endsPlain (endsPlain_of_container? hcontainer)
      · exact Text.trimmed_ofList_of_endsPlain (Text.endsPlain_trimBoth cs)

theorem trimmed_rawName_parse (s : String) : Text.Trimmed (parse s).rawName :=
  trimmed_rawName_readWithin _ _

theorem trimmed_of_elementType?_parse {s name : String}
    (h : (parse s).elementType? = some name) : Text.Trimmed name := by
  unfold parse readWithin at h
  dsimp only at h
  split at h
  · rename_i element _
    exact Option.some.inj h ▸ trimmed_rawName_readWithin _ element
  · split at h
    · rename_i container inner _
      obtain ⟨argument, hargument, rfl⟩ := Option.map_eq_some_iff.mp h
      obtain ⟨piece, -, rfl⟩ := List.mem_map.mp (List.mem_of_getLast? hargument)
      exact trimmed_rawName_readWithin _ piece
    · exact absurd h (by simp [elementType?])

end MemberType

end ClassMap
