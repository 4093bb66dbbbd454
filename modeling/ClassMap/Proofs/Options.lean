import ClassMap.Options.Association
import ClassMap.Options.Class
import ClassMap.Proofs.Text.Trim

/-!
Options as they are written. An option is read from the last value that its tag has for the key,
trimmed, and an empty value is none. So a flag that is set by default is switched off by the word
`false` alone, and one that is not set is switched on by the word `true` alone. What the readers of
whole tags come to is told by these words here, where other modules ask what a tag has declared.
-/

set_option autoImplicit false
set_option relaxedAutoImplicit false

namespace ClassMap

open Traversal

/-- The value of an option is `false`, in any case of letters. -/
def Tag.SwitchesOff (tag : Tag) (key : String) : Prop :=
  ∃ value, tag.get? key = some value ∧ Text.lower (Text.trim value) = "false"

/-- The value of an option is `true`, in any case of letters. -/
def Tag.SwitchesOn (tag : Tag) (key : String) : Prop :=
  ∃ value, tag.get? key = some value ∧ Text.lower (Text.trim value) = "true"

/-- An option has a value besides blanks, and this is what is between them. -/
def Tag.Says (tag : Tag) (key value : String) : Prop :=
  value ≠ "" ∧ ∃ written, tag.get? key = some written ∧ value = Text.trim written

/-- What stands between the commas of an option, in this order, blanks and empty entries aside. -/
def Tag.Lists (tag : Tag) (key : String) (entries : List String) : Prop :=
  ∃ written, tag.get? key = some written ∧
    entries = (((Text.trim written).toList.splitOn ',').map fun piece ↦
      Text.trim (String.ofList piece)).filter (· ≠ "")

/-- An option has one value. -/
theorem Tag.Says.eq {tag : Tag} {key value other : String} (h : tag.Says key value)
    (hother : tag.Says key other) : value = other := by
  obtain ⟨-, written, hget, htrim⟩ := h
  obtain ⟨-, written', hget', htrim'⟩ := hother
  obtain rfl := Option.some.inj (hget.symm.trans hget')
  exact htrim.trans htrim'.symm

/-- An option has one list of entries. -/
theorem Tag.Lists.eq {tag : Tag} {key : String} {entries others : List String}
    (h : tag.Lists key entries) (hothers : tag.Lists key others) : entries = others := by
  obtain ⟨written, hget, hentries⟩ := h
  obtain ⟨written', hget', hentries'⟩ := hothers
  obtain rfl := Option.some.inj (hget.symm.trans hget')
  exact hentries.trans hentries'.symm

theorem Text.trimmed?_eq_some_iff {written value : String} :
    trimmed? written = some value ↔ value ≠ "" ∧ value = trim written := by
  rw [trimmed?]
  by_cases hempty : trim written = ""
  · rw [hempty]
    simp
  · rw [if_neg (by simpa using hempty), Option.some.injEq]
    constructor
    · rintro rfl
      exact ⟨hempty, rfl⟩
    · exact fun hvalue ↦ hvalue.2.symm

namespace TagReader

variable {r : TagReader} {key value : String}

theorem text?_eq_some_iff : r.text? key = some value ↔ r.tag.Says key value := by
  simp only [text?, Tag.Says, Option.bind_eq_some_iff, Text.trimmed?_eq_some_iff]
  constructor
  · rintro ⟨written, hget, hne, htrim⟩
    exact ⟨hne, written, hget, htrim⟩
  · rintro ⟨hne, written, hget, htrim⟩
    exact ⟨written, hget, hne, htrim⟩

theorem says_of_required {need : String} (h : r.required key need = .ok value) :
    r.tag.Says key value := by
  rw [required] at h
  split at h
  case h_1 found htext =>
    obtain rfl := Except.ok.inj h
    exact text?_eq_some_iff.mp htext
  case h_2 => exact absurd h (by simp)

/-- A value is one word in any case of letters if the text that is read for it is. -/
theorem exists_text?_lower_iff {word : String} (hword : word ≠ "") :
    (∃ value, r.text? key = some value ∧ Text.lower value = word) ↔
      ∃ written, r.tag.get? key = some written ∧ Text.lower (Text.trim written) = word := by
  constructor
  · rintro ⟨value, htext, hlower⟩
    obtain ⟨-, written, hget, rfl⟩ := text?_eq_some_iff.mp htext
    exact ⟨written, hget, hlower⟩
  · rintro ⟨written, hget, hlower⟩
    refine ⟨_, text?_eq_some_iff.mpr ⟨?_, written, hget, rfl⟩, hlower⟩
    rintro hempty
    rw [hempty] at hlower
    exact hword (hlower.symm.trans (by decide))

theorem parseFlag_eq_ok_iff {b : Bool} :
    parseFlag value = .ok b ↔ Text.lower value = if b then "true" else "false" := by
  rw [parseFlag]
  split
  case h_1 hword => cases b <;> simp [hword]
  case h_2 hword => cases b <;> simp [hword]
  case h_3 htrue hfalse =>
    cases b with
    | false => simpa using hfalse
    | true => simpa using htrue

/-- A flag is set by the word for it, and by default without a word. -/
theorem flag_eq_ok_iff {default b : Bool} (hflag : r.flag key default = .ok b) :
    (r.text? key = none ∧ b = default) ∨
      ∃ value, r.text? key = some value ∧ Text.lower value = if b then "true" else "false" := by
  simp only [flag, parsed?, bind_eq_ok_iff, pure_eq_ok_iff] at hflag
  obtain ⟨read, hread, rfl⟩ := hflag
  cases htext : r.text? key with
  | none =>
    rw [htext] at hread
    obtain rfl := Except.ok.inj hread
    exact Or.inl ⟨rfl, rfl⟩
  | some value =>
    simp only [htext] at hread
    cases hparse : parseFlag value with
    | error fault => simp [hparse] at hread
    | ok b =>
      rw [hparse] at hread
      obtain rfl := Except.ok.inj hread
      exact Or.inr ⟨value, rfl, parseFlag_eq_ok_iff.mp hparse⟩

/-- A flag that is set by default is set unless its value switches it off. -/
theorem eq_true_iff_of_flag {b : Bool} (hflag : r.flag key true = .ok b) :
    b = true ↔ ¬ r.tag.SwitchesOff key := by
  rw [Tag.SwitchesOff, ← exists_text?_lower_iff (by decide)]
  rcases flag_eq_ok_iff hflag with ⟨hnone, rfl⟩ | ⟨value, htext, hword⟩
  · simp [hnone]
  · cases b <;> simp [htext, hword]

/-- A flag that is not set by default is set if its value switches it on. -/
theorem eq_true_iff_switchesOn {b : Bool} (hflag : r.flag key false = .ok b) :
    b = true ↔ r.tag.SwitchesOn key := by
  rw [Tag.SwitchesOn, ← exists_text?_lower_iff (by decide)]
  rcases flag_eq_ok_iff hflag with ⟨hnone, rfl⟩ | ⟨value, htext, hword⟩
  · simp [hnone]
  · cases b <;> simp [htext, hword]

end TagReader

theorem ClassOptions.flags_of_parse {className : String} {tag : Tag} {options : ClassOptions}
    (hparse : ClassOptions.parse className tag = .ok options) :
    (options.generateRepositoryInfo = true ↔ ¬ tag.SwitchesOff "generate-repository-info") ∧
      (options.determineExtents = true ↔ ¬ tag.SwitchesOff "determine-extents") := by
  simp only [ClassOptions.parse, bind_eq_ok_iff, pure_eq_ok_iff] at hparse
  obtain ⟨_, -, _, hrepository, _, hextents, _, -, _, -, _, -, _, -, rfl⟩ := hparse
  exact ⟨TagReader.eq_true_iff_of_flag hrepository, TagReader.eq_true_iff_of_flag hextents⟩

theorem CollectionOptions.indirectionTablePrimaryKeys_of_parse {className : String} {tag : Tag}
    {options : CollectionOptions} (hparse : CollectionOptions.parse className tag = .ok options) :
    options.indirectionTablePrimaryKeys = true ↔
      tag.SwitchesOn "indirection-table-primarykeys" := by
  simp only [CollectionOptions.parse, bind_eq_ok_iff, pure_eq_ok_iff] at hparse
  obtain ⟨_, -, _, -, _, hkeys, _, -, _, -, _, -, _, -, _, -, _, -, _, -, _, -, rfl⟩ := hparse
  exact TagReader.eq_true_iff_switchesOn hkeys

end ClassMap
