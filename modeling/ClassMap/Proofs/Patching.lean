import Mathlib.Data.List.Nodup
import ClassMap.Members.Patch

/-!
What a patch does to the tag it is applied to, key by key. Erasing a key drops every value written
for it, so an empty value always takes an option back. Setting a key writes at the first place the
key has, while the last one is read; so a patch overrides an option that is written at most once,
and is lost on an option that is written twice (`overrides_iff`).
-/

set_option autoImplicit false
set_option relaxedAutoImplicit false

namespace ClassMap.Tag

variable {tag target patch : Tag} {key other value : String}

/-- The keys of a tag, in the order they were written. -/
def keys (tag : Tag) : List String :=
  tag.attributes.map (·.1)

/-! ### Reading a list of entries -/

/-- The last value of a key among some entries. -/
def lastIn? (key : String) (entries : List (String × String)) : Option String :=
  (entries.reverse.find? fun entry ↦ entry.1 == key).map (·.2)

theorem get?_eq_lastIn? (tag : Tag) (key : String) :
    tag.get? key = lastIn? key tag.attributes := rfl

theorem lastIn?_cons (entry : String × String) (entries : List (String × String)) :
    lastIn? key (entry :: entries) =
      (lastIn? key entries).or (if entry.1 == key then some entry.2 else none) := by
  rw [lastIn?, lastIn?, List.reverse_cons, List.find?_append, List.find?_singleton]
  cases entries.reverse.find? fun entry ↦ entry.1 == key with
  | some found => rfl
  | none =>
    rw [Option.none_or, Option.map_none, Option.none_or]
    split <;> rfl

theorem lastIn?_eq_none_iff {entries : List (String × String)} :
    lastIn? key entries = none ↔ key ∉ entries.map (·.1) := by
  rw [lastIn?, Option.map_eq_none_iff, List.find?_eq_none, List.mem_map, not_exists]
  refine forall_congr' fun entry ↦ ?_
  rw [List.mem_reverse, beq_iff_eq, not_and]

/-! ### One change -/

theorem map_fst_putIn (entries : List (String × String)) :
    (putIn key value entries).map (·.1) =
      if key ∈ entries.map (·.1) then entries.map (·.1) else entries.map (·.1) ++ [key] := by
  induction entries with
  | nil => rfl
  | cons entry rest ih =>
    by_cases hkey : entry.1 = key
    · simp [putIn, hkey]
    · rw [putIn, if_neg (by simpa using hkey), List.map_cons, ih, List.map_cons]
      by_cases hrest : key ∈ rest.map (·.1)
      · rw [if_pos hrest, if_pos (List.mem_cons_of_mem _ hrest)]
      · rw [if_neg hrest, if_neg (by simp [Ne.symm hkey, hrest]), List.cons_append]

/-- The value put in is read if the key is written nowhere else. -/
theorem lastIn?_putIn_self (entries : List (String × String)) :
    lastIn? key (putIn key value entries) =
      if (entries.map (·.1)).count key ≤ 1 then some value else lastIn? key entries := by
  induction entries with
  | nil => simp [putIn, lastIn?]
  | cons entry rest ih =>
    by_cases hkey : entry.1 = key
    · rw [putIn, if_pos (by simpa using hkey), lastIn?_cons, lastIn?_cons, List.map_cons, hkey,
        List.count_cons_self, if_pos (beq_self_eq_true key)]
      by_cases hrest : key ∈ rest.map (·.1)
      · have htwice : ¬ (rest.map (·.1)).count key + 1 ≤ 1 := by
          have := List.count_pos_iff.mpr hrest
          omega
        obtain ⟨last, hlast⟩ :=
          Option.ne_none_iff_exists'.mp fun hnone ↦ lastIn?_eq_none_iff.mp hnone hrest
        rw [if_neg htwice, hlast, Option.some_or, Option.some_or]
      · rw [List.count_eq_zero_of_not_mem hrest, lastIn?_eq_none_iff.mpr hrest, Option.none_or,
          if_pos (Nat.le_refl 1)]
    · have hcount : ((entry :: rest).map (·.1)).count key = (rest.map (·.1)).count key := by
        rw [List.map_cons, List.count_cons_of_ne hkey]
      have hentry : ¬ (entry.1 == key) = true := by simpa using hkey
      rw [putIn, if_neg hentry, lastIn?_cons, lastIn?_cons, ih, hcount, if_neg hentry,
        Option.or_none, Option.or_none]

theorem lastIn?_putIn_of_ne (hne : other ≠ key) (entries : List (String × String)) :
    lastIn? other (putIn key value entries) = lastIn? other entries := by
  induction entries with
  | nil => simp [putIn, lastIn?, hne.symm]
  | cons entry rest ih =>
    by_cases hkey : entry.1 = key
    · rw [putIn, if_pos (by simpa using hkey), lastIn?_cons, lastIn?_cons, hkey]
      simp [hne.symm]
    · rw [putIn, if_neg (by simpa using hkey), lastIn?_cons, lastIn?_cons, ih]

theorem keys_set (tag : Tag) (key value : String) :
    (tag.set key value).keys = if key ∈ tag.keys then tag.keys else tag.keys ++ [key] :=
  map_fst_putIn tag.attributes

theorem get?_set_self (tag : Tag) (key value : String) :
    (tag.set key value).get? key = if tag.keys.count key ≤ 1 then some value else tag.get? key :=
  lastIn?_putIn_self tag.attributes

theorem get?_set_of_ne (hne : other ≠ key) (tag : Tag) (value : String) :
    (tag.set key value).get? other = tag.get? other :=
  lastIn?_putIn_of_ne hne tag.attributes

theorem keys_erase (tag : Tag) (key : String) :
    (tag.erase key).keys = tag.keys.filter (· != key) := by
  rw [keys, keys, List.filter_map]
  rfl

theorem get?_erase_of_ne (hne : other ≠ key) (tag : Tag) :
    (tag.erase key).get? other = tag.get? other := by
  have hkept : ∀ entry : String × String, entry.1 = other → (entry.1 != key) = true := by
    rintro entry rfl
    exact bne_iff_ne.mpr hne
  rw [get?, get?, erase, ← List.filter_reverse, List.find?_filter]
  congr 2
  funext entry
  by_cases hentry : entry.1 = other
  · simp [hentry, hne]
  · simp [hentry]

/-! ### One entry of a patch -/

/-- What one entry of a patch writes under its key. -/
def written (target : Tag) (key value : String) : Option String :=
  if controlKeys.contains key then target.get? key
  else if (Text.trim value).isEmpty then none
  else if target.keys.count key ≤ 1 then some value
  else target.get? key

theorem get?_applyEntry_self (target : Tag) (key value : String) :
    (target.applyEntry (key, value)).get? key = target.written key value := by
  rw [applyEntry, written]
  split
  · rfl
  · split
    · exact get?_erase_self target key
    · exact get?_set_self target key value

theorem get?_applyEntry_of_ne (hne : other ≠ key) (target : Tag) (value : String) :
    (target.applyEntry (key, value)).get? other = target.get? other := by
  rw [applyEntry]
  split
  · rfl
  · split
    · exact get?_erase_of_ne hne target
    · exact get?_set_of_ne hne target value

theorem count_keys_applyEntry_of_ne (hne : other ≠ key) (target : Tag) (value : String) :
    (target.applyEntry (key, value)).keys.count other = target.keys.count other := by
  rw [applyEntry]
  split
  · rfl
  · split
    · rw [keys_erase, List.count_filter (by simpa using hne)]
    · rw [keys_set]
      split
      · rfl
      · rw [List.count_append, List.count_singleton, if_neg (by simpa using hne.symm),
          Nat.add_zero]

/-- An entry leaves to other entries what they find under their keys. -/
theorem written_applyEntry_of_ne (hne : other ≠ key) (target : Tag) (value given : String) :
    (target.applyEntry (key, value)).written other given = target.written other given := by
  rw [written, written, get?_applyEntry_of_ne hne, count_keys_applyEntry_of_ne hne]

/-! ### The whole patch -/

theorem get?_foldl_applyEntry_of_notMem {entries : List (String × String)}
    (hkey : key ∉ entries.map (·.1)) :
    (entries.foldl applyEntry target).get? key = target.get? key := by
  induction entries generalizing target with
  | nil => rfl
  | cons entry rest ih =>
    rw [List.map_cons, List.mem_cons, not_or] at hkey
    rw [List.foldl_cons, ih hkey.2]
    exact get?_applyEntry_of_ne hkey.1 target entry.2

theorem get?_foldl_applyEntry {entries : List (String × String)}
    (hkeys : (entries.map (·.1)).Nodup) (hentry : (key, value) ∈ entries) :
    (entries.foldl applyEntry target).get? key = target.written key value := by
  induction entries generalizing target with
  | nil => exact absurd hentry List.not_mem_nil
  | cons entry rest ih =>
    rw [List.map_cons, List.nodup_cons] at hkeys
    rw [List.foldl_cons]
    rcases List.mem_cons.mp hentry with rfl | hrest
    · rw [get?_foldl_applyEntry_of_notMem hkeys.1, get?_applyEntry_self]
    · have hne : key ≠ entry.1 := fun heq ↦ hkeys.1 (heq ▸ List.mem_map_of_mem hrest)
      rw [ih hkeys.2 hrest]
      exact written_applyEntry_of_ne hne target entry.2 value

theorem get?_applyPatch_of_notMem (hkey : key ∉ patch.keys) :
    (target.applyPatch patch).get? key = target.get? key :=
  get?_foldl_applyEntry_of_notMem hkey

theorem get?_applyPatch (hkeys : patch.keys.Nodup) (hentry : (key, value) ∈ patch.attributes) :
    (target.applyPatch patch).get? key = target.written key value :=
  get?_foldl_applyEntry hkeys hentry

/-- A patch overrides what it names and nothing else: afterwards its values are read under its keys,
nothing is read under the keys it leaves empty, and every other key reads as before. -/
structure Overrides (patch target : Tag) : Prop where
  given : ∀ key value, (key, value) ∈ patch.attributes → key ∉ controlKeys →
    (Text.trim value).isEmpty = false → (target.applyPatch patch).get? key = some value
  reset : ∀ key value, (key, value) ∈ patch.attributes → key ∉ controlKeys →
    (Text.trim value).isEmpty = true → (target.applyPatch patch).get? key = none
  others : ∀ key, key ∉ patch.keys → (target.applyPatch patch).get? key = target.get? key

/-- A key that is written more than once in a tag, and last with another value. -/
def Shadows (target : Tag) (key value : String) : Prop :=
  1 < target.keys.count key ∧ target.get? key ≠ some value

theorem written_eq_some_iff (hkey : key ∉ controlKeys)
    (hvalue : (Text.trim value).isEmpty = false) :
    target.written key value = some value ↔ ¬ target.Shadows key value := by
  rw [written, if_neg (by simpa using hkey), if_neg (by simp [hvalue]), Shadows, not_and_not_right]
  split
  · rename_i honce
    exact ⟨fun _ htwice ↦ absurd honce (Nat.not_le.mpr htwice), fun _ ↦ rfl⟩
  · rename_i htwice
    exact ⟨fun hsame _ ↦ hsame, fun hlast ↦ hlast (Nat.not_le.mp htwice)⟩

/-- A patch with different keys resets what it leaves empty and leaves alone what it does not name.
A value that it gives is read afterwards unless the tag shadows it; so it does all that is asked of
it exactly on the tags that shadow none of its values. -/
theorem overrides_iff (hkeys : patch.keys.Nodup) :
    (∀ key value, (key, value) ∈ patch.attributes → key ∉ controlKeys →
      (Text.trim value).isEmpty = true → (target.applyPatch patch).get? key = none) ∧
    (∀ key, key ∉ patch.keys → (target.applyPatch patch).get? key = target.get? key) ∧
    (∀ key value, (key, value) ∈ patch.attributes → key ∉ controlKeys →
      (Text.trim value).isEmpty = false →
        ((target.applyPatch patch).get? key = some value ↔ ¬ target.Shadows key value)) ∧
    (patch.Overrides target ↔ ∀ key value, (key, value) ∈ patch.attributes →
      key ∉ controlKeys → (Text.trim value).isEmpty = false → ¬ target.Shadows key value) := by
  have hreset : ∀ key value, (key, value) ∈ patch.attributes → key ∉ controlKeys →
      (Text.trim value).isEmpty = true → (target.applyPatch patch).get? key = none := by
    intro key value hentry hkey hvalue
    rw [get?_applyPatch hkeys hentry, written, if_neg (by simpa using hkey), if_pos hvalue]
  have hothers : ∀ key, key ∉ patch.keys →
      (target.applyPatch patch).get? key = target.get? key :=
    fun key hkey ↦ get?_applyPatch_of_notMem hkey
  have hgiven : ∀ key value, (key, value) ∈ patch.attributes → key ∉ controlKeys →
      (Text.trim value).isEmpty = false →
        ((target.applyPatch patch).get? key = some value ↔ ¬ target.Shadows key value) := by
    intro key value hentry hkey hvalue
    rw [get?_applyPatch hkeys hentry, written_eq_some_iff hkey hvalue]
  refine ⟨hreset, hothers, hgiven, ?_⟩
  constructor
  · intro hpatch key value hentry hkey hvalue
    exact (hgiven key value hentry hkey hvalue).mp (hpatch.given key value hentry hkey hvalue)
  · intro hnone
    constructor
    case given =>
      intro key value hentry hkey hvalue
      exact (hgiven key value hentry hkey hvalue).mpr (hnone key value hentry hkey hvalue)
    case reset => exact hreset
    case others => exact hothers

/-- A name in a column of ten characters. -/
def shortName : Tag :=
  ⟨"ojb.field", [("column", "OLD"), ("length", "10")]⟩

/-- A patch to another column, of the default length. -/
def relabeling : Tag :=
  ⟨"ojb.modify-inherited", [("name", "label"), ("column", "NEW"), ("length", "")]⟩

theorem overrides_iff_relabeling : relabeling.keys.Nodup ∧ relabeling.Overrides shortName := by
  have hkeys : relabeling.keys.Nodup := by decide
  have honce : ∀ key, shortName.keys.count key ≤ 1 :=
    List.nodup_iff_count_le_one.mp (by decide)
  refine ⟨hkeys, (overrides_iff hkeys).2.2.2.mpr ?_⟩
  intro key value _ _ _ hshadows
  exact absurd hshadows.1 (Nat.not_lt.mpr (honce key))

/-- A name whose column is written twice; the second is the one that is read. -/
def titledTwice : Tag :=
  ⟨"ojb.field", [("column", "TITLE"), ("column", "NAME")]⟩

/-- The patch writes its column over the first of the two, and the second is still read. -/
theorem not_overrides_titledTwice :
    relabeling.keys.Nodup ∧ ¬ relabeling.Overrides titledTwice := by
  refine ⟨by decide, fun hpatch ↦ ?_⟩
  have hgiven := hpatch.given "column" "NEW" (by decide) (by decide) (by decide +kernel)
  have hread : (titledTwice.applyPatch relabeling).get? "column" = some "NAME" := by
    decide +kernel
  exact absurd (hgiven.symm.trans hread) (by decide)

end ClassMap.Tag
