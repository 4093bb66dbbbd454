import ClassMap.Proofs.Members.Mapped
import ClassMap.Proofs.Options.Reading

/-!
Tags without the attributes that no tag has a use for. The options of a tag are read from the
others, so a tag is read as before without them. A patch writes such attributes into the tags it
changes, and there they are left out again.
-/

set_option autoImplicit false
set_option relaxedAutoImplicit false

namespace ClassMap

namespace Tag

/-- The keys that some tag has a use for, on a class, on a member or in a patch. -/
def recognizedKeys : List String :=
  controlKeys ++ ClassOptions.keys ++ FieldOptions.keys ++ ReferenceOptions.keys ++
    CollectionOptions.keys ++ IndexOptions.keys ++ ProcedureOptions.keys ++
    ArgumentOptions.runtimeKeys ++ ArgumentOptions.constantKeys

/-- The tag with those of its attributes that some tag has a use for. -/
def recognized (tag : Tag) : Tag :=
  { tag with attributes := tag.attributes.filter fun entry ↦ recognizedKeys.contains entry.1 }

variable {tag target : Tag} {key value : String} {entry : String × String}

@[simp] theorem name_recognized (tag : Tag) : tag.recognized.name = tag.name := rfl

theorem get?_recognized (hkey : key ∈ recognizedKeys) : tag.recognized.get? key = tag.get? key := by
  have hfind : (tag.attributes.reverse.filter fun entry ↦ recognizedKeys.contains entry.1).find?
      (fun entry ↦ entry.1 == key) = tag.attributes.reverse.find? fun entry ↦ entry.1 == key := by
    rw [List.find?_filter]
    congr 1
    funext entry
    by_cases heq : entry.1 = key
    · simp [heq, hkey]
    · simp [heq]
  rw [get?, get?, recognized, ← List.filter_reverse, hfind]

theorem agree_recognized {keys : List String} (tag : Tag) (hkeys : keys ⊆ recognizedKeys) :
    Tag.Agree keys tag tag.recognized :=
  ⟨rfl, fun _ hkey ↦ get?_recognized (hkeys hkey)⟩

/-- Tags that are read by other than the option parsers are read the same as well. -/
theorem readerAgree_recognized (className : String) (tag : Tag) :
    TagReader.Agree (· ∈ recognizedKeys) ⟨className, tag⟩ ⟨className, tag.recognized⟩ :=
  (tag.agree_recognized (List.Subset.refl recognizedKeys)).reader className

/-! ### Changes to a tag -/

theorem erase_recognized (tag : Tag) (key : String) :
    tag.recognized.erase key = (tag.erase key).recognized := by
  rw [erase, erase, recognized, recognized, List.filter_filter, List.filter_filter]
  simp only [Bool.and_comm]

theorem set_recognized (hkey : key ∈ recognizedKeys) :
    tag.recognized.set key value = (tag.set key value).recognized := by
  have hput : ∀ entries : List (String × String),
      putIn key value (entries.filter fun entry ↦ recognizedKeys.contains entry.1) =
        (putIn key value entries).filter fun entry ↦ recognizedKeys.contains entry.1 := by
    intro entries
    induction entries with
    | nil => simp [putIn, hkey]
    | cons entry rest ih =>
      by_cases heq : entry.1 = key
      · simp [putIn, heq, hkey]
      · by_cases hentry : entry.1 ∈ recognizedKeys
        · simpa [putIn, heq, hentry] using ih
        · simpa [putIn, heq, hentry] using ih
  rw [set, set, recognized, recognized, hput]

theorem recognized_set_of_not_mem (hkey : key ∉ recognizedKeys) :
    (tag.set key value).recognized = tag.recognized := by
  have hput : ∀ entries : List (String × String),
      (putIn key value entries).filter (fun entry ↦ recognizedKeys.contains entry.1) =
        entries.filter fun entry ↦ recognizedKeys.contains entry.1 := by
    intro entries
    induction entries with
    | nil => simp [putIn, hkey]
    | cons entry rest ih =>
      by_cases heq : entry.1 = key
      · simp [putIn, heq, hkey]
      · rw [putIn, if_neg (by simpa using heq), List.filter_cons, List.filter_cons, ih]
  rw [set, recognized, recognized, hput]

theorem recognized_erase_of_not_mem (hkey : key ∉ recognizedKeys) :
    (tag.erase key).recognized = tag.recognized := by
  rw [erase, recognized, recognized, List.filter_filter]
  refine congrArg _ (List.filter_congr fun entry _ ↦ ?_)
  by_cases heq : entry.1 = key
  · simp [heq, hkey]
  · simp [heq]

theorem applyEntry_recognized (hkey : entry.1 ∈ recognizedKeys) :
    target.recognized.applyEntry entry = (target.applyEntry entry).recognized := by
  rw [applyEntry, applyEntry, erase_recognized, set_recognized hkey, ← apply_ite recognized,
    ← apply_ite recognized]

theorem recognized_applyEntry_of_not_mem (hkey : entry.1 ∉ recognizedKeys) :
    (target.applyEntry entry).recognized = target.recognized := by
  rw [applyEntry]
  split
  · rfl
  · split
    · exact recognized_erase_of_not_mem hkey
    · exact recognized_set_of_not_mem hkey

theorem applyPatch_recognized (target patch : Tag) :
    target.recognized.applyPatch patch.recognized = (target.applyPatch patch).recognized := by
  rw [applyPatch, applyPatch, recognized.eq_def patch]
  generalize patch.attributes = entries
  induction entries generalizing target with
  | nil => rfl
  | cons entry rest ih =>
    by_cases hkey : entry.1 ∈ recognizedKeys
    · rw [List.filter_cons_of_pos (by simpa using hkey), List.foldl_cons, List.foldl_cons,
        applyEntry_recognized hkey, ih]
    · rw [List.filter_cons_of_neg (by simpa using hkey), List.foldl_cons, ← ih,
        recognized_applyEntry_of_not_mem hkey]

theorem keepsPatches_recognized : KeepsPatches recognized where
  applyPatch := applyPatch_recognized
  member className patch need :=
    (readerAgree_recognized className patch).required_eq "name" (by decide) need
  suppresses className patch := by
    have hignore : patch.recognized.get? "ignore" = patch.get? "ignore" :=
      get?_recognized (by decide)
    have hflag := (readerAgree_recognized className patch).flag_eq "ignore" (by decide) false
    rw [suppresses, suppresses, hignore, hflag]
  place className tag := (readerAgree_recognized className tag).signed?_eq "id" (by decide)

end Tag

end ClassMap
