import ClassMap.Options.Association
import ClassMap.Options.Class
import ClassMap.Options.Field
import ClassMap.Options.Table

/-!
What the options of a tag depend on. Each option reader looks at the values of its own keys and at
nothing else of a tag, but for the name of the tag in an error. So tags of one name that have the
same values under those keys are read the same, with the same errors, wherever the keys stand and
whatever stands between them.
-/

set_option autoImplicit false
set_option relaxedAutoImplicit false

namespace ClassMap

namespace TagReader

variable {α : Type} {keys : String → Prop} {r r' : TagReader} {key : String}

/-- Two readers that report for one class and one tag, and find the same under some keys. -/
structure Agree (keys : String → Prop) (r r' : TagReader) : Prop where
  className : r'.className = r.className
  name : r'.tag.name = r.tag.name
  get? : ∀ key, keys key → r'.tag.get? key = r.tag.get? key

namespace Agree

variable (h : Agree keys r r')
include h

theorem refuse_eq (key value : String) (fault : OptionFault) :
    r'.refuse key value fault = r.refuse key value fault := by
  rw [refuse, refuse, h.className, h.name]

variable (key : String) (hkey : keys key)
include hkey

theorem text?_eq : r'.text? key = r.text? key := by
  rw [text?, text?, h.get? key hkey]

theorem parsed?_eq (parse : String → Except OptionFault α) :
    r'.parsed? key parse = r.parsed? key parse := by
  simp only [parsed?, h.text?_eq key hkey, h.refuse_eq]

theorem flag_eq (default : Bool) : r'.flag key default = r.flag key default := by
  rw [flag, flag, h.parsed?_eq key hkey]

theorem unsigned?_eq : r'.unsigned? key = r.unsigned? key :=
  h.parsed?_eq key hkey parseUnsigned

theorem signed?_eq : r'.signed? key = r.signed? key :=
  h.parsed?_eq key hkey parseSigned

theorem entries_eq : r'.entries key = r.entries key := by
  rw [entries, entries, h.text?_eq key hkey]

theorem someEntries_eq (need : String) : r'.someEntries key need = r.someEntries key need := by
  simp only [someEntries, h.entries_eq key hkey, h.get? key hkey, h.refuse_eq]

theorem required_eq (need : String) : r'.required key need = r.required key need := by
  simp only [required, h.text?_eq key hkey, h.refuse_eq]

end Agree

end TagReader

/-! ### Whole tags -/

variable {className : String} {tag tag' : Tag}

/-- Two tags of one name that have the same values under some keys. -/
structure Tag.Agree (keys : List String) (tag tag' : Tag) : Prop where
  name : tag'.name = tag.name
  get? : ∀ key ∈ keys, tag'.get? key = tag.get? key

theorem Tag.Agree.refl (keys : List String) (tag : Tag) : Tag.Agree keys tag tag :=
  ⟨rfl, fun _ _ ↦ rfl⟩

theorem Tag.Agree.reader {keys : List String} (h : Tag.Agree keys tag tag') (className : String) :
    TagReader.Agree (· ∈ keys) ⟨className, tag⟩ ⟨className, tag'⟩ :=
  ⟨rfl, h.name, h.get?⟩

theorem ClassOptions.parse_eq (h : Tag.Agree keys tag tag') :
    parse className tag' = parse className tag := by
  have hr := h.reader className
  unfold parse
  simp (disch := decide) only [hr.text?_eq, hr.flag_eq, hr.parsed?_eq, hr.unsigned?_eq]

theorem FieldOptions.parse_eq (h : Tag.Agree keys tag tag') :
    parse className tag' = parse className tag := by
  have hr := h.reader className
  unfold parse
  simp (disch := decide) only [hr.text?_eq, hr.flag_eq, hr.parsed?_eq, hr.unsigned?_eq,
    hr.signed?_eq]

theorem ReferenceOptions.parse_eq (h : Tag.Agree keys tag tag') :
    parse className tag' = parse className tag := by
  have hr := h.reader className
  unfold parse
  simp (disch := decide) only [hr.text?_eq, hr.flag_eq, hr.parsed?_eq, hr.unsigned?_eq,
    hr.someEntries_eq]

theorem CollectionOptions.parseOrderBy_eq {r r' : TagReader}
    (h : TagReader.Agree (· ∈ keys) r r') : parseOrderBy r' = parseOrderBy r := by
  rw [parseOrderBy, parseOrderBy, h.entries_eq "orderby" (by decide)]
  simp only [h.refuse_eq]

theorem CollectionOptions.parse_eq (h : Tag.Agree keys tag tag') :
    parse className tag' = parse className tag := by
  have hr := h.reader className
  unfold parse
  simp (disch := decide) only [parseOrderBy_eq hr, hr.text?_eq, hr.flag_eq, hr.parsed?_eq,
    hr.unsigned?_eq, hr.entries_eq, hr.someEntries_eq]

theorem IndexOptions.parse_eq (h : Tag.Agree keys tag tag') :
    parse className tag' = parse className tag := by
  have hr := h.reader className
  unfold parse
  simp (disch := decide) only [hr.text?_eq, hr.flag_eq, hr.someEntries_eq, hr.required_eq]

theorem ProcedureOptions.parse_eq (h : Tag.Agree keys tag tag') :
    parse className tag' = parse className tag := by
  have hr := h.reader className
  unfold parse
  simp (disch := decide) only [hr.text?_eq, hr.flag_eq, hr.entries_eq, hr.required_eq]

theorem ArgumentOptions.parseRuntime_eq (h : Tag.Agree runtimeKeys tag tag') :
    parseRuntime className tag' = parseRuntime className tag := by
  have hr := h.reader className
  unfold parseRuntime
  simp (disch := decide) only [hr.text?_eq, hr.flag_eq, hr.required_eq]

theorem ArgumentOptions.parseConstant_eq (h : Tag.Agree constantKeys tag tag') :
    parseConstant className tag' = parseConstant className tag := by
  have hr := h.reader className
  have hvalue : tag'.get? "value" = tag.get? "value" := h.get? "value" (by decide)
  unfold parseConstant
  simp (disch := decide) only [hvalue, hr.required_eq]

end ClassMap
