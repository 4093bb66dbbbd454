import ClassMap.Proofs.Options.Reading
import ClassMap.Proofs.Text.Lower

/-!
One spelling for the names of tables and columns. A tag is folded by making the letters `A` to `Z`
small in the values of the keys that name a table or a column. Every option reader either passes
the folding on, for those keys, or does not see it, for any other key.
-/

set_option autoImplicit false
set_option relaxedAutoImplicit false

namespace ClassMap

namespace Text

theorem toList_foldLatin (s : String) : (foldLatin s).toList = s.toList.map Char.toLower := by
  simp [foldLatin]

theorem foldLatin_foldLatin (s : String) : foldLatin (foldLatin s) = foldLatin s := by
  have htwice : Char.toLower ∘ Char.toLower = Char.toLower :=
    funext fun c ↦ (eq_toLower Char.toLower (by decide +kernel) c).symm
  refine String.toList_injective ?_
  rw [toList_foldLatin, toList_foldLatin, List.map_map, htwice]

theorem foldLatin_append (s t : String) : foldLatin (s ++ t) = foldLatin s ++ foldLatin t := by
  refine String.toList_injective ?_
  simp only [toList_foldLatin, String.toList_append, List.map_append]

theorem isBlank_toLower (c : Char) : isBlank c.toLower = isBlank c :=
  (eq_toLower isBlank (by decide +kernel) c).symm

theorem trimBoth_map_toLower (cs : List Char) :
    trimBoth (cs.map Char.toLower) = (trimBoth cs).map Char.toLower := by
  have hblank : isBlank ∘ Char.toLower = isBlank := funext isBlank_toLower
  have hstart : ∀ cs : List Char,
      (cs.map Char.toLower).dropWhile isBlank = (cs.dropWhile isBlank).map Char.toLower := by
    intro cs
    rw [List.dropWhile_map, hblank]
  rw [trimBoth, trimBoth, trimEnd, trimEnd, trimStart, trimStart, hstart, ← List.map_reverse,
    hstart, List.map_reverse]

theorem trim_foldLatin (s : String) : trim (foldLatin s) = foldLatin (trim s) := by
  refine String.toList_injective ?_
  rw [toList_foldLatin, toList_trim, toList_trim, toList_foldLatin, trimBoth_map_toLower]

theorem isEmpty_foldLatin (s : String) : (foldLatin s).isEmpty = s.isEmpty := by
  rw [Bool.eq_iff_iff, String.isEmpty_iff, String.isEmpty_iff, ← String.toList_eq_nil_iff,
    toList_foldLatin, List.map_eq_nil_iff, String.toList_eq_nil_iff]

theorem trimmed?_foldLatin (s : String) : trimmed? (foldLatin s) = (trimmed? s).map foldLatin := by
  rw [trimmed?, trimmed?, trim_foldLatin, isEmpty_foldLatin]
  split
  · rfl
  · rfl

end Text

namespace Tag

/-- The keys whose values are names of tables and columns. -/
def physicalKeys : List String :=
  ["table", "indirection-table", "column"]

def foldValue (key value : String) : String :=
  if physicalKeys.contains key then Text.foldLatin value else value

/-- The tag with one spelling for the names of tables and columns. -/
def folded (tag : Tag) : Tag :=
  { tag with attributes := tag.attributes.map fun entry ↦ (entry.1, foldValue entry.1 entry.2) }

variable {tag : Tag} {key : String}

@[simp] theorem name_folded (tag : Tag) : tag.folded.name = tag.name := rfl

theorem foldValue_of_not_mem (hkey : key ∉ physicalKeys) : foldValue key = id := by
  funext value
  rw [foldValue, if_neg (by simpa using hkey), id]

theorem foldValue_of_mem (hkey : key ∈ physicalKeys) : foldValue key = Text.foldLatin := by
  funext value
  rw [foldValue, if_pos (by simpa using hkey)]

theorem get?_folded (tag : Tag) (key : String) :
    tag.folded.get? key = (tag.get? key).map (foldValue key) := by
  rw [get?, get?, folded, ← List.map_reverse, List.find?_map, Option.map_map, Option.map_map]
  refine Option.map_congr fun entry hentry ↦ ?_
  have hname : entry.1 = key := by simpa using List.find?_some hentry
  rw [Function.comp_apply, Function.comp_apply, hname]

theorem get?_folded_of_not_mem (hkey : key ∉ physicalKeys) :
    tag.folded.get? key = tag.get? key := by
  rw [get?_folded, foldValue_of_not_mem hkey, Option.map_id, id]

/-- A tag is folded to one that has the same values under all keys that name no table or column. -/
theorem agree_folded {keys : List String} (tag : Tag) (hkeys : ∀ key ∈ keys, key ∉ physicalKeys) :
    Tag.Agree keys tag tag.folded :=
  ⟨rfl, fun key hkey ↦ get?_folded_of_not_mem (hkeys key hkey)⟩

theorem isEmpty_trim_foldValue (key value : String) :
    (Text.trim (foldValue key value)).isEmpty = (Text.trim value).isEmpty := by
  unfold foldValue
  split
  · rw [Text.trim_foldLatin, Text.isEmpty_foldLatin]
  · rfl

theorem erase_folded (tag : Tag) (key : String) :
    tag.folded.erase key = (tag.erase key).folded := by
  rw [erase, erase, folded, folded, List.filter_map]
  rfl

theorem set_folded (tag : Tag) (key value : String) :
    tag.folded.set key (foldValue key value) = (tag.set key value).folded := by
  have hput : ∀ entries : List (String × String),
      putIn key (foldValue key value)
          (entries.map fun entry ↦ (entry.1, foldValue entry.1 entry.2)) =
        (putIn key value entries).map fun entry ↦ (entry.1, foldValue entry.1 entry.2) := by
    intro entries
    induction entries with
    | nil => rfl
    | cons entry rest ih =>
      rw [List.map_cons, putIn, putIn, apply_ite (List.map _), ih]
      rfl
  rw [set, set, folded, folded, hput]

end Tag

namespace TagReader

variable {α : Type} {r : TagReader} {key : String}

/-- The reader of the folded tag. -/
def folded (r : TagReader) : TagReader :=
  { r with tag := r.tag.folded }

theorem mk_folded (className : String) (tag : Tag) :
    (⟨className, tag.folded⟩ : TagReader) = (⟨className, tag⟩ : TagReader).folded := rfl

theorem text?_folded_of_mem (hkey : key ∈ Tag.physicalKeys) :
    r.folded.text? key = (r.text? key).map Text.foldLatin := by
  rw [text?, text?, folded, Tag.get?_folded, Tag.foldValue_of_mem hkey]
  cases r.tag.get? key with
  | none => rfl
  | some value =>
    simp only [Option.map_some, Option.bind_some, Text.trimmed?_foldLatin]

theorem agree_folded (r : TagReader) : Agree (· ∉ Tag.physicalKeys) r r.folded :=
  ⟨rfl, rfl, fun _ hkey ↦ Tag.get?_folded_of_not_mem hkey⟩

variable (hkey : key ∉ Tag.physicalKeys)
include hkey

theorem text?_folded : r.folded.text? key = r.text? key :=
  r.agree_folded.text?_eq key hkey

theorem parsed?_folded (parse : String → Except OptionFault α) :
    r.folded.parsed? key parse = r.parsed? key parse :=
  r.agree_folded.parsed?_eq key hkey parse

theorem flag_folded (default : Bool) : r.folded.flag key default = r.flag key default :=
  r.agree_folded.flag_eq key hkey default

theorem unsigned?_folded : r.folded.unsigned? key = r.unsigned? key :=
  r.agree_folded.unsigned?_eq key hkey

theorem signed?_folded : r.folded.signed? key = r.signed? key :=
  r.agree_folded.signed?_eq key hkey

theorem entries_folded : r.folded.entries key = r.entries key :=
  r.agree_folded.entries_eq key hkey

theorem someEntries_folded (need : String) :
    r.folded.someEntries key need = r.someEntries key need :=
  r.agree_folded.someEntries_eq key hkey need

theorem required_folded (need : String) : r.folded.required key need = r.required key need :=
  r.agree_folded.required_eq key hkey need

end TagReader

/-! ### The options of a folded tag -/

def ClassOptions.folded (options : ClassOptions) : ClassOptions :=
  { options with table := options.table.map Text.foldLatin }

def FieldOptions.folded (options : FieldOptions) : FieldOptions :=
  { options with column := options.column.map Text.foldLatin }

def CollectionOptions.folded (options : CollectionOptions) : CollectionOptions :=
  { options with indirectionTable := options.indirectionTable.map Text.foldLatin }

/-- Options that are folded to the same differ in the table at most. -/
theorem ClassOptions.exists_of_folded_eq {options options' : ClassOptions}
    (h : options.folded = options'.folded) :
    ∃ table, options' = { options with table } ∧
      options.table.map Text.foldLatin = table.map Text.foldLatin := by
  refine ⟨options'.table, ?_, congrArg ClassOptions.table h⟩
  cases options
  cases options'
  simp_all [folded]

theorem FieldOptions.exists_of_folded_eq {options options' : FieldOptions}
    (h : options.folded = options'.folded) :
    ∃ column, options' = { options with column } ∧
      options.column.map Text.foldLatin = column.map Text.foldLatin := by
  refine ⟨options'.column, ?_, congrArg FieldOptions.column h⟩
  cases options
  cases options'
  simp_all [folded]

theorem CollectionOptions.exists_of_folded_eq {options options' : CollectionOptions}
    (h : options.folded = options'.folded) :
    ∃ indirectionTable, options' = { options with indirectionTable } ∧
      options.indirectionTable.map Text.foldLatin = indirectionTable.map Text.foldLatin := by
  refine ⟨options'.indirectionTable, ?_, congrArg CollectionOptions.indirectionTable h⟩
  cases options
  cases options'
  simp_all [folded]

variable (className : String) (tag : Tag)

open TagReader

theorem ClassOptions.parse_folded :
    parse className tag.folded = folded <$> parse className tag := by
  unfold parse
  simp (disch := decide) only [mk_folded, text?_folded_of_mem, text?_folded, flag_folded,
    parsed?_folded, unsigned?_folded, map_bind, map_pure]
  rfl

theorem FieldOptions.parse_folded :
    parse className tag.folded = folded <$> parse className tag := by
  unfold parse
  simp (disch := decide) only [mk_folded, text?_folded_of_mem, text?_folded, flag_folded,
    parsed?_folded, unsigned?_folded, signed?_folded, map_bind, map_pure]
  rfl

theorem ReferenceOptions.parse_folded : parse className tag.folded = parse className tag :=
  parse_eq (Tag.agree_folded tag (by decide))

theorem CollectionOptions.parse_folded :
    parse className tag.folded = folded <$> parse className tag := by
  have horder : ∀ r : TagReader, parseOrderBy r.folded = parseOrderBy r := by
    intro r
    rw [parseOrderBy, parseOrderBy, entries_folded (by decide)]
    rfl
  unfold parse
  simp (disch := decide) only [mk_folded, horder, text?_folded_of_mem, text?_folded, flag_folded,
    parsed?_folded, unsigned?_folded, someEntries_folded, entries_folded, map_bind, map_pure]
  rfl

theorem IndexOptions.parse_folded : parse className tag.folded = parse className tag :=
  parse_eq (Tag.agree_folded tag (by decide))

theorem ProcedureOptions.parse_folded : parse className tag.folded = parse className tag :=
  parse_eq (Tag.agree_folded tag (by decide))

theorem ArgumentOptions.parseRuntime_folded :
    parseRuntime className tag.folded = parseRuntime className tag :=
  parseRuntime_eq (Tag.agree_folded tag (by decide))

theorem ArgumentOptions.parseConstant_folded :
    parseConstant className tag.folded = parseConstant className tag :=
  parseConstant_eq (Tag.agree_folded tag (by decide))

end ClassMap
