import ClassMap.Proofs.Attributes
import ClassMap.Proofs.Resolution.Values

/-!
The descriptor document as options. What an element says of a field, a reference or a collection can
be put into a tag: its attributes are options as they stand, and the keys and orderings inside it
are lists. The options that are read from this tag are the values of the descriptor, although most of
them are left out when they are the default. One value cannot be told: a class whose name is empty
is written as an empty option, and this is read as an option that is not given.
-/

set_option autoImplicit false
set_option relaxedAutoImplicit false

namespace ClassMap

open Traversal Attributes

namespace Xml.Element

def name : Element → String
  | empty name _ => name
  | block name _ _ => name
  | line name _ => name

def attributes : Element → List (String × String)
  | empty _ attributes => attributes
  | block _ attributes _ => attributes
  | line _ _ => []

def children : Element → List Element
  | block _ _ children => children
  | _ => []

/-- The children of some name, each by its attributes. -/
def attributesOf (children : List Element) (child : String) : List (List (String × String)) :=
  (children.filter (·.name == child)).map (·.attributes)

/-- The values that the children of some name have for an attribute. -/
def valuesOf (e : Element) (child key : String) : List String :=
  (attributesOf e.children child).filterMap (·.lookup key)

/-- The attributes of an element as a tag, and lists as comma-separated options. -/
def tag (e : Element) (lists : List (String × List String)) : Tag :=
  ⟨e.name, e.attributes ++ lists.map fun (key, values) ↦ (key, ",".intercalate values)⟩

variable {child other : String}

theorem attributesOf_append (children others : List Element) :
    attributesOf (children ++ others) child =
      attributesOf children child ++ attributesOf others child := by
  rw [attributesOf, List.filter_append, List.map_append, attributesOf, attributesOf]

theorem attributesOf_map_empty {α : Type} (xs : List α) (write : α → List (String × String)) :
    attributesOf (xs.map fun x ↦ .empty child (write x)) child = xs.map write := by
  rw [attributesOf, List.filter_eq_self.mpr (by simp [name]), List.map_map]
  rfl

theorem attributesOf_map_other {α : Type} (xs : List α) (write : α → List (String × String))
    (hne : other ≠ child) : attributesOf (xs.map fun x ↦ .empty other (write x)) child = [] := by
  rw [attributesOf, List.filter_eq_nil_iff.mpr (by simpa [name] using fun _ _ ↦ hne), List.map_nil]

theorem attributesOf_documentation (documentation : Option String) (hne : "documentation" ≠ child) :
    attributesOf (documentationElements documentation) child = [] := by
  cases documentation
  · rfl
  · rw [attributesOf, List.filter_eq_nil_iff.mpr, List.map_nil]
    simpa [documentationElements, name] using hne

theorem tag_eq {e : Element} {slots : List (String × Option String)}
    (hattributes : e.attributes = ofSlots slots) (lists : List (String × List String)) :
    e.tag lists = ⟨e.name, ofSlots (slots ++
      lists.map fun (key, values) ↦ (key, some (",".intercalate values)))⟩ := by
  have hlists : (lists.map fun (key, values) ↦ (key, ",".intercalate values)) =
      ofSlots (lists.map fun (key, values) ↦ (key, some (",".intercalate values))) := by
    rw [ofSlots, List.flatMap_map]
    exact List.map_eq_flatMap
  rw [tag, hattributes, hlists, ofSlots_append]

theorem filterMap_lookup_text (key : String) (values : List String) :
    (values.map (text key)).filterMap (·.lookup key) = values := by
  rw [List.filterMap_map]
  simp [Function.comp_def, text]

end Xml.Element

/-! ### Fields -/

/-- An attribute does not say who makes up the value of a key, only that someone does. -/
def AutoIncrement.asRead : AutoIncrement → AutoIncrement
  | .none => .none
  | .ojb | .database => .ojb

theorem AutoIncrement.getD_sparse (mode : AutoIncrement) :
    ((sparse mode .none).map fun _ ↦ AutoIncrement.ojb).getD .none = mode.asRead := by
  cases mode <;> rfl

namespace FieldDescriptor

def elementTag (f : FieldDescriptor) : Tag :=
  f.element.tag []

/-- The options of a field that its attributes speak of, with the column that is read. -/
def toOptions (f : FieldDescriptor) (column : Option String) : FieldOptions where
  column
  jdbcType := some f.jdbcType
  primaryKey := f.primaryKey
  nullable := f.nullable
  autoincrement := f.autoincrement.asRead
  sequenceName := f.sequenceName
  locking := f.locking
  updateLock := f.updateLock
  defaultFetch := f.defaultFetch
  conversion := f.conversion
  length := f.length
  precision := f.precision
  scale := f.scale
  access := sparse f.access .readWrite
  id := f.id
  indexed := f.indexed
  defaultValue := f.defaultValue

/-- The attributes of a field. -/
def slots (f : FieldDescriptor) : List (String × Option String) :=
  [("name", some f.name), ("column", some f.column), ("jdbc-type", some f.jdbcType.name),
    ("primarykey", (sparse f.primaryKey false).map flagText),
    ("nullable", (sparse f.nullable true).map flagText),
    ("indexed", (sparse f.indexed false).map flagText),
    ("autoincrement", (sparse f.autoincrement .none).map fun _ ↦ "true"),
    ("sequence-name", f.sequenceName),
    ("locking", (sparse f.locking false).map flagText),
    ("update-lock", (sparse f.updateLock true).map flagText),
    ("default-fetch", (sparse f.defaultFetch false).map flagText),
    ("conversion", f.conversion),
    ("length", f.length.map (·.toNat.repr)), ("precision", f.precision.map (·.toNat.repr)),
    ("scale", f.scale.map (·.toNat.repr)),
    ("access", (sparse f.access .readWrite).map AccessMode.text),
    ("id", f.id.map (·.toInt.repr)), ("default-value", f.defaultValue)]

theorem attributes_eq (f : FieldDescriptor) : f.attributes = ofSlots f.slots := by
  have hauto := sparse_eq_ofSlots "autoincrement" f.autoincrement .none fun _ ↦ "true"
  have haccess := sparse_eq_ofSlots "access" f.access .readWrite AccessMode.text
  unfold attributes
  rw [hauto, haccess]
  simp only [text_eq_ofSlots, text?_eq_ofSlots, flag_eq_ofSlots,
    unsigned?_eq_ofSlots, signed?_eq_ofSlots, ofSlots_append, List.cons_append, List.nil_append]
  rfl

/-- Each attribute of a field is found in its tag, and no other option of a field is. -/
theorem get?_elementTag (f : FieldDescriptor) :
    ∀ slot ∈ f.slots ++ absent ["documentation", "column-documentation"],
      f.elementTag.get? slot.1 = slot.2 := by
  have helement : f.element.name = "field-descriptor" ∧ f.element.attributes = f.attributes := by
    unfold element
    cases documentationElements f.documentation
    · exact ⟨rfl, rfl⟩
    · exact ⟨rfl, rfl⟩
  rw [elementTag, Xml.Element.tag_eq (helement.2.trans f.attributes_eq), List.map_nil,
    List.append_nil, ← ofSlots_append_absent]
  exact fun slot ↦ Tag.get?_ofSlots (by simp [slots, absent])

/-- The attributes of a field are read as the values of the field. -/
theorem parse_elementTag {f : FieldDescriptor} (hf : f.HasValues) (className : String) :
    FieldOptions.parse className f.elementTag = .ok (f.toOptions (Text.trimmed? f.column)) := by
  obtain ⟨r, hr⟩ : ∃ r : TagReader, r = ⟨className, f.elementTag⟩ := ⟨_, rfl⟩
  have hget := f.get?_elementTag
  rw [show f.elementTag = r.tag from hr ▸ rfl] at hget
  simp only [slots, absent, List.cons_append, List.nil_append, List.map_cons, List.map_nil,
    List.forall_mem_cons] at hget
  obtain ⟨-, hcolumn, hjdbcType, hprimaryKey, hnullable, hindexed, hautoincrement, hsequenceName,
    hlocking, hupdateLock, hdefaultFetch, hconversion, hlength, hprecision, hscale, haccess, hid,
    hdefaultValue, hdocumentation, hcolumnDocumentation, -⟩ := hget
  have htext : r.text? "column" = Text.trimmed? f.column := by
    rw [TagReader.text?, hcolumn, Option.bind_some]
  simp only [FieldOptions.parse, ← hr, htext, TagReader.jdbcType_of_get? hjdbcType,
    TagReader.flag_of_get? hprimaryKey, TagReader.flag_of_get? hnullable,
    TagReader.autoincrement_of_get? hautoincrement,
    TagReader.text?_of_get? hsequenceName hf.sequenceName, TagReader.flag_of_get? hlocking,
    TagReader.flag_of_get? hupdateLock, TagReader.flag_of_get? hdefaultFetch,
    TagReader.text?_of_get? hconversion hf.conversion, TagReader.unsigned?_of_get? hlength,
    TagReader.unsigned?_of_get? hprecision, TagReader.unsigned?_of_get? hscale,
    TagReader.access_of_get? haccess, TagReader.signed?_of_get? hid,
    TagReader.flag_of_get? hindexed, TagReader.text?_of_get? hdefaultValue hf.defaultValue,
    TagReader.text?_of_get? hdocumentation Text.isValue?_none,
    TagReader.text?_of_get? hcolumnDocumentation Text.isValue?_none, AutoIncrement.getD_sparse,
    bind, Except.bind, pure, Except.pure]
  rfl

end FieldDescriptor

/-! ### References -/

namespace ReferenceDescriptor

def elementTag (d : ReferenceDescriptor) : Tag :=
  d.element.tag [("foreignkey", d.element.valuesOf "foreignkey" "field-ref")]

/-- The options of a reference that its element speaks of, with the class that is read. -/
def toOptions (d : ReferenceDescriptor) (classRef : Option String) : ReferenceOptions where
  classRef
  foreignKeys := d.foreignKeys
  autoRetrieve := d.autoRetrieve
  autoUpdate := d.autoUpdate
  autoDelete := d.autoDelete
  otmDependent := d.otmDependent
  proxy := d.proxy
  proxyPrefetchingLimit := d.proxyPrefetchingLimit
  refresh := d.refresh

/-- The attributes of a reference. -/
def slots (d : ReferenceDescriptor) : List (String × Option String) :=
  [("name", some d.name), ("class-ref", some d.classRef),
    ("proxy", (sparse d.proxy false).map flagText),
    ("proxy-prefetching-limit", d.proxyPrefetchingLimit.map (·.toNat.repr)),
    ("refresh", (sparse d.refresh false).map flagText),
    ("auto-retrieve", (sparse d.autoRetrieve true).map flagText),
    ("auto-update", (sparse d.autoUpdate .none).map CascadeMode.text),
    ("auto-delete", (sparse d.autoDelete .none).map CascadeMode.text),
    ("otm-dependent", (sparse d.otmDependent false).map flagText),
    ("access", if d.anonymous then some "anonymous" else none)]

theorem attributes_eq (d : ReferenceDescriptor) : d.attributes = ofSlots d.slots := by
  have haccess : (if d.anonymous then text "access" AccessMode.anonymous.text else []) =
      ofSlots [("access", if d.anonymous then some "anonymous" else none)] := by
    cases d.anonymous <;> rfl
  unfold attributes
  rw [haccess]
  simp only [text_eq_ofSlots, flag_eq_ofSlots, unsigned?_eq_ofSlots, cascade_eq_ofSlots,
    ofSlots_append, List.cons_append, List.nil_append]
  rfl

theorem valuesOf_element (d : ReferenceDescriptor) :
    d.element.valuesOf "foreignkey" "field-ref" = d.foreignKeys := by
  rw [Xml.Element.valuesOf, element, Xml.Element.children, Xml.Element.attributesOf_append,
    Xml.Element.attributesOf_documentation _ (by decide), List.nil_append,
    Xml.Element.attributesOf_map_empty, Xml.Element.filterMap_lookup_text]

/-- Each attribute of a reference and its keys are found in its tag, and no other option of a
reference is. -/
theorem get?_elementTag (d : ReferenceDescriptor) :
    ∀ slot ∈ d.slots ++ [("foreignkey", some (",".intercalate d.foreignKeys))] ++
        absent ["database-foreignkey", "documentation"],
      d.elementTag.get? slot.1 = slot.2 := by
  have hattributes : d.element.attributes = ofSlots d.slots := d.attributes_eq
  rw [elementTag, valuesOf_element, Xml.Element.tag_eq hattributes, List.map_singleton,
    ← ofSlots_append_absent]
  exact fun slot ↦ Tag.get?_ofSlots (by simp [slots, absent])

/-- The element of a reference is read as the values of the reference. -/
theorem parse_elementTag {d : ReferenceDescriptor} (hd : d.HasValues) (className : String) :
    ReferenceOptions.parse className d.elementTag =
      .ok (d.toOptions (if d.classRef = "" then none else some d.classRef)) := by
  obtain ⟨r, hr⟩ : ∃ r : TagReader, r = ⟨className, d.elementTag⟩ := ⟨_, rfl⟩
  have hget := d.get?_elementTag
  rw [show d.elementTag = r.tag from hr ▸ rfl] at hget
  simp only [slots, absent, List.cons_append, List.nil_append, List.map_cons, List.map_nil,
    List.forall_mem_cons] at hget
  obtain ⟨-, hclassRef, hproxy, hlimit, hrefresh, hautoRetrieve, hautoUpdate, hautoDelete,
    hotmDependent, -, hforeignKeys, hdatabase, hdocumentation, -⟩ := hget
  simp only [ReferenceOptions.parse, ← hr,
    TagReader.someEntries_of_get? hforeignKeys hd.foreignKeys hd.nonempty,
    TagReader.name_of_get? hclassRef hd.classRef,
    TagReader.flag_of_get? hproxy, TagReader.unsigned?_of_get? hlimit,
    TagReader.flag_of_get? hrefresh, TagReader.flag_of_get? hautoRetrieve,
    TagReader.cascade_of_get? hautoUpdate, TagReader.cascade_of_get? hautoDelete,
    TagReader.flag_of_get? hotmDependent, TagReader.flag_of_none hdatabase,
    TagReader.text?_of_get? hdocumentation Text.isValue?_none, getD_sparse,
    bind, Except.bind, pure, Except.pure]
  rfl

end ReferenceDescriptor

/-! ### Collections -/

namespace OrderBy

def sort (o : OrderBy) : String :=
  if o.descending then "DESC" else "ASC"

/-- An ordering as it can be written in an option. -/
def text (o : OrderBy) : String :=
  o.field ++ "=" ++ o.sort

theorem toList_text (o : OrderBy) : o.text.toList = o.field.toList ++ '=' :: o.sort.toList := by
  simp [text]

theorem isEntry_text {o : OrderBy} (ho : o.HasValues) : Text.IsEntry o.text := by
  have hsort : Text.EndsPlain ('=' :: o.sort.toList) ∧ ',' ∉ '=' :: o.sort.toList := by
    unfold sort
    cases o.descending
    · exact ⟨Text.endsPlain_of_all (by decide), by decide⟩
    · exact ⟨Text.endsPlain_of_all (by decide), by decide⟩
  have hplain : Text.EndsPlain o.text.toList := by
    rw [toList_text]
    exact ho.trimmed.endsPlain.append hsort.1
  refine ⟨⟨?_, ?_⟩, ?_⟩
  · rw [← String.ofList_toList (s := o.text)]
    exact Text.trimmed_ofList_of_endsPlain hplain
  · simp [text]
  · rw [toList_text, List.mem_append, not_or]
    exact ⟨ho.noComma, hsort.2⟩

theorem parse_text {o : OrderBy} (ho : o.HasValues) : parse o.text = .ok o := by
  have hcut : Text.cut? '=' o.text.toList = some (o.field.toList, o.sort.toList) :=
    Text.cut?_eq_some_iff.mpr ⟨o.toList_text, ho.noEquals⟩
  have hfield : Text.trim o.field = o.field := ho.trimmed
  unfold parse
  rw [hcut]
  dsimp only
  rw [String.ofList_toList, String.ofList_toList, hfield]
  have hupper : Text.upper (Text.trim "ASC") = "ASC" ∧ Text.upper (Text.trim "DESC") = "DESC" := by
    decide
  obtain ⟨field, descending⟩ := o
  cases descending
  · simp only [sort, Bool.false_eq_true, if_false, hupper.1]
  · simp only [sort, if_true, hupper.2]

end OrderBy

namespace CollectionDescriptor

/-- The orderings inside an element, as options write them. -/
def orderings (e : Xml.Element) : List String :=
  (Xml.Element.attributesOf e.children "orderby").map fun attributes ↦
    (attributes.lookup "name").getD "" ++ "=" ++ (attributes.lookup "sort").getD ""

def elementTag (d : CollectionDescriptor) : Tag :=
  d.element.tag [
    ("foreignkey", d.element.valuesOf "inverse-foreignkey" "field-ref" ++
      d.element.valuesOf "fk-pointing-to-this-class" "column"),
    ("remote-foreignkey", d.element.valuesOf "fk-pointing-to-element-class" "column"),
    ("orderby", orderings d.element)]

/-- The options of a collection that its element speaks of, with the element class that is read. -/
def toOptions (d : CollectionDescriptor) (elementClassRef : Option String) : CollectionOptions where
  elementClassRef
  foreignKeys := d.foreignKeys
  remoteForeignKeys := d.remoteForeignKeys
  indirectionTable := d.indirectionTable
  collectionClass := d.collectionClass
  orderBy := d.orderBy
  autoRetrieve := d.autoRetrieve
  autoUpdate := d.autoUpdate
  autoDelete := d.autoDelete
  otmDependent := d.otmDependent
  proxy := d.proxy
  proxyPrefetchingLimit := d.proxyPrefetchingLimit
  refresh := d.refresh

/-- The attributes of a collection. -/
def slots (d : CollectionDescriptor) : List (String × Option String) :=
  [("name", some d.name), ("collection-class", d.collectionClass),
    ("element-class-ref", some d.elementClassRef), ("indirection-table", d.indirectionTable),
    ("proxy", (sparse d.proxy false).map flagText),
    ("proxy-prefetching-limit", d.proxyPrefetchingLimit.map (·.toNat.repr)),
    ("refresh", (sparse d.refresh false).map flagText),
    ("auto-retrieve", (sparse d.autoRetrieve true).map flagText),
    ("auto-update", (sparse d.autoUpdate .none).map CascadeMode.text),
    ("auto-delete", (sparse d.autoDelete .none).map CascadeMode.text),
    ("otm-dependent", (sparse d.otmDependent false).map flagText)]

/-- The keys and the orderings of a collection. -/
def lists (d : CollectionDescriptor) : List (String × List String) :=
  [("foreignkey", d.foreignKeys), ("remote-foreignkey", d.remoteForeignKeys),
    ("orderby", d.orderBy.map OrderBy.text)]

theorem attributes_eq (d : CollectionDescriptor) : d.attributes = ofSlots d.slots := by
  unfold attributes
  simp only [text_eq_ofSlots, text?_eq_ofSlots, flag_eq_ofSlots, unsigned?_eq_ofSlots,
    cascade_eq_ofSlots, ofSlots_append, List.cons_append, List.nil_append]
  rfl

theorem attributesOf_children (d : CollectionDescriptor) {child : String}
    (hdocumentation : "documentation" ≠ child) (hcustomizer : "query-customizer" ≠ child) :
    Xml.Element.attributesOf d.element.children child =
      Xml.Element.attributesOf (d.orderBy.map fun entry ↦ Xml.Element.empty "orderby"
        (text "name" entry.field ++ text "sort" entry.sort)) child ++
      Xml.Element.attributesOf d.keyElements child := by
  rw [element, Xml.Element.children, Xml.Element.attributesOf_append,
    Xml.Element.attributesOf_append, Xml.Element.attributesOf_append,
    Xml.Element.attributesOf_documentation _ hdocumentation,
    Xml.Element.attributesOf_map_other _ _ hcustomizer, List.append_nil, List.nil_append]
  rfl

/-- The elements of the keys are those that no other child of a collection is named like. -/
theorem valuesOf_eq (d : CollectionDescriptor) {child : String} (key : String)
    (hdocumentation : "documentation" ≠ child) (hcustomizer : "query-customizer" ≠ child)
    (horder : "orderby" ≠ child) :
    d.element.valuesOf child key =
      (Xml.Element.attributesOf d.keyElements child).filterMap (·.lookup key) := by
  rw [Xml.Element.valuesOf, d.attributesOf_children hdocumentation hcustomizer,
    Xml.Element.attributesOf_map_other _ _ horder, List.nil_append]

theorem valuesOf_element {d : CollectionDescriptor} (hd : d.HasValues) :
    d.element.valuesOf "inverse-foreignkey" "field-ref" ++
        d.element.valuesOf "fk-pointing-to-this-class" "column" = d.foreignKeys ∧
      d.element.valuesOf "fk-pointing-to-element-class" "column" = d.remoteForeignKeys := by
  rw [d.valuesOf_eq _ (by decide) (by decide) (by decide),
    d.valuesOf_eq _ (by decide) (by decide) (by decide),
    d.valuesOf_eq _ (by decide) (by decide) (by decide)]
  unfold keyElements
  cases hmany : d.isManyToMany with
  | true =>
    simp only [if_true, Xml.Element.attributesOf_append]
    rw [Xml.Element.attributesOf_map_other _ _ (by decide),
      Xml.Element.attributesOf_map_other _ _ (by decide), Xml.Element.attributesOf_map_empty,
      Xml.Element.attributesOf_map_other _ _ (by decide),
      Xml.Element.attributesOf_map_other _ _ (by decide), Xml.Element.attributesOf_map_empty,
      List.append_nil, List.append_nil, List.nil_append, Xml.Element.filterMap_lookup_text,
      Xml.Element.filterMap_lookup_text]
    exact ⟨rfl, rfl⟩
  | false =>
    have hnone : d.indirectionTable = none := by simpa [isManyToMany] using hmany
    simp only [Bool.false_eq_true, if_false]
    rw [Xml.Element.attributesOf_map_empty, Xml.Element.attributesOf_map_other _ _ (by decide),
      Xml.Element.attributesOf_map_other _ _ (by decide), Xml.Element.filterMap_lookup_text,
      hd.noRemote hnone]
    exact ⟨List.append_nil _, rfl⟩

theorem orderings_element (d : CollectionDescriptor) :
    orderings d.element = d.orderBy.map OrderBy.text := by
  have hkeys : Xml.Element.attributesOf d.keyElements "orderby" = [] := by
    unfold keyElements
    split
    · rw [Xml.Element.attributesOf_append, Xml.Element.attributesOf_map_other _ _ (by decide),
        Xml.Element.attributesOf_map_other _ _ (by decide), List.append_nil]
    · exact Xml.Element.attributesOf_map_other _ _ (by decide)
  rw [orderings, d.attributesOf_children (by decide) (by decide), hkeys, List.append_nil,
    Xml.Element.attributesOf_map_empty, List.map_map]
  rfl

/-- Each attribute of a collection and its lists are found in its tag, and no other option of a
collection is. -/
theorem get?_elementTag {d : CollectionDescriptor} (hd : d.HasValues) :
    ∀ slot ∈ d.slots ++ (d.lists.map fun (key, values) ↦ (key, some (",".intercalate values))) ++
        absent ["indirection-table-primarykeys", "indirection-table-documentation",
          "query-customizer", "database-foreignkey", "documentation"],
      d.elementTag.get? slot.1 = slot.2 := by
  have hattributes : d.element.attributes = ofSlots d.slots := d.attributes_eq
  obtain ⟨hkeys, hremote⟩ := valuesOf_element hd
  rw [elementTag, hkeys, hremote, orderings_element, Xml.Element.tag_eq hattributes,
    ← ofSlots_append_absent]
  exact fun slot ↦ Tag.get?_ofSlots (by simp [slots, lists, absent])

theorem parseOrderBy_of_get? {r : TagReader} {orderBy : List OrderBy}
    (hget : r.tag.get? "orderby" = some (",".intercalate (orderBy.map OrderBy.text)))
    (horder : ∀ o ∈ orderBy, o.HasValues) :
    CollectionOptions.parseOrderBy r = .ok orderBy := by
  have hentries : ∀ entry ∈ orderBy.map OrderBy.text, Text.IsEntry entry := by
    intro entry hentry
    obtain ⟨o, ho, rfl⟩ := List.mem_map.mp hentry
    exact OrderBy.isEntry_text (horder o ho)
  rw [CollectionOptions.parseOrderBy, TagReader.entries_of_get? hget hentries, mapM_eq_ok_iff,
    List.forall₂_map_left_iff, List.forall₂_same]
  exact fun o ho ↦ by rw [OrderBy.parse_text (horder o ho)]

/-- The element of a collection is read as the values of the collection. -/
theorem parse_elementTag {d : CollectionDescriptor} (hd : d.HasValues) (className : String) :
    CollectionOptions.parse className d.elementTag =
      .ok (d.toOptions (if d.elementClassRef = "" then none else some d.elementClassRef)) := by
  obtain ⟨r, hr⟩ : ∃ r : TagReader, r = ⟨className, d.elementTag⟩ := ⟨_, rfl⟩
  have hget := get?_elementTag hd
  rw [show d.elementTag = r.tag from hr ▸ rfl] at hget
  simp only [slots, lists, absent, List.cons_append, List.nil_append, List.map_cons, List.map_nil,
    List.forall_mem_cons] at hget
  obtain ⟨-, hcollectionClass, helement, htable, hproxy, hlimit, hrefresh, hautoRetrieve,
    hautoUpdate, hautoDelete, hotmDependent, hforeignKeys, hremote, horder, hprimaryKeys,
    htableDocumentation, hcustomizer, hdatabase, hdocumentation, -⟩ := hget
  simp only [CollectionOptions.parse, ← hr,
    TagReader.someEntries_of_get? hforeignKeys hd.foreignKeys hd.nonempty,
    parseOrderBy_of_get? horder hd.orderBy, TagReader.name_of_get? helement hd.elementClassRef,
    TagReader.entries_of_get? hremote hd.remoteForeignKeys,
    TagReader.text?_of_get? htable hd.indirectionTable, TagReader.flag_of_none hprimaryKeys,
    TagReader.text?_of_get? htableDocumentation Text.isValue?_none,
    TagReader.text?_of_get? hcollectionClass hd.collectionClass,
    TagReader.text?_of_get? hcustomizer Text.isValue?_none, TagReader.flag_of_none hdatabase,
    TagReader.flag_of_get? hautoRetrieve, TagReader.cascade_of_get? hautoUpdate,
    TagReader.cascade_of_get? hautoDelete, TagReader.flag_of_get? hotmDependent,
    TagReader.flag_of_get? hproxy, TagReader.unsigned?_of_get? hlimit,
    TagReader.flag_of_get? hrefresh, TagReader.text?_of_get? hdocumentation Text.isValue?_none,
    getD_sparse, bind, Except.bind, pure, Except.pure]
  rfl

end CollectionDescriptor

/-! ### Documents -/

/-- The options that are read from the elements of a repository are the values of its descriptors,
the classes they lead to being read as `asRead` says. -/
structure Repository.ReadsBack (asRead : String → Option String) (r : Repository) : Prop where
  fields : ∀ c ∈ r.classes, ∀ f ∈ c.fields, ∀ className, ∃ column,
    FieldOptions.parse className f.elementTag = .ok (f.toOptions column) ∧
      (Text.Trimmed f.column → column = some f.column)
  references : ∀ c ∈ r.classes, ∀ d ∈ c.references, ∀ className,
    ReferenceOptions.parse className d.elementTag = .ok (d.toOptions (asRead d.classRef))
  collections : ∀ c ∈ r.classes, ∀ d ∈ c.collections, ∀ className,
    CollectionOptions.parse className d.elementTag = .ok (d.toOptions (asRead d.elementClassRef))

/-- The descriptor document of whatever has been resolved is read back, but for the classes whose
name is empty. -/
theorem readsBack_of_resolve {decls : List ClassDecl} {checks : ChecksMode} {databaseName : String}
    {r : Repository} (hr : resolveDeclarations decls checks databaseName = .ok r) :
    r.ReadsBack fun name ↦ if name = "" then none else some name := by
  obtain ⟨h, s, changes, hresolved⟩ := exists_resolvedIn hr
  constructor
  case fields =>
    intro c hc f hf className
    obtain ⟨p, hp⟩ := Scope.exists_describes_of_mem hresolved.planned hc
    have hvalues := hresolved.built.hasValues_of_mem hp.mem (hp.fields ▸ hf)
    refine ⟨_, FieldDescriptor.parse_elementTag hvalues className, fun htrimmed ↦ ?_⟩
    exact Text.IsValue.trimmed?_eq ⟨htrimmed, hvalues.column⟩
  case references =>
    intro c hc d hd className
    obtain ⟨p, hp⟩ := Scope.exists_describes_of_mem hresolved.planned hc
    obtain ⟨a, -, _, -, hplan⟩ := hp.exists_of_mem_references hd
    exact ReferenceDescriptor.parse_elementTag (Scope.hasValues_of_resolveReference hplan) className
  case collections =>
    intro c hc d hd className
    obtain ⟨p, hp⟩ := Scope.exists_describes_of_mem hresolved.planned hc
    obtain ⟨a, -, _, -, hplan⟩ := hp.exists_of_mem_collections hd
    exact CollectionDescriptor.parse_elementTag (Scope.hasValues_of_collectionPlan hplan) className

/-- Albums with songs in an order, and a cover whose class has no name. -/
def albums : List ClassDecl :=
  [{ name := ""
     tags := [⟨"ojb.class", [("table", "COVER")]⟩]
     members := [⟨"id", "int", [⟨"ojb.field", [("primarykey", "true")]⟩]⟩] },
   { name := "Album"
     tags := [⟨"ojb.class", []⟩]
     members := [⟨"id", "int", [⟨"ojb.field", [("primarykey", "true"),
         ("autoincrement", "database"), ("id", "-7")]⟩]⟩,
       ⟨"cover", "", [⟨"ojb.reference", [("foreignkey", "id"), ("auto-update", "true")]⟩]⟩,
       ⟨"songs", "Song[]", [⟨"ojb.collection", [("foreignkey", "album"),
         ("orderby", "title=desc, id")]⟩]⟩] },
   { name := "Song"
     tags := [⟨"ojb.class", []⟩]
     members := [⟨"id", "int", [⟨"ojb.field", [("primarykey", "true")]⟩]⟩,
       ⟨"album", "int", [⟨"ojb.field", [("nullable", "false")]⟩]⟩,
       ⟨"title", "java.lang.String", [⟨"ojb.field", [("length", "80")]⟩]⟩] }]

theorem readsBack_of_resolve_albums :
    ∃ r, resolveDeclarations albums .strict "music" = .ok r ∧
      r.ReadsBack fun name ↦ if name = "" then none else some name := by
  have hok : (resolveDeclarations albums .strict "music").toBool = true := by decide +kernel
  obtain ⟨r, hr⟩ := exists_eq_ok_of_toBool hok
  exact ⟨r, hr, readsBack_of_resolve hr⟩

/-- The class of the covers is written as an empty option. -/
theorem not_readsBack_albums :
    ∃ r, resolveDeclarations albums .strict "music" = .ok r ∧ ¬ r.ReadsBack some := by
  have hlost : (do
      let r ← resolveDeclarations albums .strict "music"
      return r.classes.any fun c ↦ c.references.any fun d ↦
        (ReferenceOptions.parse "Album" d.elementTag).toOption.map
          ReferenceOptions.classRef == some none) =
      .ok true := by
    decide +kernel
  obtain ⟨r, hr, hpure⟩ := bind_eq_ok_iff.mp hlost
  obtain ⟨c, hc, hreferences⟩ := List.any_eq_true.mp (pure_eq_ok_iff.mp hpure)
  obtain ⟨d, hd, hparse⟩ := List.any_eq_true.mp hreferences
  refine ⟨r, hr, fun hreads ↦ ?_⟩
  rw [hreads.references c hc d hd "Album"] at hparse
  exact absurd (beq_iff_eq.mp hparse) (by
    simp [ReferenceDescriptor.toOptions, Except.toOption])

end ClassMap
