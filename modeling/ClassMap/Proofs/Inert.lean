import ClassMap.Proofs.Recognized.Resolution

/-!
Tags and attributes that mean nothing. Declarations are padded by tags that a class or a member may
not carry and by attributes that no tag has a use for, anywhere between those that are there and in
any number. Padding is left out again when a declaration is brought down to what means something, so
padded declarations have the same mapping, or the same error.
-/

set_option autoImplicit false
set_option relaxedAutoImplicit false

namespace ClassMap

/-- Entries of one list stand in their order in another one, each related to itself there, with
strays between them. -/
inductive Interleaved {α : Type} (R : α → α → Prop) (stray : α → Prop) : List α → List α → Prop
  | nil : Interleaved R stray [] []
  | keep {x y : α} {xs ys : List α} (hxy : R x y) (hrest : Interleaved R stray xs ys) :
      Interleaved R stray (x :: xs) (y :: ys)
  | insert {y : α} {xs ys : List α} (hy : stray y) (hrest : Interleaved R stray xs ys) :
      Interleaved R stray xs (y :: ys)

/-- Lists that differ in strays are the same without them, as far as a view tells. -/
theorem Interleaved.map_filter_eq {α β : Type} {R : α → α → Prop} {stray : α → Prop}
    {kept : α → Bool} {view : α → β} {xs ys : List α} (h : Interleaved R stray xs ys)
    (hkept : ∀ x y, R x y → kept x = kept y ∧ view x = view y)
    (hstray : ∀ y, stray y → kept y = false) :
    (xs.filter kept).map view = (ys.filter kept).map view := by
  induction h with
  | nil => rfl
  | @keep x y _ _ hxy _ ih =>
    obtain ⟨hsame, hview⟩ := hkept x y hxy
    rw [List.filter_cons, List.filter_cons, hsame]
    split
    · rw [List.map_cons, List.map_cons, hview, ih]
    · exact ih
  | @insert y _ _ hy _ ih =>
    rw [List.filter_cons_of_neg (by simp [hstray y hy])]
    exact ih

/-- A tag with attributes put in that no tag has a use for. -/
structure Tag.Padded (tag padded : Tag) : Prop where
  name : padded.name = tag.name
  attributes : Interleaved Eq (fun entry ↦ entry.1 ∉ recognizedKeys) tag.attributes
    padded.attributes

/-- A member with padded tags and tags put in that a member may not carry. -/
structure Member.Padded (member padded : Member) : Prop where
  name : padded.name = member.name
  type : padded.type = member.type
  tags : Interleaved Tag.Padded (fun tag ↦ tag.name ∉ TagName.onMembers) member.tags padded.tags

/-- A class with padded tags and members and with tags put in that a class may not carry. -/
structure ClassDecl.Padded (c padded : ClassDecl) : Prop where
  name : padded.name = c.name
  kind : padded.kind = c.kind
  superclass : padded.superclass = c.superclass
  interfaces : padded.interfaces = c.interfaces
  tags : Interleaved Tag.Padded (fun tag ↦ tag.name ∉ TagName.onClasses) c.tags padded.tags
  members : List.Forall₂ Member.Padded c.members padded.members

theorem Tag.Padded.recognized_eq {tag padded : Tag} (h : tag.Padded padded) :
    tag.recognized = padded.recognized := by
  have hattributes :
      (tag.attributes.filter fun entry ↦ recognizedKeys.contains entry.1).map id =
        (padded.attributes.filter fun entry ↦ recognizedKeys.contains entry.1).map id :=
    h.attributes.map_filter_eq (fun _ _ heq ↦ ⟨heq ▸ rfl, heq⟩) fun _ hstray ↦ by
      simpa using hstray
  rw [List.map_id, List.map_id] at hattributes
  rw [recognized, recognized, h.name, hattributes]

/-- Padded tags count as the tags they are, among any names. -/
theorem Tag.recognized_eq_of_interleaved {names : List String} {tags padded : List Tag}
    (h : Interleaved Tag.Padded (fun tag ↦ tag.name ∉ names) tags padded) :
    (tags.filter fun tag ↦ names.contains tag.name).map recognized =
      (padded.filter fun tag ↦ names.contains tag.name).map recognized :=
  h.map_filter_eq (fun _ _ htag ↦ ⟨by rw [htag.name], htag.recognized_eq⟩)
    fun _ hstray ↦ by simpa using hstray

theorem Member.Padded.recognized_eq {member padded : Member} (h : member.Padded padded) :
    member.recognized = padded.recognized := by
  rw [recognized, recognized, Tag.recognized_eq_of_interleaved h.tags, h.name, h.type]

theorem ClassDecl.Padded.recognized_eq {c padded : ClassDecl} (h : c.Padded padded) :
    c.recognized = padded.recognized := by
  have hmembers : c.members.map Member.recognized = padded.members.map Member.recognized :=
    Traversal.map_eq_map_of_forall₂ h.members fun _ _ hmember ↦ hmember.recognized_eq
  rw [recognized, recognized, Tag.recognized_eq_of_interleaved h.tags, hmembers, h.name, h.kind,
    h.superclass, h.interfaces]

/-- Padding is inert: padded declarations are resolved to the same mapping, or fail with the same
error. -/
theorem padding_inert {decls padded : List ClassDecl}
    (hpadded : List.Forall₂ ClassDecl.Padded decls padded) (checks : ChecksMode)
    (databaseName : String) :
    resolveDeclarations padded checks databaseName =
      resolveDeclarations decls checks databaseName := by
  have hsame : decls.map ClassDecl.recognized = padded.map ClassDecl.recognized :=
    Traversal.map_eq_map_of_forall₂ hpadded fun _ _ hc ↦ hc.recognized_eq
  rw [← resolveDeclarations_recognized decls, hsame, resolveDeclarations_recognized]

/-- Invoices change the column of the number that they inherit from documents. -/
def archive : List ClassDecl :=
  [{ name := "Document"
     tags := [⟨"ojb.class", [("generate-table-info", "false")]⟩]
     members := [⟨"number", "int", [⟨"ojb.field", [("primarykey", "true")]⟩]⟩] },
   { name := "Invoice"
     superclass := some "Document"
     tags := [⟨"ojb.class", [("table", "INVOICE")]⟩,
       ⟨"ojb.modify-inherited", [("name", "number"), ("column", "INVOICE_NO")]⟩] }]

/-- The same with a note on the class, on the member and in the patch, and with tags of members on a
class and of classes on a member. -/
def annotatedArchive : List ClassDecl :=
  [{ name := "Document"
     tags := [⟨"author", [("name", "number")]⟩,
       ⟨"ojb.class", [("note", ""), ("generate-table-info", "false")]⟩]
     members := [⟨"number", "int",
       [⟨"ojb.field", [("primarykey", "true"), ("note", "unique")]⟩,
        ⟨"ojb.modify-nested", [("name", "number")]⟩]⟩] },
   { name := "Invoice"
     superclass := some "Document"
     tags := [⟨"ojb.class", [("table", "INVOICE")]⟩,
       ⟨"ojb.collection", []⟩,
       ⟨"ojb.modify-inherited", [("name", "number"), ("note", "no gaps"),
         ("column", "INVOICE_NO")]⟩] }]

theorem padding_inert_archive :
    List.Forall₂ ClassDecl.Padded archive annotatedArchive ∧
      (resolveDeclarations archive .strict "archive").toBool = true ∧
      resolveDeclarations annotatedArchive .strict "archive" =
        resolveDeclarations archive .strict "archive" := by
  have hnumber : Member.Padded ⟨"number", "int", [⟨"ojb.field", [("primarykey", "true")]⟩]⟩
      ⟨"number", "int", [⟨"ojb.field", [("primarykey", "true"), ("note", "unique")]⟩,
        ⟨"ojb.modify-nested", [("name", "number")]⟩]⟩ :=
    ⟨rfl, rfl, .keep ⟨rfl, .keep rfl (.insert (by decide) .nil)⟩ (.insert (by decide) .nil)⟩
  have hpadded : List.Forall₂ ClassDecl.Padded archive annotatedArchive := by
    refine .cons ⟨rfl, rfl, rfl, rfl, ?_, .cons hnumber .nil⟩
      (.cons ⟨rfl, rfl, rfl, rfl, ?_, .nil⟩ .nil)
    · exact .insert (by decide) (.keep ⟨rfl, .insert (by decide) (.keep rfl .nil)⟩ .nil)
    · refine .keep ⟨rfl, .keep rfl .nil⟩ (.insert (by decide) (.keep ⟨rfl, ?_⟩ .nil))
      exact .keep rfl (.insert (by decide) (.keep rfl .nil))
  exact ⟨hpadded, by decide +kernel, padding_inert hpadded .strict "archive"⟩

end ClassMap
