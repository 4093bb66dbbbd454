import ClassMap.Proofs.Resolution.Classes
import ClassMap.Proofs.Resolution.Procedure

/-!
No name in a resolved repository leads nowhere. The classes have different names; extents,
references and collections name classes of the repository, and keys, orderings and procedures name
fields of the class they are looked up in, each letter for letter.
-/

set_option autoImplicit false
set_option relaxedAutoImplicit false

namespace ClassMap

open Traversal

def ClassDescriptor.HasField (c : ClassDescriptor) (name : String) : Prop :=
  ∃ f ∈ c.fields, f.name = name

def Repository.HasClass (r : Repository) (name : String) : Prop :=
  ∃ c ∈ r.classes, c.name = name

/-- Every name that a class mentions is the name of something. -/
structure ClassDescriptor.Closed (c : ClassDescriptor) (decls : List ClassDecl)
    (r : Repository) : Prop where
  extents : ∀ name ∈ c.extents, r.HasClass name ∧ StrictlyBelow decls name c.name
  references : ∀ d ∈ c.references, r.HasClass d.classRef ∧ ∀ key ∈ d.foreignKeys, c.HasField key
  /-- Without a join table the keys are fields of the element class. -/
  collections : ∀ d ∈ c.collections, ∃ element ∈ r.classes, element.name = d.elementClassRef ∧
    (d.indirectionTable = none → ∀ key ∈ d.foreignKeys, element.HasField key) ∧
    ∀ order ∈ d.orderBy, element.HasField order.field
  procedures : ∀ d ∈ c.procedures, (∀ name, d.returnFieldRef = some name → c.HasField name) ∧
    ∀ name isReturn, .runtime (some name) isReturn ∈ d.arguments → c.HasField name

namespace Scope

variable {s : Scope} {p : PersistentClass} {c element : ClassDecl} {d : ClassDescriptor}
  {a : EffectiveAssociation} {changes : List SchemaChange} {keys : List String}
  {use : String → FieldUse}

/-- Names that are looked up one after the other are names of fields. -/
theorem exists_of_mapM_field {found : List FieldDescriptor}
    (htrimmed : ∀ key ∈ keys, Text.Trimmed key)
    (hkeys : (keys.mapM fun key ↦ s.field c key (use key)) = .ok found) :
    ∀ key ∈ keys, ∃ f ∈ s.fieldsOf c, f.name = key := by
  intro key hkey
  obtain ⟨f, -, hf⟩ := exists_mapM_of_mem hkeys hkey
  obtain ⟨hmem, hname⟩ := field_eq_ok (htrimmed key hkey) hf
  exact ⟨f, hmem, hname⟩

theorem trimmed_of_parseOrderBy {r : TagReader} {orderBy : List OrderBy}
    (horder : CollectionOptions.parseOrderBy r = .ok orderBy) :
    ∀ order ∈ orderBy, Text.Trimmed order.field := by
  intro order hmem
  obtain ⟨entry, hentry, hparse⟩ := exists_of_mem_mapM horder hmem
  split at hparse
  · rename_i found hfound
    obtain rfl := Except.ok.inj hparse
    exact OrderBy.trimmed_of_parse (TagReader.trimmed_of_mem_entries hentry) hfound
  · exact absurd hparse (by simp)

/-- The fields that the elements of a collection are looked up by. -/
theorem fields_of_collectionPlan {collection : CollectionDescriptor}
    (hplan : s.collectionPlan c a = .ok (collection, changes)) :
    ∃ element, s.hierarchy.declared? collection.elementClassRef = some element ∧
      s.isPersistent element = true ∧
      (collection.indirectionTable = none →
        ∀ key ∈ collection.foreignKeys, ∃ f ∈ s.fieldsOf element, f.name = key) ∧
      ∀ order ∈ collection.orderBy, ∃ f ∈ s.fieldsOf element, f.name = order.field := by
  obtain ⟨options, element, hresolved⟩ := collectionPlan_eq_ok hplan
  refine ⟨element, hresolved.declared, hresolved.persistent, fun hdirect ↦ ?_,
    fun order horder ↦ ?_⟩
  · have hkeys := hresolved.keys
    rw [hresolved.indirectionTable_eq] at hdirect
    rw [collectionKeys, hdirect] at hkeys
    simp only [bind_eq_ok_iff, pure_eq_ok_iff, Prod.mk.injEq] at hkeys
    obtain ⟨_, hinverse, -⟩ := hkeys
    obtain ⟨found, hfound, -⟩ := inverseKeys_eq_ok hinverse
    rw [← hresolved.foreignKeys_eq] at hfound
    exact exists_of_mapM_field hresolved.trimmed hfound
  · rw [hresolved.orderBy_eq] at horder
    have hparsed := (CollectionOptions.parse_eq_ok hresolved.parsed).orderBy
    have hfield := forM_eq_ok_iff.mp hresolved.ordered order horder
    exact exists_of_discard_field (trimmed_of_parseOrderBy hparsed order horder) hfield

end Scope

namespace Repository

variable {r : Repository} {decls : List ClassDecl} {checks : ChecksMode} {h : Hierarchy}
  {s : Scope} {changes : List SchemaChange}

theorem ResolvedIn.closed (hr : r.ResolvedIn decls checks h s changes) {d : ClassDescriptor}
    (hd : d ∈ r.classes) : d.Closed decls r := by
  obtain ⟨p, hdescribes⟩ := Scope.exists_describes_of_mem hr.planned hd
  have hfield : ∀ name, (∃ f ∈ s.fieldsOf p.decl, f.name = name) → d.HasField name := by
    intro name hname
    rwa [ClassDescriptor.HasField, hdescribes.fields]
  constructor
  case extents =>
    intro name hname
    rw [hdescribes.extents] at hname
    obtain ⟨e, he, rfl⟩ := List.mem_map.mp hname
    obtain ⟨⟨q, hq, rfl⟩, hbelow⟩ := hr.built.mem_extents hdescribes.mem he
    obtain ⟨found, hfound, hq⟩ := Scope.exists_mem_describes hr.planned hq
    rw [hr.decls_eq] at hbelow
    exact ⟨⟨found, hfound, hq.name⟩, hdescribes.name ▸ hbelow⟩
  case references =>
    intro reference hreference
    obtain ⟨a, -, _, -, hplan⟩ := hdescribes.exists_of_mem_references hreference
    obtain ⟨target, keys, hresolved⟩ := Scope.resolveReference_eq_ok hplan
    obtain ⟨_, found, hfound, -, -, hname⟩ :=
      hr.exists_describes hresolved.declared hresolved.persistent
    have hkeys := Scope.exists_of_mapM_field hresolved.trimmed hresolved.keys_eq
    exact ⟨⟨found, hfound, hname⟩, fun key hkey ↦ hfield key (hkeys key hkey)⟩
  case collections =>
    intro collection hcollection
    obtain ⟨a, -, _, -, hplan⟩ := hdescribes.exists_of_mem_collections hcollection
    obtain ⟨element, hdeclared, hpersistent, hkeys, horder⟩ := Scope.fields_of_collectionPlan hplan
    obtain ⟨_, found, hfound, hq, rfl, hname⟩ := hr.exists_describes hdeclared hpersistent
    refine ⟨found, hfound, hname, fun hdirect key hkey ↦ ?_, fun order hmem ↦ ?_⟩
    · rw [ClassDescriptor.HasField, hq.fields]
      exact hkeys hdirect key hkey
    · rw [ClassDescriptor.HasField, hq.fields]
      exact horder order hmem
  case procedures =>
    intro procedure hprocedure
    obtain ⟨hreturned, hbound⟩ :=
      Scope.procedures_eq_ok hdescribes.procedures procedure hprocedure
    refine ⟨fun name hname ↦ hfield name (hreturned name hname), fun name isReturn hmem ↦ ?_⟩
    exact hfield name (hbound _ hmem name isReturn rfl)

end Repository

/-- Resolution leaves no name dangling: the class names are pairwise different, and each class is
closed under the names it mentions. -/
theorem names_resolved {decls : List ClassDecl} {checks : ChecksMode} {databaseName : String}
    {r : Repository} (hr : resolveDeclarations decls checks databaseName = .ok r) :
    (r.classes.map (·.name)).Nodup ∧ ∀ c ∈ r.classes, c.Closed decls r := by
  obtain ⟨h, s, changes, hresolved⟩ := exists_resolvedIn hr
  constructor
  · rw [Scope.map_name_of_plan hresolved.planned]
    exact hresolved.built.nodup_names
  · exact fun c hc ↦ hresolved.closed hc

/-- A book has its author, an author has books; novels are books. -/
def library : List ClassDecl :=
  [{ name := "Author"
     tags := [⟨"ojb.class", []⟩,
       ⟨"ojb.insert-procedure",
         [("name", "ADD"), ("arguments", "key"), ("return-field-ref", " id")]⟩,
       ⟨"ojb.runtime-argument", [("name", "key"), ("field-ref", "id ")]⟩]
     members := [⟨"id", "int", [⟨"ojb.field", [("primarykey", "true")]⟩]⟩,
       ⟨"books", "Book[]",
         [⟨"ojb.collection", [("foreignkey", " authorId"), ("orderby", "id=DESC")]⟩]⟩] },
   { name := "Book"
     tags := [⟨"ojb.class", []⟩]
     members := [⟨"id", "int", [⟨"ojb.field", [("primarykey", "true")]⟩]⟩,
       ⟨"authorId", "int", [⟨"ojb.field", []⟩]⟩,
       ⟨"author", " Author ", [⟨"ojb.reference", [("foreignkey", "authorId")]⟩]⟩] },
   { name := "Novel", superclass := some "Book" }]

theorem names_resolved_library :
    ∃ r, resolveDeclarations library .strict "shelf" = .ok r ∧
      (r.classes.map (·.name)).Nodup ∧ ∀ c ∈ r.classes, c.Closed library r := by
  have hok : (resolveDeclarations library .strict "shelf").toBool = true := by decide +kernel
  obtain ⟨r, hr⟩ := exists_eq_ok_of_toBool hok
  exact ⟨r, hr, names_resolved hr⟩

end ClassMap
