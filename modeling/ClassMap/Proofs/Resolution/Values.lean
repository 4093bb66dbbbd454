import ClassMap.Proofs.Members.Declaring
import ClassMap.Proofs.Resolution.Association
import ClassMap.Proofs.Resolution.Classes
import ClassMap.Proofs.Text.Entries

/-!
What the texts in descriptors are like. A text that comes from an option is trimmed and not empty,
and a key is an entry of a list. A column is never empty, for members have names and what is put
before the column of an inlined field is not empty.
-/

set_option autoImplicit false
set_option relaxedAutoImplicit false

namespace ClassMap

open Traversal

/-! ### Fields -/

namespace Hierarchy

variable {h : Hierarchy} {c : ClassDecl} {table : MemberTable}
  {of : ClassDecl → EffectiveMembers} {own : OwnMembers}

/-- A field that a class declares has a name, and its default column, if any, is not empty. -/
theorem named_own (hown : c.mappings.foldlM (h.addMapping of c) {} = .ok own) :
    own.Labelled (fun name _ column ↦ name ≠ "" ∧ column ≠ some "") (fun _ _ _ ↦ True) := by
  refine foldlM_keeps (OwnMembers.Labelled _ _) hown ?_ OwnMembers.labelled_empty
  intro mapping _ before after hadd hbefore
  obtain ⟨contribution, hcontribution, hadded⟩ := bind_eq_ok_iff.mp hadd
  cases contribution with
  | field f =>
    obtain ⟨-, hname, hcolumn⟩ := (contribution_eq_ok_labels hcontribution).1 f rfl
    exact hbefore.addField ⟨hname, by simp [hcolumn]⟩ hadded
  | association a => exact hbefore.addAssociation trivial hadded
  | nested name inner =>
    refine hbefore.addNested (fun f _ ↦ ⟨?_, ?_⟩) hadded
    · simp [EffectiveField.inlined, nestedSeparator]
    · simp [EffectiveField.inlined]

theorem named_of_mem_classes (hmembers : h.memberTable = .ok table) (hc : c ∈ h.classes) :
    (table.membersOf c).Labelled (fun name _ column ↦ name ≠ "" ∧ column ≠ some "")
      (fun _ _ _ ↦ True) := by
  obtain ⟨hgrounded, hhas⟩ := memberTable_eq_ok hmembers
  refine hgrounded.induct (motive := fun _ m ↦
    m.Labelled (fun name _ column ↦ name ≠ "" ∧ column ≠ some "") (fun _ _ _ ↦ True)) ?_ hc
      (hhas c hc)
  intro c m of hm hneeds
  exact (labelled_stepMembers hm (fun d hd ↦ hneeds d (Or.inl hd)) fun _ ↦ named_own).mono
    (fun _ _ _ hlabel ↦ hlabel.elim And.right And.right) (fun _ _ _ _ ↦ trivial)

end Hierarchy

namespace FieldDescriptor

/-- What the texts of a field are like. -/
structure HasValues (f : FieldDescriptor) : Prop where
  column : f.column ≠ ""
  sequenceName : Text.IsValue? f.sequenceName
  conversion : Text.IsValue? f.conversion
  defaultValue : Text.IsValue? f.defaultValue

variable {className : String} {e : EffectiveField} {f : FieldDescriptor}

theorem isValue?_ofType (type : String) : Text.IsValue? (TypeMapping.ofType type).conversion := by
  unfold TypeMapping.ofType
  dsimp only
  intro value hvalue
  split at hvalue
  · exact absurd hvalue (by simp)
  · split at hvalue
    · exact absurd hvalue (by simp)
    · split at hvalue
      · exact Option.some.inj hvalue ▸ by decide
      · exact Option.some.inj hvalue ▸ by decide

theorem hasValues_of_parse {tag : Tag} {options : FieldOptions}
    (hoptions : FieldOptions.parse className tag = .ok options) :
    Text.IsValue? options.column ∧ Text.IsValue? options.sequenceName ∧
      Text.IsValue? options.conversion ∧ Text.IsValue? options.defaultValue := by
  simp only [FieldOptions.parse, bind_eq_ok_iff, pure_eq_ok_iff] at hoptions
  obtain ⟨_, -, _, -, _, -, _, -, _, -, _, -, _, -, _, -, _, -, _, -, _, -, _, -, _, -, rfl⟩ :=
    hoptions
  have hread := TagReader.isValue?_text? ⟨className, tag⟩
  exact ⟨hread "column", hread "sequence-name", hread "conversion", hread "default-value"⟩

theorem isValue?_conversion_of_storage {options : FieldOptions} {storage : TypeMapping}
    (hstorage : e.storage className options = .ok storage)
    (hconversion : Text.IsValue? options.conversion) : Text.IsValue? storage.conversion := by
  unfold EffectiveField.storage at hstorage
  split at hstorage
  · obtain rfl := Except.ok.inj hstorage
    exact hconversion
  · obtain rfl := Except.ok.inj hstorage
    simp only [Option.orElse_eq_orElse, Option.orElse_eq_or]
    exact hconversion.or (isValue?_ofType _)
  · exact absurd hstorage (by simp)

theorem hasValues_of_build (hbuild : build className e = .ok f) (hname : e.name ≠ "")
    (hdefault : e.defaultColumn ≠ some "") : f.HasValues := by
  simp only [build, bind_eq_ok_iff, pure_eq_ok_iff] at hbuild
  obtain ⟨options, hoptions, storage, hstorage, rfl⟩ := hbuild
  obtain ⟨hcolumn, hsequence, hconversion, hvalue⟩ := hasValues_of_parse hoptions
  refine ⟨?_, hsequence, isValue?_conversion_of_storage hstorage hconversion, hvalue⟩
  simp only [ofOptions, Option.orElse_eq_orElse, Option.orElse_eq_or]
  cases hgiven : options.column with
  | some column => exact (hcolumn column hgiven).nonempty
  | none =>
    cases hinlined : e.defaultColumn with
    | some column => exact fun hempty ↦ hdefault (hinlined.trans (congrArg some hempty))
    | none => exact hname

end FieldDescriptor

namespace Scope

variable {h : Hierarchy} {checks : ChecksMode} {s : Scope} {p : PersistentClass} {c : ClassDecl}
  {a : EffectiveAssociation} {changes : List SchemaChange}

theorem Built.hasValues_of_mem (hs : Built h checks s) (hp : p ∈ s.classes) {f : FieldDescriptor}
    (hf : f ∈ s.fieldsOf p.decl) : f.HasValues := by
  obtain ⟨e, he, hbuild⟩ := exists_of_mem_mapM (hs.mapM_build_eq hp) hf
  obtain ⟨hname, hcolumn⟩ :=
    (Hierarchy.named_of_mem_classes hs.members (hs.mem_classes hp)).fields e he
  exact FieldDescriptor.hasValues_of_build hbuild hname hcolumn

end Scope

/-! ### Associations -/

namespace OrderBy

/-- What an entry of an ordering is like. -/
structure HasValues (o : OrderBy) : Prop where
  trimmed : Text.Trimmed o.field
  noComma : ',' ∉ o.field.toList
  noEquals : '=' ∉ o.field.toList

theorem hasValues_of_parse {entry : String} {o : OrderBy} (hentry : Text.IsEntry entry)
    (hparse : parse entry = .ok o) : o.HasValues := by
  unfold parse at hparse
  split at hparse
  · rename_i hcut
    obtain rfl := Except.ok.inj hparse
    exact ⟨hentry.trimmed, hentry.noComma, Text.cut?_eq_none_iff.mp hcut⟩
  · rename_i field direction hcut
    obtain ⟨hsplit, hequals⟩ := Text.cut?_eq_some_iff.mp hcut
    have hcomma : ',' ∉ field := fun hmem ↦ hentry.noComma (by
      rw [hsplit]
      exact List.mem_append_left _ hmem)
    have hfield : ∀ descending, HasValues ⟨Text.trim (String.ofList field), descending⟩ := by
      intro descending
      refine ⟨Text.trimmed_trim _, fun hmem ↦ hcomma ?_, fun hmem ↦ hequals ?_⟩
      · rw [Text.toList_trim, String.toList_ofList] at hmem
        exact Text.mem_of_mem_trimBoth hmem
      · rw [Text.toList_trim, String.toList_ofList] at hmem
        exact Text.mem_of_mem_trimBoth hmem
    dsimp only at hparse
    split at hparse
    · exact Except.ok.inj hparse ▸ hfield false
    · exact Except.ok.inj hparse ▸ hfield true
    · exact absurd hparse (by simp)

end OrderBy

/-- What the texts of a reference are like. -/
structure ReferenceDescriptor.HasValues (d : ReferenceDescriptor) : Prop where
  classRef : Text.Trimmed d.classRef
  foreignKeys : ∀ key ∈ d.foreignKeys, Text.IsEntry key
  nonempty : d.foreignKeys ≠ []

/-- What the texts of a collection are like. -/
structure CollectionDescriptor.HasValues (d : CollectionDescriptor) : Prop where
  elementClassRef : Text.Trimmed d.elementClassRef
  collectionClass : Text.IsValue? d.collectionClass
  foreignKeys : ∀ key ∈ d.foreignKeys, Text.IsEntry key
  nonempty : d.foreignKeys ≠ []
  remoteForeignKeys : ∀ key ∈ d.remoteForeignKeys, Text.IsEntry key
  noRemote : d.indirectionTable = none → d.remoteForeignKeys = []
  indirectionTable : Text.IsValue? d.indirectionTable
  orderBy : ∀ o ∈ d.orderBy, o.HasValues

theorem CollectionOptions.hasValues_of_mem_orderBy {className : String} {tag : Tag}
    {options : CollectionOptions} (hoptions : parse className tag = .ok options) {o : OrderBy}
    (ho : o ∈ options.orderBy) : o.HasValues := by
  obtain ⟨entry, hentry, hparse⟩ := exists_of_mem_mapM (parse_eq_ok hoptions).orderBy ho
  split at hparse
  · rename_i horder
    obtain rfl := Except.ok.inj hparse
    exact OrderBy.hasValues_of_parse (TagReader.isEntry_of_mem_entries hentry) horder
  · exact absurd hparse (by simp)

namespace Scope

variable {h : Hierarchy} {checks : ChecksMode} {s : Scope} {c element : ClassDecl}
  {a : EffectiveAssociation} {changes : List SchemaChange} {options : CollectionOptions}

theorem hasValues_of_resolveReference {d : ReferenceDescriptor}
    (hplan : s.resolveReference c a = .ok (d, changes)) : d.HasValues := by
  simp only [resolveReference, bind_eq_ok_iff, pure_eq_ok_iff, Prod.mk.injEq] at hplan
  obtain ⟨options, hoptions, name, hname, _, -, ⟨⟩, -, _, -, ⟨⟩, -, rfl, rfl⟩ := hplan
  obtain ⟨-, hentries, hnonempty⟩ := ReferenceOptions.parse_eq_ok hoptions
  refine ⟨trimmed_of_targetName hoptions hname, fun key hkey ↦ ?_, hnonempty⟩
  exact TagReader.isEntry_of_mem_entries (hentries ▸ hkey)

theorem parse_of_findSharing {className joinTable : String} {others : List EffectiveAssociation}
    {found : CollectionOptions}
    (hfound : findSharing className joinTable others = .ok (some found)) :
    ∃ other ∈ others, CollectionOptions.parse className other.tag = .ok found := by
  induction others with
  | nil => exact absurd hfound (by simp [findSharing])
  | cons other rest ih =>
    have hlater : findSharing className joinTable rest = .ok (some found) →
        ∃ o ∈ other :: rest, CollectionOptions.parse className o.tag = .ok found := fun hrest ↦ by
      obtain ⟨o, ho, hparse⟩ := ih hrest
      exact ⟨o, List.mem_cons_of_mem other ho, hparse⟩
    rw [findSharing] at hfound
    obtain ⟨options, hoptions, hnext⟩ := bind_eq_ok_iff.mp hfound
    split at hnext
    · split at hnext
      · obtain rfl := Option.some.inj (pure_eq_ok_iff.mp hnext)
        exact ⟨other, List.mem_cons_self, hoptions⟩
      · exact hlater hnext
    · exact hlater hnext

/-- The columns that lead to the elements are entries of one of the two sides. -/
theorem isEntry_of_joinKeys {joinTable : String} {remote : List String}
    (hoptions : CollectionOptions.parse c.name a.tag = .ok options)
    (hkeys : s.joinKeys c element a options joinTable = .ok (remote, changes)) :
    ∀ key ∈ remote, Text.IsEntry key := by
  simp only [joinKeys, bind_eq_ok_iff, pure_eq_ok_iff, Prod.mk.injEq] at hkeys
  obtain ⟨reciprocal, hreciprocal, _, hremote, ⟨⟩, -, ⟨⟩, -, ⟨⟩, -, ⟨⟩, -, rfl, rfl⟩ := hkeys
  intro key hkey
  unfold remoteKeys at hremote
  split at hremote
  · obtain rfl := Except.ok.inj hremote
    rw [(CollectionOptions.parse_eq_ok hoptions).remoteForeignKeys] at hkey
    exact TagReader.isEntry_of_mem_entries hkey
  · split at hremote
    · rename_i other
      obtain rfl := Except.ok.inj hremote
      obtain ⟨_, -, hparse⟩ := parse_of_findSharing hreciprocal
      rw [(CollectionOptions.parse_eq_ok hparse).foreignKeys] at hkey
      exact TagReader.isEntry_of_mem_entries hkey
    · exact absurd hremote (by simp)

theorem isValue?_collectionClass_of_parse {className : String} {tag : Tag}
    (hoptions : CollectionOptions.parse className tag = .ok options) :
    Text.IsValue? options.collectionClass := by
  simp only [CollectionOptions.parse, bind_eq_ok_iff, pure_eq_ok_iff] at hoptions
  obtain ⟨_, -, _, -, _, -, _, -, _, -, _, -, _, -, _, -, _, -, _, -, _, -, rfl⟩ := hoptions
  exact TagReader.isValue?_text? ⟨className, tag⟩ "collection-class"

theorem hasValues_of_collectionPlan {d : CollectionDescriptor}
    (hplan : s.collectionPlan c a = .ok (d, changes)) : d.HasValues := by
  simp only [collectionPlan, bind_eq_ok_iff, pure_eq_ok_iff, Prod.exists, Prod.mk.injEq] at hplan
  obtain ⟨options, hoptions, element, -, remote, _, hkeys, ⟨⟩, -, name, hname, rfl, rfl⟩ := hplan
  have hread := CollectionOptions.parse_eq_ok hoptions
  have htable : Text.IsValue? options.indirectionTable := by
    rw [hread.indirectionTable]
    exact TagReader.isValue?_text? _ _
  have hremote : (∀ key ∈ remote, Text.IsEntry key) ∧
      (options.indirectionTable = none → remote = []) := by
    unfold collectionKeys at hkeys
    split at hkeys
    · obtain ⟨_, -, hpure⟩ := bind_eq_ok_iff.mp hkeys
      obtain ⟨rfl, -⟩ := Prod.mk.inj (pure_eq_ok_iff.mp hpure)
      exact ⟨fun _ hkey ↦ absurd hkey List.not_mem_nil, fun _ ↦ rfl⟩
    · rename_i joinTable hjoin
      exact ⟨isEntry_of_joinKeys hoptions hkeys,
        fun hnone ↦ absurd (hjoin.symm.trans hnone) (by simp)⟩
  constructor
  case elementClassRef => exact trimmed_of_elementName hoptions hname
  case collectionClass => exact isValue?_collectionClass_of_parse hoptions
  case foreignKeys =>
    intro key hkey
    have hentry : key ∈ options.foreignKeys := hkey
    rw [hread.foreignKeys] at hentry
    exact TagReader.isEntry_of_mem_entries hentry
  case nonempty => exact hread.nonempty
  case remoteForeignKeys => exact hremote.1
  case noRemote => exact hremote.2
  case indirectionTable => exact htable
  case orderBy => exact fun o ↦ CollectionOptions.hasValues_of_mem_orderBy hoptions

end Scope

end ClassMap
