import ClassMap.Proofs.Members.Mapped
import ClassMap.Proofs.Members.Origin
import ClassMap.Proofs.Options.Reading
import ClassMap.Proofs.Patching

/-!
Tags as they are read. A key may be written several times, and a patch may change a value that
nobody reads; the settled form of a tag has, at every place of a key, the value that is read. Tags
with one settled form have the same keys in the same places and are read the same, and a patch
keeps that so. Members whose tags have the same settled forms stay that way while they are
inherited, replaced, inlined, patched and put in order, and whatever goes wrong on the way goes
wrong for both. A patch that says of a member what its tag says already leaves it settled as it was
(`applyInheritedPatch_of_restatedBy`).
-/

set_option autoImplicit false
set_option relaxedAutoImplicit false

namespace ClassMap

open Traversal

namespace Tag

variable {tag tag' target target' patch : Tag} {key : String} {entry : String × String}

/-- The tag with the value that is read for a key at every place of the key. -/
def settled (tag : Tag) : Tag where
  name := tag.name
  attributes := tag.keys.map fun key ↦ (key, (tag.get? key).getD "")

theorem get?_eq_none_iff : tag.get? key = none ↔ key ∉ tag.keys :=
  lastIn?_eq_none_iff

theorem mem_keys_of_get?_eq_some {value : String} (hvalue : tag.get? key = some value) :
    key ∈ tag.keys := by
  by_contra hkey
  exact absurd (hvalue.symm.trans (get?_eq_none_iff.mpr hkey)) (by simp)

theorem keys_settled (tag : Tag) : tag.settled.keys = tag.keys := by
  rw [settled, keys, List.map_map]
  exact List.map_id tag.keys

theorem lastIn?_map_pair (value : String → String) (keys : List String) :
    lastIn? key (keys.map fun key ↦ (key, value key)) =
      if key ∈ keys then some (value key) else none := by
  induction keys with
  | nil => rfl
  | cons first rest ih =>
    rw [List.map_cons, lastIn?_cons, ih]
    by_cases hrest : key ∈ rest
    · rw [if_pos hrest, if_pos (List.mem_cons_of_mem first hrest), Option.some_or]
    · by_cases hfirst : key = first
      · rw [if_neg hrest, if_pos (by simpa using hfirst.symm), hfirst,
          if_pos List.mem_cons_self, Option.none_or]
      · simp [hrest, hfirst, Ne.symm hfirst]

theorem get?_settled (tag : Tag) (key : String) : tag.settled.get? key = tag.get? key := by
  rw [get?_eq_lastIn?, settled, lastIn?_map_pair]
  cases hvalue : tag.get? key with
  | none => rw [if_neg (get?_eq_none_iff.mp hvalue)]
  | some value =>
    rw [if_pos (mem_keys_of_get?_eq_some hvalue), Option.getD_some]

/-- Tags have one settled form if they have the same keys in the same places and are read the
same. -/
theorem settled_eq_iff :
    tag'.settled = tag.settled ↔
      tag'.name = tag.name ∧ tag'.keys = tag.keys ∧ ∀ key, tag'.get? key = tag.get? key := by
  constructor
  · intro hsame
    have hname : tag'.settled.name = tag.settled.name := by rw [hsame]
    refine ⟨hname, ?_, fun key ↦ ?_⟩
    · rw [← keys_settled, hsame, keys_settled]
    · rw [← get?_settled, hsame, get?_settled]
  · rintro ⟨hname, hkeys, hget⟩
    simp only [settled, hname, hkeys, hget]

/-! ### Patches -/

theorem settled_set (hsame : target'.settled = target.settled) (key value : String) :
    (target'.set key value).settled = (target.set key value).settled := by
  obtain ⟨hname, hkeys, hget⟩ := settled_eq_iff.mp hsame
  refine settled_eq_iff.mpr ⟨hname, ?_, fun other ↦ ?_⟩
  · rw [keys_set, keys_set, hkeys]
  · by_cases hother : other = key
    · rw [hother, get?_set_self, get?_set_self, hkeys, hget]
    · rw [get?_set_of_ne hother, get?_set_of_ne hother, hget]

theorem settled_erase (hsame : target'.settled = target.settled) (key : String) :
    (target'.erase key).settled = (target.erase key).settled := by
  obtain ⟨hname, hkeys, hget⟩ := settled_eq_iff.mp hsame
  refine settled_eq_iff.mpr ⟨hname, ?_, fun other ↦ ?_⟩
  · rw [keys_erase, keys_erase, hkeys]
  · by_cases hother : other = key
    · rw [hother, get?_erase_self, get?_erase_self]
    · rw [get?_erase_of_ne hother, get?_erase_of_ne hother, hget]

theorem settled_applyEntry (hsame : target'.settled = target.settled) (entry : String × String) :
    (target'.applyEntry entry).settled = (target.applyEntry entry).settled := by
  rw [applyEntry, applyEntry]
  split
  · exact hsame
  · split
    · exact settled_erase hsame entry.1
    · exact settled_set hsame entry.1 entry.2

theorem settled_applyPatch (hsame : target'.settled = target.settled) (patch : Tag) :
    (target'.applyPatch patch).settled = (target.applyPatch patch).settled := by
  rw [applyPatch, applyPatch]
  induction patch.attributes generalizing target target' with
  | nil => exact hsame
  | cons entry rest ih => exact ih (settled_applyEntry hsame entry)

/-- What a tag has for a key is what an entry says: its value, or nothing if it is empty. -/
def Confirms (target : Tag) (entry : String × String) : Prop :=
  target.get? entry.1 = if (Text.trim entry.2).isEmpty then none else some entry.2

instance (target : Tag) (entry : String × String) : Decidable (target.Confirms entry) :=
  inferInstanceAs (Decidable (target.get? entry.1 =
    if (Text.trim entry.2).isEmpty then none else some entry.2))

/-- A patch that takes nothing away and says of every option what the tag says already. -/
structure Restates (patch target : Tag) : Prop where
  keeps : patch.has "ignore" = false
  confirmed : ∀ entry ∈ patch.attributes, entry.1 ≠ "name" → target.Confirms entry

theorem settled_applyEntry_of_confirms (hentry : entry.1 ∉ controlKeys → target.Confirms entry) :
    (target.applyEntry entry).settled = target.settled := by
  rw [applyEntry]
  split
  · rfl
  · rename_i hcontrol
    have hget := hentry (by simpa using hcontrol)
    rw [Confirms] at hget
    split
    · rename_i hempty
      rw [if_pos hempty, get?_eq_none_iff] at hget
      refine settled_eq_iff.mpr ⟨rfl, ?_, fun other ↦ ?_⟩
      · rw [keys_erase, List.filter_eq_self]
        exact fun other hother ↦ bne_iff_ne.mpr fun heq ↦ hget (heq ▸ hother)
      · by_cases hother : other = entry.1
        · rw [hother, get?_erase_self, get?_eq_none_iff.mpr hget]
        · rw [get?_erase_of_ne hother]
    · rename_i hgiven
      rw [if_neg hgiven] at hget
      refine settled_eq_iff.mpr ⟨rfl, ?_, fun other ↦ ?_⟩
      · rw [keys_set, if_pos (mem_keys_of_get?_eq_some hget)]
      · by_cases hother : other = entry.1
        · rw [hother, get?_set_self, hget, ite_self]
        · rw [get?_set_of_ne hother]

theorem settled_foldl_applyEntry_of_confirms {entries : List (String × String)}
    (hentries : ∀ entry ∈ entries, entry.1 ∉ controlKeys → target.Confirms entry) :
    (entries.foldl applyEntry target).settled = target.settled := by
  induction entries generalizing target with
  | nil => rfl
  | cons entry rest ih =>
    have hfirst := settled_applyEntry_of_confirms (hentries entry List.mem_cons_self)
    refine (ih fun other hother hcontrol ↦ ?_).trans hfirst
    rw [Confirms, (settled_eq_iff.mp hfirst).2.2]
    exact hentries other (List.mem_cons_of_mem entry hother) hcontrol

/-- A patch that restates what a tag says leaves it settled as it was. -/
theorem Restates.settled_applyPatch (hpatch : patch.Restates target) :
    (target.applyPatch patch).settled = target.settled := by
  refine settled_foldl_applyEntry_of_confirms fun entry hentry hcontrol ↦ ?_
  exact hpatch.confirmed entry hentry fun hname ↦ hcontrol (by simp [controlKeys, hname])

end Tag

/-! ### Members -/

def EffectiveField.settled (f : EffectiveField) : EffectiveField :=
  f.mapped Tag.settled id

def EffectiveAssociation.settled (a : EffectiveAssociation) : EffectiveAssociation :=
  a.mapped Tag.settled

/-- The members with the settled forms of their tags. -/
def EffectiveMembers.settled (m : EffectiveMembers) : EffectiveMembers :=
  m.mapped Tag.settled id

def OwnMembers.settled (own : OwnMembers) : OwnMembers :=
  own.mapped Tag.settled id

theorem EffectiveField.settled_eq_iff {f f' : EffectiveField} :
    f'.settled = f.settled ↔ f'.name = f.name ∧ f'.declaredIn = f.declaredIn ∧ f'.type = f.type ∧
      f'.tag.settled = f.tag.settled ∧ f'.defaultColumn = f.defaultColumn := by
  rw [settled, settled, mapped, mapped, mk.injEq, id, id]

theorem EffectiveAssociation.settled_eq_iff {a a' : EffectiveAssociation} :
    a'.settled = a.settled ↔ a'.name = a.name ∧ a'.isCollection = a.isCollection ∧
      a'.declaredIn = a.declaredIn ∧ a'.type = a.type ∧ a'.tag.settled = a.tag.settled := by
  rw [settled, settled, mapped, mapped, mk.injEq]

/-- Inlining a field depends on what its tag says of the column. -/
theorem EffectiveField.settled_inlined {f f' : EffectiveField} (hf : f'.settled = f.settled)
    (className owner : String) :
    (f'.inlined className owner).settled = (f.inlined className owner).settled := by
  obtain ⟨hname, -, htype, htag, hdefault⟩ := settled_eq_iff.mp hf
  have hbase : f'.baseColumn = f.baseColumn := by
    rw [baseColumn, baseColumn, (Tag.settled_eq_iff.mp htag).2.2, hdefault, hname]
  refine settled_eq_iff.mpr ⟨?_, rfl, htype, Tag.settled_erase htag "column", ?_⟩
  · rw [inlined, inlined, hname]
  · rw [inlined, inlined, hbase]

namespace EffectiveMembers

variable {m m' above above' : EffectiveMembers} {className name : String} {patch : Tag}

theorem settled_eq_iff :
    m'.settled = m.settled ↔
      m'.fields.map EffectiveField.settled = m.fields.map EffectiveField.settled ∧
        m'.associations.map EffectiveAssociation.settled =
          m.associations.map EffectiveAssociation.settled ∧
        m'.suppressed = m.suppressed := by
  rw [settled, settled, mapped, mapped, mk.injEq]
  rfl

theorem settled_inherit (hm : m'.settled = m.settled) (habove : above'.settled = above.settled) :
    (m'.inherit above').settled = (m.inherit above).settled := by
  unfold settled at hm habove ⊢
  rw [← inherit_mapped, ← inherit_mapped, hm, habove]

section Same

variable (hm : m'.settled = m.settled)
include hm

theorem hasField_eq_of_settled (name : String) : m'.hasField name = m.hasField name := by
  unfold settled at hm
  rw [← hasField_mapped Tag.settled id, hm, hasField_mapped]

theorem hasAssociation_eq_of_settled (name : String) :
    m'.hasAssociation name = m.hasAssociation name := by
  unfold settled at hm
  rw [← hasAssociation_mapped Tag.settled id, hm, hasAssociation_mapped]

theorem settled_suppressField (name : String) :
    (m'.suppressField name).settled = (m.suppressField name).settled := by
  unfold settled at hm ⊢
  rw [← suppressField_mapped, ← suppressField_mapped, hm]

theorem settled_suppressAssociation (name : String) :
    (m'.suppressAssociation name).settled = (m.suppressAssociation name).settled := by
  unfold settled at hm ⊢
  rw [← suppressAssociation_mapped, ← suppressAssociation_mapped, hm]

theorem settled_changeField (name : String) (patch : Tag) :
    (m'.changeField name (·.applyPatch patch)).settled =
      (m.changeField name (·.applyPatch patch)).settled := by
  obtain ⟨hfields, hassociations, hsuppressed⟩ := settled_eq_iff.mp hm
  refine settled_eq_iff.mpr ⟨?_, hassociations, hsuppressed⟩
  rw [changeField, changeField, List.map_map, List.map_map]
  refine map_eq_map_of_map_eq hfields fun f' f hf ↦ ?_
  obtain ⟨hname, hdeclared, htype, htag, hdefault⟩ := EffectiveField.settled_eq_iff.mp hf
  rw [Function.comp, Function.comp, hname]
  split
  · exact EffectiveField.settled_eq_iff.mpr
      ⟨rfl, hdeclared, htype, Tag.settled_applyPatch htag patch, hdefault⟩
  · exact hf

theorem settled_changeAssociation (name : String) (patch : Tag) :
    (m'.changeAssociation name (·.applyPatch patch)).settled =
      (m.changeAssociation name (·.applyPatch patch)).settled := by
  obtain ⟨hfields, hassociations, hsuppressed⟩ := settled_eq_iff.mp hm
  refine settled_eq_iff.mpr ⟨hfields, ?_, hsuppressed⟩
  rw [changeAssociation, changeAssociation, List.map_map, List.map_map]
  refine map_eq_map_of_map_eq hassociations fun a' a ha ↦ ?_
  obtain ⟨hname, hcollection, hdeclared, htype, htag⟩ := EffectiveAssociation.settled_eq_iff.mp ha
  rw [Function.comp, Function.comp, hname]
  split
  · exact EffectiveAssociation.settled_eq_iff.mpr
      ⟨rfl, hcollection, hdeclared, htype, Tag.settled_applyPatch htag patch⟩
  · exact ha

theorem map_settled_applyInheritedPatch (className : String) (patch : Tag) :
    settled <$> m'.applyInheritedPatch className patch =
      settled <$> m.applyInheritedPatch className patch := by
  simp only [applyInheritedPatch, map_bind, hasField_eq_of_settled hm,
    hasAssociation_eq_of_settled hm]
  refine congrArg _ (funext fun name ↦ congrArg _ (funext fun ignore ↦ ?_))
  cases ignore with
  | true =>
    split
    · exact congrArg Except.ok (settled_suppressField hm name)
    · split
      · exact congrArg Except.ok (settled_suppressAssociation hm name)
      · rfl
  | false =>
    split
    · exact congrArg Except.ok (settled_changeField hm name patch)
    · split
      · exact congrArg Except.ok (settled_changeAssociation hm name patch)
      · rfl

theorem map_settled_applyNestedPatch (className : String) (patch : Tag) :
    settled <$> m'.applyNestedPatch className patch =
      settled <$> m.applyNestedPatch className patch := by
  simp only [applyNestedPatch, map_bind, hasField_eq_of_settled hm]
  refine congrArg _ (funext fun name ↦ congrArg _ (funext fun ignore ↦ ?_))
  split
  · cases ignore with
    | true => exact congrArg Except.ok (settled_suppressField hm name)
    | false => exact congrArg Except.ok (settled_changeField hm name patch)
  · rfl

theorem map_settled_orderFields (className : String) :
    settled <$> m'.orderFields className = settled <$> m.orderFields className := by
  have hplace : ∀ className tag, (⟨className, Tag.settled tag⟩ : TagReader).signed? "id" =
      (⟨className, tag⟩ : TagReader).signed? "id" := by
    intro className tag
    have hsame : TagReader.Agree (fun _ ↦ True) ⟨className, tag⟩ ⟨className, tag.settled⟩ :=
      ⟨rfl, rfl, fun key _ ↦ tag.get?_settled key⟩
    exact hsame.signed?_eq "id" trivial
  unfold settled at hm ⊢
  rw [← orderFields_mapped _ _ _ hplace, ← orderFields_mapped _ _ _ hplace, hm]

theorem map_settled_foldlM_applyInheritedPatch (className : String) (patches : List Tag) :
    settled <$> patches.foldlM (applyInheritedPatch className) m' =
      settled <$> patches.foldlM (applyInheritedPatch className) m :=
  map_foldlM_congr_left
    (fun patch _ _ _ hsame ↦ map_settled_applyInheritedPatch hsame className patch) hm

theorem map_settled_complete (c : ClassDecl) {own own' : OwnMembers}
    (hown : own'.settled = own.settled) :
    settled <$> complete c m' own' = settled <$> complete c m own := by
  have hstart : (m'.override own').settled = (m.override own).settled := by
    unfold settled at hm ⊢
    unfold OwnMembers.settled at hown
    rw [← override_mapped, ← override_mapped, hm]
    exact congrArg (mapped Tag.settled id m).override hown
  refine map_bind_congr ?_ fun _ _ _ _ hsame ↦ map_settled_orderFields hsame c.name
  exact map_foldlM_congr_left
    (fun patch _ _ _ hsame ↦ map_settled_applyNestedPatch hsame c.name patch) hstart

end Same

/-! ### Patches that restate -/

/-- The options that a patch of a member changes; a field goes before an association of its name. -/
def tag? (m : EffectiveMembers) (name : String) : Option Tag :=
  ((m.field? name).map (·.tag)).or ((m.association? name).map (·.tag))

/-- A patch of a member that is there, which says of it what its options say already. -/
def RestatedBy (m : EffectiveMembers) (className : String) (patch : Tag) : Prop :=
  ∃ name target, (⟨className, patch⟩ : TagReader).text? "name" = some name ∧
    m.tag? name = some target ∧ patch.Restates target

theorem settled_changeField_of_restates
    (hpatch : ∀ f ∈ m.fields, f.name = name → patch.Restates f.tag) :
    (m.changeField name (·.applyPatch patch)).settled = m.settled := by
  refine settled_eq_iff.mpr ⟨?_, rfl, rfl⟩
  rw [changeField, List.map_map]
  refine List.map_congr_left fun f hf ↦ ?_
  rw [Function.comp]
  split
  · rename_i hname
    exact EffectiveField.settled_eq_iff.mpr
      ⟨rfl, rfl, rfl, (hpatch f hf (by simpa using hname)).settled_applyPatch, rfl⟩
  · rfl

theorem settled_changeAssociation_of_restates
    (hpatch : ∀ a ∈ m.associations, a.name = name → patch.Restates a.tag) :
    (m.changeAssociation name (·.applyPatch patch)).settled = m.settled := by
  refine settled_eq_iff.mpr ⟨rfl, ?_, rfl⟩
  rw [changeAssociation, List.map_map]
  refine List.map_congr_left fun a ha ↦ ?_
  rw [Function.comp]
  split
  · rename_i hname
    exact EffectiveAssociation.settled_eq_iff.mpr
      ⟨rfl, rfl, rfl, rfl, (hpatch a ha (by simpa using hname)).settled_applyPatch⟩
  · rfl

/-- A patch that restates is applied without an error, and it leaves the members settled as they
were. -/
theorem applyInheritedPatch_of_restatedBy (hdistinct : m.Distinct)
    (hpatch : m.RestatedBy className patch) :
    ∃ result, m.applyInheritedPatch className patch = .ok result ∧ result.settled = m.settled := by
  obtain ⟨name, target, hname, htarget, hrestates⟩ := hpatch
  have hignore : suppresses ⟨className, patch⟩ = .ok false := by
    have hnone : patch.get? "ignore" = none := by simpa [Tag.has] using hrestates.keeps
    rw [suppresses, hnone]
  simp only [applyInheritedPatch, required_eq_ok.mpr hname, hignore, bind, Except.bind]
  rcases Option.or_eq_some_iff.mp htarget with hfield | ⟨hnone, hassociation⟩
  · obtain ⟨f, hf, rfl⟩ := Option.map_eq_some_iff.mp hfield
    obtain ⟨hmem, hnamed⟩ := hdistinct.field?_eq_some_iff.mp hf
    have hhas : m.hasField name = true := List.any_eq_true.mpr ⟨f, hmem, beq_iff_eq.mpr hnamed⟩
    refine ⟨_, if_pos hhas, settled_changeField_of_restates fun other hother hsame ↦ ?_⟩
    obtain rfl := Option.some.inj ((hdistinct.field?_eq_some_iff.mpr ⟨hother, hsame⟩).symm.trans hf)
    exact hrestates
  · obtain ⟨a, ha, rfl⟩ := Option.map_eq_some_iff.mp hassociation
    have hhasNot : ¬ m.hasField name = true := by
      rw [hasField, List.any_eq_true]
      rintro ⟨f, hf, hsame⟩
      exact absurd hsame (List.find?_eq_none.mp (Option.map_eq_none_iff.mp hnone) f hf)
    obtain ⟨hmem, hnamed⟩ := hdistinct.association?_eq_some_iff.mp ha
    have hhas : m.hasAssociation name = true :=
      List.any_eq_true.mpr ⟨a, hmem, beq_iff_eq.mpr hnamed⟩
    refine ⟨_, (if_neg hhasNot).trans (if_pos hhas),
      settled_changeAssociation_of_restates fun other hother hsame ↦ ?_⟩
    obtain rfl :=
      Option.some.inj ((hdistinct.association?_eq_some_iff.mpr ⟨hother, hsame⟩).symm.trans ha)
    exact hrestates

end EffectiveMembers

namespace OwnMembers

variable {own own' : OwnMembers} {className : String}

section Same

variable (hown : own'.settled = own.settled)
include hown

theorem map_settled_addField {f f' : EffectiveField} (hf : f'.settled = f.settled) :
    settled <$> own'.addField className f' = settled <$> own.addField className f := by
  unfold settled at hown ⊢
  unfold EffectiveField.settled at hf
  rw [← addField_mapped, ← addField_mapped, hown, hf]

theorem map_settled_addAssociation (a : EffectiveAssociation) :
    settled <$> own'.addAssociation className a = settled <$> own.addAssociation className a := by
  unfold settled at hown ⊢
  rw [← addAssociation_mapped, ← addAssociation_mapped, hown]

theorem map_settled_addNested {inner inner' : EffectiveMembers}
    (hinner : inner'.settled = inner.settled) (name : String) :
    settled <$> own'.addNested className name inner' =
      settled <$> own.addNested className name inner := by
  have hfields := forall₂_of_map_eq (EffectiveMembers.settled_eq_iff.mp hinner).1
  have hinlined : List.Forall₂ (fun f' f ↦ EffectiveField.settled f' = EffectiveField.settled f)
      (inner'.fields.map (·.inlined className name))
      (inner.fields.map (·.inlined className name)) := by
    rw [List.forall₂_map_left_iff, List.forall₂_map_right_iff]
    exact hfields.imp fun _ _ hf ↦ EffectiveField.settled_inlined hf.2.2 className name
  exact map_foldlM_congr hinlined (fun _ _ _ _ hf hsame ↦ map_settled_addField hsame hf) hown

end Same

end OwnMembers

end ClassMap
