import Mathlib.Data.List.Nodup
import ClassMap.Document.Descriptor
import ClassMap.Proofs.Text.Decimal
import ClassMap.Proofs.Text.Entries

/-!
Attributes as options. An attribute that is left out is an option that is not given, so what is
written of a value and what is read for its key belong together: a value is written if it differs
from its default, and the default is read if nothing is written.
-/

set_option autoImplicit false
set_option relaxedAutoImplicit false

namespace ClassMap

namespace Attributes

variable {α : Type} [DecidableEq α]

/-- A value that is left out if it is the default. -/
def sparse (value default : α) : Option α :=
  if value = default then none else some value

@[simp] theorem getD_sparse (value default : α) : (sparse value default).getD default = value := by
  unfold sparse
  split
  · rename_i heq
    rw [heq, Option.getD_none]
  · rw [Option.getD_some]

def flagText (value : Bool) : String :=
  if value then "true" else "false"

/-- The attributes of some keys, those without a value left out. -/
def ofSlots (slots : List (String × Option String)) : List (String × String) :=
  slots.flatMap fun (key, value) ↦ text? key value

theorem ofSlots_append (slots others : List (String × Option String)) :
    ofSlots slots ++ ofSlots others = ofSlots (slots ++ others) :=
  List.flatMap_append.symm

/-- Keys that nothing is written for. -/
def absent (keys : List String) : List (String × Option String) :=
  keys.map (·, none)

theorem ofSlots_append_absent (slots : List (String × Option String)) (keys : List String) :
    ofSlots (slots ++ absent keys) = ofSlots slots := by
  have hnone : ofSlots (absent keys) = [] := by
    rw [ofSlots, absent, List.flatMap_map]
    exact List.flatMap_eq_nil_iff.mpr fun _ _ ↦ rfl
  rw [← ofSlots_append, hnone, List.append_nil]

theorem text?_eq_ofSlots (key : String) (value : Option String) :
    text? key value = ofSlots [(key, value)] := by
  simp [ofSlots]

theorem text_eq_ofSlots (key value : String) : text key value = ofSlots [(key, some value)] := rfl

theorem flag_eq_ofSlots (key : String) (value default : Bool) :
    flag key value default = ofSlots [(key, (sparse value default).map flagText)] := by
  unfold flag sparse
  split <;> rfl

theorem unsigned?_eq_ofSlots (key : String) (value : Option UInt32) :
    unsigned? key value = ofSlots [(key, value.map (·.toNat.repr))] := by
  cases value <;> rfl

theorem signed?_eq_ofSlots (key : String) (value : Option Int32) :
    signed? key value = ofSlots [(key, value.map (·.toInt.repr))] := by
  cases value <;> rfl

/-- A choice is written if it differs from its default. -/
theorem sparse_eq_ofSlots (key : String) (value default : α) (write : α → String) :
    (if value = default then [] else text key (write value)) =
      ofSlots [(key, (sparse value default).map write)] := by
  unfold sparse
  split <;> rfl

theorem cascade_eq_ofSlots (mode : CascadeMode) (key : String) :
    mode.attribute key = ofSlots [(key, (sparse mode .none).map CascadeMode.text)] := by
  cases mode <;> rfl

theorem mem_ofSlots_iff {slots : List (String × Option String)} {key value : String} :
    (key, value) ∈ ofSlots slots ↔ (key, some value) ∈ slots := by
  simp only [ofSlots, List.mem_flatMap]
  constructor
  · rintro ⟨⟨key', value'⟩, hslot, hmem⟩
    cases value' with
    | none => exact absurd hmem List.not_mem_nil
    | some v =>
      obtain ⟨rfl, rfl⟩ := Prod.mk.inj (List.mem_singleton.mp hmem)
      exact hslot
  · exact fun hslot ↦ ⟨_, hslot, List.mem_singleton_self _⟩

end Attributes

open Attributes

/-- With keys that are there once, a key has the value that is written for it. -/
theorem Tag.get?_ofSlots {name key : String} {slots : List (String × Option String)}
    {value : Option String} (hnodup : (slots.map (·.1)).Nodup) (hmem : (key, value) ∈ slots) :
    (Tag.mk name (ofSlots slots)).get? key = value := by
  have hsame : ∀ other, (key, other) ∈ slots → other = value := fun other hother ↦
    congrArg Prod.snd (List.inj_on_of_nodup_map hnodup hother hmem rfl)
  rw [get?]
  cases hfound : (ofSlots slots).reverse.find? fun entry ↦ entry.1 == key with
  | none =>
    cases value with
    | none => rfl
    | some v =>
      have hnone := List.find?_eq_none.mp hfound (key, v)
        (List.mem_reverse.mpr (mem_ofSlots_iff.mpr hmem))
      exact absurd (beq_self_eq_true key) hnone
  | some entry =>
    have hkey : entry.1 = key := by simpa using List.find?_some hfound
    have hentry := List.mem_reverse.mp (List.mem_of_find?_eq_some hfound)
    exact hsame (some entry.2) (hkey ▸ mem_ofSlots_iff.mp hentry)

namespace TagReader

variable {r : TagReader} {key : String}

theorem text?_of_get? {value : Option String} (hget : r.tag.get? key = value)
    (hvalue : Text.IsValue? value) : r.text? key = value := by
  rw [text?, hget]
  cases value with
  | none => rfl
  | some v => rw [Option.bind_some, (hvalue v rfl).trimmed?_eq]

/-- A value that is written as a text which is read as the value. -/
theorem parsed?_of_get? {α : Type} {parse : String → Except OptionFault α} {value : Option α}
    {write : α → String} (hget : r.tag.get? key = value.map write)
    (hback : ∀ a, value = some a → Text.IsValue (write a) ∧ parse (write a) = .ok a) :
    r.parsed? key parse = .ok value := by
  unfold parsed?
  cases value with
  | none => rw [text?_of_get? hget (fun v hv ↦ absurd hv (by simp))]; rfl
  | some a =>
    obtain ⟨hvalue, hparse⟩ := hback a rfl
    rw [text?_of_get? hget (fun v hv ↦ Option.some.inj hv ▸ hvalue)]
    simp only [Option.map_some, hparse]

theorem flag_of_get? {value default : Bool}
    (hget : r.tag.get? key = (sparse value default).map flagText) :
    r.flag key default = .ok value := by
  have hread : r.parsed? key parseFlag = .ok (sparse value default) := by
    refine parsed?_of_get? hget fun b _ ↦ ?_
    cases b
    · exact ⟨by decide, by decide⟩
    · exact ⟨by decide, by decide⟩
  rw [flag, hread]
  exact congrArg Except.ok (getD_sparse value default)

theorem flag_of_none {default : Bool} (hget : r.tag.get? key = none) :
    r.flag key default = .ok default := by
  refine flag_of_get? (hget.trans ?_)
  rw [sparse, if_pos rfl, Option.map_none]

theorem unsigned?_of_get? {value : Option UInt32}
    (hget : r.tag.get? key = value.map (·.toNat.repr)) : r.unsigned? key = .ok value := by
  refine parsed?_of_get? hget fun n _ ↦ ⟨Text.isValue_repr n, ?_⟩
  rw [parseUnsigned, Text.unsigned?_repr]

theorem signed?_of_get? {value : Option Int32}
    (hget : r.tag.get? key = value.map (·.toInt.repr)) : r.signed? key = .ok value := by
  refine parsed?_of_get? hget fun n _ ↦ ⟨Text.isValue_repr_toInt n, ?_⟩
  rw [parseSigned, Text.signed?_repr]

theorem jdbcType_of_get? {t : JdbcType} (hget : r.tag.get? key = some t.name) :
    r.parsed? key parseJdbcType = .ok (some t) := by
  have hback : ∀ t : JdbcType, Text.IsValue t.name ∧ parseJdbcType t.name = .ok t := by
    intro t
    cases t <;> exact ⟨by decide, by decide⟩
  have hwritten : r.tag.get? key = (some t).map JdbcType.name := hget
  exact parsed?_of_get? hwritten fun t _ ↦ hback t

theorem access_of_get? {mode : AccessMode}
    (hget : r.tag.get? key = (sparse mode .readWrite).map AccessMode.text) :
    r.parsed? key AccessMode.parse = .ok (sparse mode .readWrite) := by
  refine parsed?_of_get? hget fun m _ ↦ ?_
  cases m
  · exact ⟨by decide, by decide⟩
  · exact ⟨by decide, by decide⟩
  · exact ⟨by decide, by decide⟩

/-- Any way of making up keys is written as the word for one of them. -/
theorem autoincrement_of_get? {mode : AutoIncrement}
    (hget : r.tag.get? key = (sparse mode .none).map fun _ ↦ "true") :
    r.parsed? key AutoIncrement.parse = .ok ((sparse mode .none).map fun _ ↦ .ojb) := by
  have hwritten : r.tag.get? key =
      ((sparse mode .none).map fun _ ↦ AutoIncrement.ojb).map fun _ ↦ "true" := by
    rw [hget, Option.map_map]
    rfl
  refine parsed?_of_get? hwritten fun m hm ↦ ?_
  obtain ⟨_, -, rfl⟩ := Option.map_eq_some_iff.mp hm
  exact ⟨by decide, by decide⟩

/-- A choice that is left out if it is the default is read back. -/
theorem cascade_of_get? {mode : CascadeMode}
    (hget : r.tag.get? key = (sparse mode .none).map CascadeMode.text) :
    r.parsed? key CascadeMode.parse = .ok (sparse mode .none) := by
  refine parsed?_of_get? hget fun m _ ↦ ?_
  cases m
  · exact ⟨by decide, by decide⟩
  · exact ⟨by decide, by decide⟩
  · exact ⟨by decide, by decide⟩

/-- A class name without blanks at its ends is read, unless it is empty. -/
theorem name_of_get? {name : String} (hget : r.tag.get? key = some name)
    (hname : Text.Trimmed name) : r.text? key = if name = "" then none else some name := by
  rw [text?, hget, Option.bind_some]
  split
  · rename_i hempty
    subst hempty
    rfl
  · rename_i hne
    exact Text.IsValue.trimmed?_eq ⟨hname, hne⟩

end TagReader

end ClassMap
