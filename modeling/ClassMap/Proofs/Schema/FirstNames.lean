import Mathlib.Data.List.Induction
import Mathlib.Data.List.Nodup
import ClassMap.Text.Case

/-!
The order of tables. A table stands where its name first appeared, and a name that has appeared
before, in small or capital letters, adds nothing. So what counts of a list of names are the first
names in it, and they can be read off part by part.
-/

set_option autoImplicit false
set_option relaxedAutoImplicit false

namespace ClassMap

/-- Equality of table names: the small forms are the same. -/
def sameTable (a b : String) : Bool :=
  Text.lower a == Text.lower b

theorem sameTable_iff {a b : String} : sameTable a b = true ↔ Text.lower a = Text.lower b := by
  simp [sameTable]

@[simp] theorem sameTable_self (a : String) : sameTable a a = true := by
  simp [sameTable]

theorem sameTable_symm {a b : String} (h : sameTable a b = true) : sameTable b a = true := by
  rw [sameTable_iff] at h ⊢
  exact h.symm

theorem sameTable_trans {a b c : String} (hab : sameTable a b = true)
    (hbc : sameTable b c = true) : sameTable a c = true := by
  rw [sameTable_iff] at hab hbc ⊢
  exact hab.trans hbc

theorem sameTable_comm (a b : String) : sameTable a b = sameTable b a :=
  Bool.beq_comm

/-- Either spelling of a table will do. -/
theorem sameTable_congr {a b : String} (h : sameTable a b = true) (c : String) :
    sameTable a c = sameTable b c := by
  rw [sameTable, sameTable, sameTable_iff.mp h]

/-- The names that no other name of the same table stands before. -/
def firstNames (names : List String) : List String :=
  names.eraseDupsBy sameTable

variable {names more others : List String} {name : String}

/-- One name after the others. -/
def appendName (seen : List String) (name : String) : List String :=
  if seen.any (sameTable name) then seen else seen ++ [name]

theorem firstNames_eq_foldl (names : List String) :
    firstNames names = names.foldl appendName [] := by
  have hloop : ∀ seen, List.eraseDupsBy.loop sameTable names seen =
      names.foldl appendName seen.reverse := by
    induction names with
    | nil => exact fun seen ↦ rfl
    | cons name rest ih =>
      intro seen
      rw [List.eraseDupsBy.loop, List.foldl_cons, appendName, List.any_reverse]
      cases seen.any (sameTable name) with
      | true => exact ih seen
      | false => simpa using ih (name :: seen)
  exact hloop []

theorem firstNames_append_singleton (names : List String) (name : String) :
    firstNames (names ++ [name]) = appendName (firstNames names) name := by
  simp [firstNames_eq_foldl, List.foldl_append]

/-- Later names depend on the earlier ones through their first names only. -/
theorem firstNames_append_congr (h : firstNames names = firstNames others) (more : List String) :
    firstNames (names ++ more) = firstNames (others ++ more) := by
  simp only [firstNames_eq_foldl] at h
  simp only [firstNames_eq_foldl, List.foldl_append, h]

theorem exists_mem_firstNames (h : name ∈ names) :
    ∃ first ∈ firstNames names, sameTable name first = true := by
  induction names using List.reverseRecOn with
  | nil => exact absurd h List.not_mem_nil
  | append_singleton rest last ih =>
    rw [firstNames_append_singleton, appendName]
    rcases List.mem_append.mp h with hrest | hlast
    · obtain ⟨first, hfirst, hsame⟩ := ih hrest
      refine ⟨first, ?_, hsame⟩
      split
      · exact hfirst
      · exact List.mem_append_left _ hfirst
    · obtain rfl := List.mem_singleton.mp hlast
      split
      · rename_i hseen
        exact List.any_eq_true.mp hseen
      · exact ⟨name, List.mem_append_right _ (List.mem_singleton_self name), sameTable_self name⟩

theorem mem_of_mem_firstNames (h : name ∈ firstNames names) : name ∈ names := by
  induction names using List.reverseRecOn with
  | nil => exact h
  | append_singleton rest last ih =>
    rw [firstNames_append_singleton, appendName] at h
    split at h
    · exact List.mem_append_left _ (ih h)
    · rcases List.mem_append.mp h with hrest | hlast
      · exact List.mem_append_left _ (ih hrest)
      · exact List.mem_append_right _ hlast

/-- No table is left out and none is added. -/
theorem mem_map_lower_firstNames {small : String} :
    small ∈ (firstNames names).map Text.lower ↔ small ∈ names.map Text.lower := by
  rw [List.mem_map, List.mem_map]
  constructor
  · intro hfirst
    obtain ⟨name, hname, hsmall⟩ := hfirst
    exact ⟨name, mem_of_mem_firstNames hname, hsmall⟩
  · intro hthere
    obtain ⟨name, hname, hsmall⟩ := hthere
    obtain ⟨first, hfirst, hsame⟩ := exists_mem_firstNames hname
    exact ⟨first, hfirst, (sameTable_iff.mp hsame).symm.trans hsmall⟩

theorem nodup_firstNames (names : List String) : ((firstNames names).map Text.lower).Nodup := by
  induction names using List.reverseRecOn with
  | nil => exact List.nodup_nil
  | append_singleton rest last ih =>
    rw [firstNames_append_singleton, appendName]
    split
    · exact ih
    · rename_i hnew
      rw [List.map_append, List.nodup_append]
      refine ⟨ih, List.nodup_singleton _, fun x hx y hy hxy ↦ hnew ?_⟩
      obtain ⟨first, hfirst, rfl⟩ := List.mem_map.mp hx
      obtain rfl := List.mem_singleton.mp hy
      exact List.any_eq_true.mpr ⟨first, hfirst, sameTable_iff.mpr hxy.symm⟩

/-- Names that have all appeared already add nothing. -/
theorem firstNames_append_of_seen (h : ∀ name ∈ more, ∃ seen ∈ names, sameTable name seen = true) :
    firstNames (names ++ more) = firstNames names := by
  induction more using List.reverseRecOn with
  | nil => rw [List.append_nil]
  | append_singleton rest last ih =>
    have hrest : firstNames (names ++ rest) = firstNames names :=
      ih fun name hname ↦ h name (List.mem_append_left _ hname)
    obtain ⟨seen, hseen, hlast⟩ := h last (List.mem_append_right _ (List.mem_singleton_self last))
    obtain ⟨first, hfirst, hfound⟩ := exists_mem_firstNames hseen
    rw [← List.append_assoc, firstNames_append_singleton, hrest, appendName, if_pos]
    exact List.any_eq_true.mpr ⟨first, hfirst, sameTable_trans hlast hfound⟩

/-- Of names of one table the first is enough. -/
theorem firstNames_append_cons (names : List String) (h : ∀ n ∈ more, sameTable n name = true) :
    firstNames (names ++ name :: more) = firstNames (names ++ [name]) := by
  rw [List.append_cons]
  exact firstNames_append_of_seen fun n hn ↦ ⟨name, by simp, h n hn⟩

end ClassMap
