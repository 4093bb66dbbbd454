import Mathlib.Data.List.Nodup

/-!
Lists of entries with names. A list in which no name occurs twice is as good as a table: what is
found under a name is the one entry of that name, wherever it stands. Adding, changing and leaving
out entries of other names does not change what is found under a name.
-/

set_option autoImplicit false
set_option relaxedAutoImplicit false

namespace ClassMap

variable {α : Type} {nameOf : α → String} {xs ys : List α} {x : α} {name other : String}

/-- With names that are there once, the entry found under a name is the entry of that name. -/
theorem find?_eq_some_iff_of_nodup (hnodup : (xs.map nameOf).Nodup) :
    xs.find? (nameOf · == name) = some x ↔ x ∈ xs ∧ nameOf x = name := by
  constructor
  · intro hfound
    exact ⟨List.mem_of_find?_eq_some hfound, by simpa using List.find?_some hfound⟩
  · rintro ⟨hx, rfl⟩
    have hsome : (xs.find? (nameOf · == nameOf x)).isSome := List.find?_isSome.mpr ⟨x, hx, by simp⟩
    obtain ⟨y, hy⟩ := Option.isSome_iff_exists.mp hsome
    have hname : nameOf y = nameOf x := by simpa using List.find?_some hy
    rw [hy, List.inj_on_of_nodup_map hnodup (List.mem_of_find?_eq_some hy) hx hname]

theorem find?_eq_none_of_any (hnone : xs.any (nameOf · == name) = false) :
    xs.find? (nameOf · == name) = none :=
  List.find?_eq_none.mpr (List.any_eq_false.mp hnone)

/-- The order of entries does not count for what is found under a name. -/
theorem find?_eq_of_perm (hperm : xs.Perm ys) (hnodup : (xs.map nameOf).Nodup) :
    xs.find? (nameOf · == name) = ys.find? (nameOf · == name) := by
  have hnodup' : (ys.map nameOf).Nodup := (hperm.map nameOf).nodup_iff.mp hnodup
  refine Option.ext fun x ↦ ?_
  rw [find?_eq_some_iff_of_nodup hnodup, find?_eq_some_iff_of_nodup hnodup', hperm.mem_iff]

/-- Entries that are added under new names stand behind those that are there. -/
theorem find?_foldl_new :
    (ys.foldl (fun xs y ↦ if xs.any (nameOf · == nameOf y) then xs else xs ++ [y]) xs).find?
        (nameOf · == name) =
      (xs.find? (nameOf · == name)).or (ys.find? (nameOf · == name)) := by
  induction ys generalizing xs with
  | nil => simp
  | cons y rest ih =>
    rw [List.foldl_cons, ih]
    by_cases hknown : xs.any (nameOf · == nameOf y) = true
    · rw [if_pos hknown]
      by_cases hname : nameOf y = name
      · subst hname
        have hfound : (xs.find? (nameOf · == nameOf y)).isSome := by
          rw [List.find?_isSome]
          exact List.any_eq_true.mp hknown
        obtain ⟨x, hx⟩ := Option.isSome_iff_exists.mp hfound
        rw [hx, Option.some_or, Option.some_or]
      · rw [List.find?_cons_of_neg (by simpa using hname)]
    · rw [if_neg hknown, List.find?_append, Option.or_assoc]
      by_cases hname : nameOf y = name
      · rw [List.find?_cons_of_pos (by simpa using hname),
          List.find?_cons_of_pos (by simpa using hname), Option.some_or]
      · rw [List.find?_cons_of_neg (by simpa using hname),
          List.find?_cons_of_neg (by simpa using hname), List.find?_nil, Option.none_or]

theorem nodup_append_singleton (hnodup : (xs.map nameOf).Nodup)
    (hnew : ¬ xs.any (nameOf · == nameOf x) = true) : ((xs ++ [x]).map nameOf).Nodup := by
  rw [List.map_append, List.map_singleton, List.nodup_append]
  refine ⟨hnodup, List.nodup_singleton _, fun a ha b hb hab ↦ hnew ?_⟩
  obtain ⟨y, hy, rfl⟩ := List.mem_map.mp ha
  have hname : nameOf y = nameOf x := hab.trans (List.mem_singleton.mp hb)
  exact List.any_eq_true.mpr ⟨y, hy, beq_iff_eq.mpr hname⟩

theorem nodup_foldl_new (hnodup : (xs.map nameOf).Nodup) :
    ((ys.foldl (fun xs y ↦ if xs.any (nameOf · == nameOf y) then xs else xs ++ [y]) xs).map
      nameOf).Nodup := by
  induction ys generalizing xs with
  | nil => exact hnodup
  | cons y rest ih =>
    rw [List.foldl_cons]
    apply ih
    split
    · exact hnodup
    · rename_i hnew
      exact nodup_append_singleton hnodup hnew

/-- Leaving out entries of other names does not change what is found under a name. -/
theorem find?_filter_of_keeps {keep : α → Bool} (hkeep : ∀ x, nameOf x = name → keep x = true) :
    (xs.filter keep).find? (nameOf · == name) = xs.find? (nameOf · == name) := by
  rw [List.find?_filter]
  refine congrArg (List.find? · xs) (funext fun x ↦ ?_)
  by_cases hname : nameOf x = name
  · simp [hname, hkeep x hname]
  · simp [hname]

theorem nodup_filter (keep : α → Bool) (hnodup : (xs.map nameOf).Nodup) :
    ((xs.filter keep).map nameOf).Nodup :=
  (List.filter_sublist.map nameOf).nodup hnodup

/-- Changing the entry of another name does not change what is found under a name. -/
theorem find?_map_of_ne (change : α → α) (hchange : ∀ x, nameOf (change x) = nameOf x)
    (hne : name ≠ other) :
    (xs.map fun x ↦ if nameOf x == other then change x else x).find? (nameOf · == name) =
      xs.find? (nameOf · == name) := by
  induction xs with
  | nil => rfl
  | cons x rest ih =>
    rw [List.map_cons]
    by_cases hother : nameOf x = other
    · have hx : nameOf x ≠ name := fun hname ↦ hne (hname.symm.trans hother)
      rw [if_pos (by simpa using hother), List.find?_cons_of_neg (by simpa [hchange] using hx),
        List.find?_cons_of_neg (by simpa using hx), ih]
    · rw [if_neg (by simpa using hother), List.find?_cons, List.find?_cons, ih]

theorem map_nameOf_map (change : α → α) (hchange : ∀ x, nameOf (change x) = nameOf x) :
    (xs.map fun x ↦ if nameOf x == other then change x else x).map nameOf = xs.map nameOf := by
  rw [List.map_map]
  refine List.map_congr_left fun x _ ↦ ?_
  rw [Function.comp]
  split
  · exact hchange x
  · rfl

/-- Entries give way to others of their name. -/
theorem nodup_filter_append (hxs : (xs.map nameOf).Nodup) (hys : (ys.map nameOf).Nodup) :
    (((xs.filter fun x ↦ !ys.any (nameOf · == nameOf x)) ++ ys).map nameOf).Nodup := by
  rw [List.map_append, List.nodup_append]
  refine ⟨nodup_filter _ hxs, hys, fun a ha b hb hab ↦ ?_⟩
  obtain ⟨x, hx, rfl⟩ := List.mem_map.mp ha
  obtain ⟨y, hy, rfl⟩ := List.mem_map.mp hb
  have hgiven : ys.any (nameOf · == nameOf x) = true :=
    List.any_eq_true.mpr ⟨y, hy, beq_iff_eq.mpr hab.symm⟩
  have hkept := (List.mem_filter.mp hx).2
  rw [hgiven] at hkept
  exact Bool.noConfusion hkept

theorem find?_filter_append (hnone : ys.any (nameOf · == name) = false) :
    ((xs.filter fun x ↦ !ys.any (nameOf · == nameOf x)) ++ ys).find? (nameOf · == name) =
      xs.find? (nameOf · == name) := by
  have hkeep : ∀ x, nameOf x = name → (!ys.any (nameOf · == nameOf x)) = true := by
    rintro x rfl
    rw [hnone]
    rfl
  rw [List.find?_append, find?_eq_none_of_any hnone, Option.or_none, find?_filter_of_keeps hkeep]

end ClassMap
