import Mathlib.Data.List.Sort
import ClassMap.Proofs.DefaultScan
import ClassMap.Proofs.Files.Selected

/-!
Removing by a pattern against including by it. An item that includes files is gone along component
by component, and one that removes them is matched with each path as a text, in which a star goes
past slashes. So a pattern removes what it would include if every listed file is selected in the one
way just when it is matched in the other (`remove_inverts_include_iff`); where the pattern is plain,
it is only too much that can be removed. A pattern for the files in a folder also removes those in
the folders below, which it does not include (`not_remove_inverts_include_nestedShop`).
-/

set_option autoImplicit false
set_option relaxedAutoImplicit false

namespace ClassMap.Project

open Disk Traversal

variable {d : Disk} {folder item file : String} {included removed before after : List String}
  {paths files sources : List String}

/-! ### Listing -/

/-- The files that are found for a project, before any is removed. -/
def gather (d : Disk) (folder : String) (included : List String) :
    Except ProjectFault (List String) :=
  if included.isEmpty then .ok (scan d folder)
  else do return (← included.mapM (includeItem d folder)).flatten

/-- The files that no item removes. -/
def kept (folder : String) (removed files : List String) : List String :=
  files.filter fun file ↦ !removed.any (removes folder · file)

theorem sourcesOf_eq_ok_iff : sourcesOf d folder included removed = .ok sources ↔
    ∃ files, gather d folder included = .ok files ∧
      arrange (kept folder removed files) = sources := by
  rw [sourcesOf, gather]
  split
  · simp [pure_eq_ok_iff, kept]
  · simp only [pure_bind, bind_eq_ok_iff, pure_eq_ok_iff, kept]
    constructor
    · rintro ⟨lists, hlists, hsources⟩
      exact ⟨_, ⟨lists, hlists, rfl⟩, hsources⟩
    · rintro ⟨_, ⟨lists, hlists, rfl⟩, hsources⟩
      exact ⟨lists, hlists, hsources⟩

theorem kept_insert (folder : String) (before after : List String) (item : String)
    (files : List String) : kept folder (before ++ item :: after) files =
      (kept folder (before ++ after) files).filter fun file ↦ !removes folder item file := by
  rw [kept, kept, List.filter_filter]
  refine List.filter_congr fun file _ ↦ ?_
  simp only [List.any_append, List.any_cons, Bool.not_or]
  ac_rfl

/-! ### What an item stands for -/

/-- What an item includes, and nothing if it is no pattern. -/
def selection (d : Disk) (folder item : String) : List String :=
  match includeItem d folder item with
  | .ok found => found
  | .error _ => []

theorem mem_selection_iff (hsound : d.Sound) (hitem : hasWildcard item = true) :
    file ∈ selection d folder item ↔
      d.Selects (Path.join folder item) file ∧ isXml file = true := by
  rw [selection, includeItem, if_pos hitem]
  cases hglob : d.glob (Path.join folder item) with
  | ok found => rw [List.mem_filter, mem_glob_iff hsound hglob]
  | error error =>
    refine iff_of_false List.not_mem_nil fun hselects ↦ ?_
    obtain ⟨⟨patterns, hpatterns, -⟩, -⟩ := hselects
    obtain ⟨pattern, hpattern⟩ := exists_parse_of_components hpatterns
    rw [glob_eq, hpattern, hpatterns] at hglob
    cases hglob

theorem removes_iff (hitem : hasWildcard item = true) :
    removes folder item file = true ↔ MatchesText (Path.join folder item) file := by
  rw [removes, if_pos hitem, MatchesText]
  cases hpattern : Pattern.parse (Path.join folder item) with
  | ok pattern => simp [Pattern.isMatch_eq]
  | error => simp

/-! ### Sources -/

/-- Whether some sources are others without what an item includes. -/
def InvertsInclusion (d : Disk) (folder item : String) (sources remaining : List String) : Prop :=
  remaining.map Path.components =
    (sources.filter fun source ↦ !(selection d folder item).any (Path.same source)).map
      Path.components

/-- Ordered lists of paths come to the same paths if there are the same paths in them. -/
theorem map_components_eq_iff {others : List String}
    (hpaths : paths.Pairwise fun a b ↦ Path.le a b = true ∧ Path.same a b = false)
    (hothers : others.Pairwise fun a b ↦ Path.le a b = true ∧ Path.same a b = false) :
    paths.map Path.components = others.map Path.components ↔
      ∀ components, components ∈ paths.map Path.components ↔
        components ∈ others.map Path.components := by
  refine ⟨fun heq _ ↦ by rw [heq], fun hmem ↦ ?_⟩
  let precedes (as bs : List Path.Component) : Prop := Path.componentsLe as bs = true ∧ as ≠ bs
  have : Std.Irrefl precedes := ⟨fun as h ↦ h.2 rfl⟩
  have : Std.Antisymm precedes := ⟨fun as bs h h' ↦ Path.componentsLe_antisymm h.1 h'.1⟩
  have hordered : ∀ {xs : List String},
      (xs.Pairwise fun a b ↦ Path.le a b = true ∧ Path.same a b = false) →
        (xs.map Path.components).Pairwise precedes := by
    intro xs hxs
    refine List.pairwise_map.mpr (hxs.imp fun {a b} h ↦ ⟨h.1, fun heq ↦ ?_⟩)
    exact Bool.noConfusion (h.2.symm.trans (Path.same_iff.mpr heq))
  exact (hordered hpaths).eq_of_mem_iff (hordered hothers) hmem

theorem mem_map_components_arrange_iff {components : List Path.Component} :
    components ∈ (arrange paths).map Path.components ↔ ∃ path ∈ paths,
      Path.components path = components := by
  rw [List.mem_map]
  constructor
  · rintro ⟨path, hpath, heq⟩
    exact ⟨path, mem_of_mem_arrange hpath, heq⟩
  · rintro ⟨path, hpath, rfl⟩
    obtain ⟨other, hother, hsame⟩ := exists_mem_arrange hpath
    exact ⟨other, hother, (Path.same_iff.mp hsame).symm⟩

/-- Whether an item includes a file, in some way to write it. -/
def IsSelected (d : Disk) (folder item file : String) : Prop :=
  ∃ found ∈ selection d folder item, Path.same file found = true

theorem isSelected_congr {other : String} (h : Path.same file other = true) :
    IsSelected d folder item file ↔ IsSelected d folder item other :=
  exists_congr fun _ ↦ and_congr_right fun _ ↦ by rw [Path.same_congr h]

theorem mem_map_components_filter_iff {components : List Path.Component} :
    components ∈ ((arrange files).filter fun source ↦
        !(selection d folder item).any (Path.same source)).map Path.components ↔
      ∃ file ∈ files, Path.components file = components ∧ ¬ IsSelected d folder item file := by
  have hfilter : ∀ file, (!(selection d folder item).any (Path.same file)) = true ↔
      ¬ IsSelected d folder item file := by
    intro file
    simp [IsSelected]
  rw [List.mem_map]
  constructor
  · rintro ⟨file, hfile, heq⟩
    obtain ⟨hmem, hnot⟩ := List.mem_filter.mp hfile
    exact ⟨file, mem_of_mem_arrange hmem, heq, (hfilter file).mp hnot⟩
  · rintro ⟨file, hfile, rfl, hnot⟩
    obtain ⟨other, hother, hsame⟩ := exists_mem_arrange hfile
    refine ⟨other, List.mem_filter.mpr ⟨hother, ?_⟩, (Path.same_iff.mp hsame).symm⟩
    rwa [hfilter, ← isSelected_congr hsame]

/-- The sources are those without an item but for what it includes, just if each file is included by
the item exactly when it is removed by it in every way that it is written. -/
theorem invertsInclusion_arrange_iff :
    InvertsInclusion d folder item (arrange files)
        (arrange (files.filter fun file ↦ !removes folder item file)) ↔
      ∀ file ∈ files, IsSelected d folder item file ↔
        ∀ other ∈ files, Path.same file other = true → removes folder item other = true := by
  rw [InvertsInclusion, map_components_eq_iff (pairwise_arrange _) ((pairwise_arrange _).filter _)]
  simp only [mem_map_components_arrange_iff, mem_map_components_filter_iff, List.mem_filter,
    Bool.not_eq_true']
  constructor
  · intro hmem file hfile
    constructor
    · intro hselected other hother hsame
      by_contra hkept
      obtain ⟨left, -, heq, hleft⟩ := (hmem (Path.components file)).mp
        ⟨other, ⟨hother, by simpa using hkept⟩, (Path.same_iff.mp hsame).symm⟩
      exact hleft ((isSelected_congr (Path.same_iff.mpr heq)).mpr hselected)
    · intro hremoved
      by_contra hnot
      obtain ⟨other, ⟨hother, hkept⟩, heq⟩ := (hmem (Path.components file)).mpr
        ⟨file, hfile, rfl, hnot⟩
      have hgone := hremoved other hother (Path.same_iff.mpr heq.symm)
      exact Bool.noConfusion (hkept.symm.trans hgone)
  · intro hall components
    constructor
    · rintro ⟨file, ⟨hfile, hkept⟩, rfl⟩
      refine ⟨file, hfile, rfl, fun hselected ↦ ?_⟩
      have hgone := (hall file hfile).mp hselected file hfile (beq_self_eq_true _)
      exact Bool.noConfusion (hkept.symm.trans hgone)
    · rintro ⟨file, hfile, rfl, hnot⟩
      obtain ⟨other, hother, hsame, hkept⟩ : ∃ other ∈ files, Path.same file other = true ∧
          removes folder item other = false := by
        simpa using mt (hall file hfile).mpr hnot
      exact ⟨other, ⟨hother, hkept⟩, (Path.same_iff.mp hsame).symm⟩

/-! ### Removing and including -/

/-- With one more pattern to remove, the sources are those without it but for what it includes,
exactly when for each file that is listed and not removed otherwise the components of the pattern
lead to it just if the pattern as a text stands for the file, in every way that it is listed. Of a
plain pattern no source is left that its components lead to. -/
theorem remove_inverts_include_iff {d : Disk} {folder item : String}
    {included before after sources : List String} (hsound : d.Sound)
    (hitem : hasWildcard item = true)
    (hsources : sourcesOf d folder included (before ++ after) = .ok sources) :
    ∃ files remaining, gather d folder included = .ok files ∧
      sourcesOf d folder included (before ++ item :: after) = .ok remaining ∧
      (InvertsInclusion d folder item sources remaining ↔
        ∀ file ∈ kept folder (before ++ after) files,
          (∃ found, (d.Selects (Path.join folder item) found ∧ isXml found = true) ∧
            Path.same file found = true) ↔
          ∀ other ∈ kept folder (before ++ after) files, Path.same file other = true →
            MatchesText (Path.join folder item) other) ∧
      (IsPlain (Path.join folder item) → ∀ source ∈ remaining,
        ¬ d.Selects (Path.join folder item) source) := by
  obtain ⟨files, hfiles, rfl⟩ := sourcesOf_eq_ok_iff.mp hsources
  refine ⟨files, _, hfiles, sourcesOf_eq_ok_iff.mpr ⟨files, hfiles, rfl⟩, ?_, ?_⟩
  · rw [kept_insert, invertsInclusion_arrange_iff]
    simp only [IsSelected, mem_selection_iff hsound hitem, removes_iff hitem]
  · intro hplain source hsource hselects
    have hleft := mem_of_mem_arrange hsource
    rw [kept_insert, List.mem_filter, removes_iff hitem |>.mpr (hselects.matchesText hsound hplain)]
      at hleft
    exact Bool.noConfusion hleft.2

/-- A project whose only file is in a folder below another one. -/
def nestedShop : Disk where
  items := [(#["p"], .folder), (#["p", "model"], .folder), (#["p", "model", "sub"], .folder),
    (#["p", "model", "sub", "c.xml"], .file (Text.encode "<declarations/>"))]

/-- A pattern for the files in the folders of a folder leads to the one that it removes. -/
theorem remove_inverts_include_iff_nestedShop :
    ∃ sources remaining, sourcesOf nestedShop "p" ["**/*.xml"] [] = .ok sources ∧
      sourcesOf nestedShop "p" ["**/*.xml"] ["model/*/*.xml"] = .ok remaining ∧
      InvertsInclusion nestedShop "p" "model/*/*.xml" sources remaining ∧
      ∃ found, (nestedShop.Selects "p/model/*/*.xml" found ∧ isXml found = true) ∧
        Path.same "p/model/sub/c.xml" found = true := by
  have hsound : nestedShop.Sound := by decide +kernel
  have hitem : hasWildcard "model/*/*.xml" = true := by decide
  have hsources : sourcesOf nestedShop "p" ["**/*.xml"] ([] ++ []) = .ok ["p/model/sub/c.xml"] := by
    decide +kernel
  have hgather : gather nestedShop "p" ["**/*.xml"] = .ok ["p/model/sub/c.xml"] := by
    decide +kernel
  have hinverts : InvertsInclusion nestedShop "p" "model/*/*.xml" ["p/model/sub/c.xml"] [] := by
    rw [InvertsInclusion]
    decide +kernel
  have hgone : sourcesOf nestedShop "p" ["**/*.xml"] ["model/*/*.xml"] = .ok [] := by
    decide +kernel
  obtain ⟨files, remaining, hfiles, hremaining, hiff, -⟩ :=
    remove_inverts_include_iff hsound hitem hsources
  obtain rfl := Except.ok.inj (hremaining.symm.trans hgone)
  obtain rfl := Except.ok.inj (hfiles.symm.trans hgather)
  refine ⟨_, _, hsources, hgone, hinverts, (hiff.mp hinverts _ List.mem_cons_self).mpr ?_⟩
  intro other hother _
  obtain rfl : other = "p/model/sub/c.xml" := List.mem_singleton.mp (List.mem_filter.mp hother).1
  exact (removes_iff hitem).mp (by decide +kernel)

/-- A pattern for the files in a folder removes the one in the folder below it, which it does not
include. -/
theorem not_remove_inverts_include_nestedShop :
    nestedShop.Sound ∧ hasWildcard "model/*.xml" = true ∧
      sourcesOf nestedShop "p" ["**/*.xml"] [] = .ok ["p/model/sub/c.xml"] ∧
      sourcesOf nestedShop "p" ["**/*.xml"] ["model/*.xml"] = .ok [] ∧
      selection nestedShop "p" "model/*.xml" = [] ∧
      ¬ InvertsInclusion nestedShop "p" "model/*.xml" ["p/model/sub/c.xml"] [] := by
  refine ⟨by decide +kernel, by decide, by decide +kernel, by decide +kernel, by decide +kernel, ?_⟩
  rw [InvertsInclusion]
  decide +kernel

end ClassMap.Project
