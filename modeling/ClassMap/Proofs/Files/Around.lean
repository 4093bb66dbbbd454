import ClassMap.Proofs.Files.Sound

/-!
The folder that a file is in. On a sound disk the parent of a path to a file leads to the folder
around the place of the file, if the parent is not empty (`Sound.locate?_parent`); it is empty just
when there is no slash in the path (`parent_eq_empty_iff`), and then it leads nowhere.
-/

set_option autoImplicit false
set_option relaxedAutoImplicit false

namespace ClassMap

namespace Path

variable {path segment : String} {first rest : List Char}

theorem ofSegment?_eq_none_iff : ofSegment? segment = none ↔ segment = "" ∨ segment = "." := by
  rw [ofSegment?]
  split
  case isTrue hstay => simpa using hstay
  case isFalse hcounts =>
    refine iff_of_false ?_ (by simpa using hcounts)
    split <;> simp

theorem counted_of_notMem (h : '/' ∉ first) :
    counted first = (ofSegment? (String.ofList first)).toList := by
  rw [counted, Text.pieces_of_notMem h, List.map_singleton]
  cases hcomponent : ofSegment? (String.ofList first) with
  | none => rw [List.filterMap_cons_none hcomponent]; rfl
  | some c => rw [List.filterMap_cons_some hcomponent]; rfl

/-- What stands before the first slash of a path is a component, also if it is nothing or a dot. -/
theorem components_before_slash_ne_nil (hfirst : '/' ∉ first)
    (h : path.toList = first ++ '/' :: rest) : (lead path).toList ++ counted first ≠ [] := by
  intro hnil
  obtain ⟨hlead, hcounted⟩ := List.append_eq_nil_iff.mp hnil
  rw [counted_of_notMem hfirst, Option.toList_eq_nil_iff, ofSegment?_eq_none_iff] at hcounted
  rw [Option.toList_eq_nil_iff, lead, h] at hlead
  rcases hcounted with hempty | hdot
  · rw [String.ofList_eq_empty_iff.mp hempty] at hlead
    exact absurd hlead (by simp)
  · have hchars : first = ['.'] := by
      rw [← String.toList_ofList (l := first), hdot]
      rfl
    rw [hchars] at hlead
    exact absurd hlead (by simp)

theorem slash_mem_of_root_mem (h : .root ∈ components path) : '/' ∈ path.toList := by
  rcases List.mem_append.mp h with hlead | hsegment
  · have hroot := Option.mem_toList.mp hlead
    rw [lead] at hroot
    split at hroot
    case h_1 rest hpath => exact hpath ▸ List.mem_cons_self
    all_goals exact absurd hroot (by simp)
  · obtain ⟨segment, -, hroot⟩ := List.mem_filterMap.mp hsegment
    rw [ofSegment?] at hroot
    split at hroot
    case isTrue => exact absurd hroot (by simp)
    case isFalse => split at hroot <;> exact absurd hroot (by simp)

end Path

namespace Disk

variable {d : Disk} {path folder : String} {place around : Location}

/-! ### The last component of a path to a file -/

/-- A path to a file ends in a segment that counts. -/
theorem exists_ofSegment?_of_locate? (hplace : d.locate? path = some place)
    (hfile : d.isFolder place = false) :
    ∃ c, Path.ofSegment? ((Path.segments path).getLast (Path.segments_ne_nil path)) = some c := by
  refine Option.ne_none_iff_exists'.mp fun hnone ↦ ?_
  obtain ⟨folder, segment, hparent, hstep⟩ := locate?_eq_some_iff.mp hplace
  obtain ⟨-, -, hfolder, hlast⟩ := parentOf?_eq_some_iff.mp hparent
  rw [List.getLast?_eq_some_getLast (Path.segments_ne_nil path), Option.getD_some] at hlast
  rw [hlast] at hnone
  rw [step?_of_ofSegment?_eq_none hnone, if_pos hfolder] at hstep
  rw [← Option.some.inj hstep, hfolder] at hfile
  exact Bool.noConfusion hfile

/-- The parent of a path to a file is empty just when the path has no slash. -/
theorem parent_eq_empty_iff (hplace : d.locate? path = some place)
    (hfile : d.isFolder place = false) (hparent : Path.parent? path = some folder) :
    folder = "" ↔ '/' ∉ path.toList := by
  obtain ⟨c, hcases⟩ := Path.parent?_cases hparent
  constructor
  · rintro rfl hslash
    have hone : Path.components path = [c] := by
      rcases hcases with ⟨-, hone⟩ | ⟨hroot, -⟩ | ⟨hne, -⟩
      · exact hone
      · exact absurd hroot (by decide)
      · exact absurd rfl hne
    obtain ⟨first, rest, hpath, hfirst⟩ := List.eq_append_cons_of_mem hslash
    have hbefore := Path.components_before_slash_ne_nil hfirst hpath
    -- the last segment stands after the first slash
    have hafter : Path.counted rest ≠ [] := by
      obtain ⟨last, hlast⟩ := exists_ofSegment?_of_locate? hplace hfile
      have hrest : (Text.pieces '/' rest).map String.ofList ≠ [] := by
        simpa using Text.pieces_ne_nil '/' rest
      simp only [Path.segments_eq_of_toList hpath, List.getLast_append_of_ne_nil _ hrest] at hlast
      exact List.ne_nil_of_mem (List.mem_filterMap.mpr ⟨_, List.getLast_mem hrest, hlast⟩)
    rw [Path.components_eq, hpath, Path.counted_append, ← List.append_assoc] at hone
    have hlength := congrArg List.length hone
    rw [List.length_append, List.length_singleton] at hlength
    have hpos := List.length_pos_iff.mpr hbefore
    have hpos' := List.length_pos_iff.mpr hafter
    omega
  · intro hslash
    rcases hcases with ⟨hempty, -⟩ | ⟨-, hroot⟩ | ⟨-, more, hmore, -⟩
    · exact hempty
    · refine absurd (Path.slash_mem_of_root_mem ?_) hslash
      rw [hroot]
      exact List.mem_cons_self
    · rw [hmore] at hslash
      exact absurd (List.mem_append_right _ List.mem_cons_self) hslash

/-! ### The folder around a file -/

theorem Sound.isFolder_pop (hsound : d.Sound) (hfolder : d.isFolder place = true) :
    d.isFolder place.pop = true := by
  by_cases hroot : place = #[]
  · rw [hroot]
    exact isFolder_iff.mpr d.get?_root
  · obtain ⟨around, name, rfl, haround, -⟩ :=
      hsound.exists_push (by rw [isFolder_iff.mp hfolder]; rfl) hroot
    rw [Array.pop_push]
    exact haround

/-- The component that leads from a folder to a file is the name of the file. -/
theorem Sound.pop_eq_of_enter? {component : Path.Component} (hsound : d.Sound)
    (haround : d.isFolder around = true) (henter : d.enter? around component = some place)
    (hfile : d.isFolder place = false) : place.pop = around := by
  have hnot : ∀ other, d.isFolder other = true → place ≠ other := by
    rintro other hother rfl
    exact Bool.noConfusion (hfile.symm.trans hother)
  have hstep : ∀ segment, d.step? around segment = some place → place.pop = around := by
    intro segment hstep
    obtain ⟨-, hsegment, -⟩ := step?_eq_some_iff.mp hstep
    rw [stepPlace] at hsegment
    split at hsegment
    case isTrue => exact absurd hsegment.symm (hnot _ haround)
    case isFalse =>
      split at hsegment
      case isTrue => exact absurd hsegment.symm (hnot _ (hsound.isFolder_pop haround))
      case isFalse => rw [← hsegment, Array.pop_push]
  cases component with
  | root => exact absurd (Option.some.inj henter).symm (hnot _ (isFolder_iff.mpr d.get?_root))
  | here => exact absurd (Option.some.inj henter).symm (hnot _ haround)
  | up => exact hstep _ henter
  | name text => exact hstep _ henter

theorem Sound.locate?_parent (hsound : d.Sound) (hplace : d.locate? path = some place)
    (hfile : d.isFolder place = false) (hparent : Path.parent? path = some folder)
    (hfolder : folder ≠ "") : d.locate? folder = some place.pop := by
  obtain ⟨found, hfound, hfoundFolder⟩ := exists_folder_of_parent? hplace hparent hfolder
  obtain ⟨around, component, haround, henter⟩ := exists_enter?_of_parent? hplace hparent
  obtain rfl := Option.some.inj ((along?_of_locate? hfound).symm.trans haround)
  rw [hsound.pop_eq_of_enter? hfoundFolder henter hfile]
  exact hfound

end Disk

end ClassMap
