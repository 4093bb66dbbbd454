import ClassMap.Proofs.Files.Places

/-!
Editing the files of a disk. Writing, moving and removing files never touches a folder, so all paths
keep their places on the way, and what has happened to a disk can be told by the paths alone: which
have been written, and which have been emptied.
-/

set_option autoImplicit false
set_option relaxedAutoImplicit false

namespace ClassMap.Disk

variable {d d' d'' : Disk} {place other : Location} {path source target : String}
  {paths written removed : List String} {content : Bytes}

/-! ### Single steps -/

theorem get?_put_file (h : d.isFolder place = false) (content : Bytes) (other : Location) :
    (d.put place (.file content)).get? other =
      if other = place then some (.file content) else d.get? other := by
  split
  case isTrue heq => rw [heq, get?_put_self d place _ (ne_root_of_isFolder_eq_false h)]
  case isFalse hne => exact get?_put_of_ne d _ hne

theorem get?_erase_file (h : d.isFolder place = false) (other : Location) :
    (d.erase place).get? other = if other = place then none else d.get? other := by
  rw [get?_erase]
  by_cases heq : other = place
  · rw [heq, if_pos ⟨rfl, ne_root_of_isFolder_eq_false h⟩, if_pos rfl]
  · rw [if_neg fun hboth ↦ heq hboth.1, if_neg heq]

theorem sameFolders_put (h : d.isFolder place = false) (content : Bytes) :
    d.SameFolders (d.put place (.file content)) := by
  refine .of_isFolder rfl fun other ↦ ?_
  by_cases heq : other = place
  · rw [heq, h, isFolder, get?_put_file h, if_pos rfl]
    rfl
  · rw [isFolder, get?_put_file h, if_neg heq, isFolder]

theorem sameFolders_erase (h : d.isFolder place = false) : d.SameFolders (d.erase place) := by
  refine .of_isFolder rfl fun other ↦ ?_
  by_cases heq : other = place
  · rw [heq, h, isFolder, get?_erase_file h, if_pos rfl]
    rfl
  · rw [isFolder, get?_erase_file h, if_neg heq, isFolder]

theorem writeFile_cases (d : Disk) (path : String) (content : Bytes) :
    (∃ place, d.filePlace? path = some place ∧
      d.writeFile path content = (true, d.put place (.file content))) ∨
    (d.filePlace? path = none ∧ d.writeFile path content = (false, d)) := by
  rw [writeFile]
  cases hplace : d.filePlace? path with
  | none => exact Or.inr ⟨rfl, rfl⟩
  | some place => exact Or.inl ⟨place, rfl, rfl⟩

theorem renameFile_cases (d : Disk) (source target : String) :
    (∃ old place content, d.placeOf? source = some old ∧ d.get? old = some (.file content) ∧
      d.filePlace? target = some place ∧
      d.renameFile source target = (true, (d.erase old).put place (.file content))) ∨
    ((d.contents? source = none ∨ d.filePlace? target = none) ∧
      d.renameFile source target = (false, d)) := by
  rw [renameFile]
  split
  case h_1 old place hold hplace =>
    split
    case h_1 content hcontent =>
      exact Or.inl ⟨old, place, content, placeOf?_of_locate? hold, hcontent, hplace, rfl⟩
    case h_2 hfile =>
      refine Or.inr ⟨Or.inl (Option.eq_none_iff_forall_ne_some.mpr fun content hthere ↦ ?_), rfl⟩
      obtain ⟨found, hfound, hcontent⟩ := contents?_eq_some_iff.mp hthere
      obtain rfl := Option.some.inj ((placeOf?_of_locate? hold).symm.trans hfound)
      exact hfile content hcontent
  case h_2 hnone =>
    refine Or.inr ⟨?_, rfl⟩
    by_contra hboth
    obtain ⟨hsource, htarget⟩ := not_or.mp hboth
    obtain ⟨content, hcontent⟩ := Option.ne_none_iff_exists'.mp hsource
    obtain ⟨place, hplace⟩ := Option.ne_none_iff_exists'.mp htarget
    obtain ⟨old, hold, hfile⟩ := contents?_eq_some_iff.mp hcontent
    exact hnone old place (locate?_of_placeOf? hold (by rw [hfile]; rfl)) hplace

theorem removeFile_cases (d : Disk) (path : String) :
    (∃ place, d.placeOf? path = some place ∧ d.isFolder place = false ∧
      d.removeFile path = d.erase place) ∨
    ((∀ place, d.placeOf? path = some place → d.isFolder place = false → d.get? place = none) ∧
      d.removeFile path = d) := by
  rw [removeFile]
  cases hlocate : d.locate? path with
  | none =>
    refine Or.inr ⟨fun place hplace _ ↦ ?_, rfl⟩
    by_contra hthere
    rw [locate?_of_placeOf? hplace (Option.isSome_iff_ne_none.mpr hthere)] at hlocate
    exact absurd hlocate (by simp)
  | some place =>
    have hplace := placeOf?_of_locate? hlocate
    cases hfolder : d.isFolder place with
    | false => exact Or.inl ⟨place, hplace, hfolder, by simp [hfolder]⟩
    | true =>
      refine Or.inr ⟨fun found hfound hnot ↦ ?_, by simp [hfolder]⟩
      obtain rfl := Option.some.inj (hplace.symm.trans hfound)
      exact absurd (hnot.symm.trans hfolder) (by simp)

/-- A file can be written under the path. -/
def CanHold (d : Disk) (path : String) : Prop :=
  (d.filePlace? path).isSome = true

instance (d : Disk) (path : String) : Decidable (d.CanHold path) :=
  inferInstanceAs (Decidable (_ = true))

theorem canHold_congr (h : d.SameFolders d') : d'.CanHold path ↔ d.CanHold path := by
  rw [CanHold, CanHold, h.filePlace?_eq]

theorem writeFile_fst_iff (content : Bytes) :
    (d.writeFile path content).1 = true ↔ d.CanHold path := by
  rw [CanHold]
  rcases writeFile_cases d path content with ⟨place, hplace, heq⟩ | ⟨hnone, heq⟩
  · simp [heq, hplace]
  · simp [heq, hnone]

theorem renameFile_fst_iff : (d.renameFile source target).1 = true ↔
    (d.contents? source).isSome = true ∧ d.CanHold target := by
  rw [CanHold]
  rcases renameFile_cases d source target with ⟨old, place, content, hold, hfile, hplace, heq⟩ |
    ⟨hnone, heq⟩
  · have hcontent : d.contents? source = some content :=
      contents?_eq_some_iff.mpr ⟨old, hold, hfile⟩
    simp [heq, hcontent, hplace]
  · rcases hnone with hnone | hnone <;> simp [heq, hnone]

theorem contents?_writeFile_self (h : d.CanHold path) (content : Bytes) :
    (d.writeFile path content).2.contents? path = some content := by
  obtain ⟨place, hat⟩ := Option.isSome_iff_exists.mp h
  obtain ⟨hplace, hfile⟩ := placeOf?_of_filePlace? hat
  have hwrite : (d.writeFile path content).2 = d.put place (.file content) := by
    rw [writeFile, hat]
  rw [hwrite]
  refine contents?_eq_some_iff.mpr ⟨place, ?_, by rw [get?_put_file hfile, if_pos rfl]⟩
  rw [(sameFolders_put hfile content).placeOf?_eq, hplace]

/-- Writing takes no file away. -/
theorem isSome_contents?_writeFile {other : String} (h : (d.contents? other).isSome = true)
    (path : String) (content : Bytes) :
    ((d.writeFile path content).2.contents? other).isSome = true := by
  rcases writeFile_cases d path content with ⟨place, hat, heq⟩ | ⟨-, heq⟩
  · obtain ⟨present, hpresent⟩ := Option.isSome_iff_exists.mp h
    obtain ⟨at', hplace, hfile⟩ := contents?_eq_some_iff.mp hpresent
    have hfolder := (placeOf?_of_filePlace? hat).2
    rw [heq, Option.isSome_iff_exists]
    simp only [contents?_eq_some_iff, (sameFolders_put hfolder content).placeOf?_eq,
      get?_put_file hfolder]
    by_cases hsame : at' = place
    · exact ⟨content, at', hplace, if_pos hsame⟩
    · exact ⟨present, at', hplace, by rw [if_neg hsame, hfile]⟩
  · rw [heq]
    exact h

/-! ### What has been written and removed -/

/-- The place is the one that one of the paths denotes. -/
def Names (d : Disk) (paths : List String) (place : Location) : Prop :=
  ∃ path ∈ paths, d.placeOf? path = some place

theorem names_cons : d.Names (path :: paths) place ↔
    d.placeOf? path = some place ∨ d.Names paths place := by
  simp [Names]

theorem Names.mono (h : d.Names written place) (hsub : ∀ p ∈ written, p ∈ paths) :
    d.Names paths place := by
  obtain ⟨p, hp, hplace⟩ := h
  exact ⟨p, hsub p hp, hplace⟩

/-- A disk after editing: whatever is not a folder has gone from the places of the removed paths,
and all else is as it was, but for the places of the written paths, where nothing is said. -/
structure Edited (d d' : Disk) (written removed : List String) : Prop where
  folders : d.SameFolders d'
  gone : ∀ place, d.isFolder place = false → ¬ d.Names written place → d.Names removed place →
    d'.get? place = none
  kept : ∀ place, ¬ d.Names written place → ¬ d.Names removed place → d'.get? place = d.get? place

namespace Edited

theorem refl (d : Disk) : d.Edited d [] [] :=
  ⟨.refl d, fun _ _ _ h ↦ absurd h (by simp [Names]), fun _ _ _ ↦ rfl⟩

theorem congr {written' removed' : List String} (h : d.Edited d' written removed)
    (hwritten : ∀ p ∈ written, p ∈ written') (hremoved : ∀ p, p ∈ removed ↔ p ∈ removed') :
    d.Edited d' written' removed' := by
  refine ⟨h.folders, fun place hfolder hnot hgone ↦ ?_, fun place hnot hkept ↦ ?_⟩
  · exact h.gone place hfolder (fun hw ↦ hnot (hw.mono hwritten))
      (hgone.mono fun p hp ↦ (hremoved p).mpr hp)
  · exact h.kept place (fun hw ↦ hnot (hw.mono hwritten))
      fun hr ↦ hkept (hr.mono fun p hp ↦ (hremoved p).mp hp)

theorem writeFile (h : d.Edited d' written removed) (path : String) (content : Bytes) :
    d.Edited (d'.writeFile path content).2 (path :: written) removed := by
  have hmore : d.Edited d' (path :: written) removed :=
    h.congr (fun p hp ↦ List.mem_cons_of_mem path hp) fun p ↦ Iff.rfl
  rcases writeFile_cases d' path content with ⟨at', hat, heq⟩ | ⟨-, heq⟩
  · obtain ⟨hplace, hfile⟩ := placeOf?_of_filePlace? hat
    rw [heq]
    have hother : ∀ place, ¬ d.Names (path :: written) place → place ≠ at' := by
      rintro place hnot rfl
      exact hnot (names_cons.mpr (Or.inl ((h.folders.placeOf?_eq path).symm.trans hplace)))
    refine ⟨h.folders.trans (sameFolders_put hfile content), fun place hfolder hnot hgone ↦ ?_,
      fun place hnot hkept ↦ ?_⟩
    · rw [get?_put_file hfile, if_neg (hother place hnot), hmore.gone place hfolder hnot hgone]
    · rw [get?_put_file hfile, if_neg (hother place hnot), hmore.kept place hnot hkept]
  · rw [heq]
    exact hmore

theorem removeFile (h : d.Edited d' (path :: written) removed) :
    d.Edited (d'.removeFile path) written (path :: removed) := by
  rcases removeFile_cases d' path with ⟨at', hplace, hfile, heq⟩ | ⟨hnone, heq⟩
  · rw [h.folders.placeOf?_eq] at hplace
    rw [heq]
    refine ⟨h.folders.trans (sameFolders_erase hfile), fun place hfolder hnot hgone ↦ ?_,
      fun place hnot hkept ↦ ?_⟩
    · rw [get?_erase_file hfile]
      split
      case isTrue => rfl
      case isFalse hne =>
        have hpath : d.placeOf? path ≠ some place := fun hp ↦
          hne (Option.some.inj (hp.symm.trans hplace))
        refine h.gone place hfolder (fun hw ↦ ?_) ((names_cons.mp hgone).resolve_left hpath)
        exact hnot ((names_cons.mp hw).resolve_left hpath)
    · have hpath : d.placeOf? path ≠ some place := fun hp ↦ hkept (names_cons.mpr (Or.inl hp))
      have hne : place ≠ at' := by
        rintro rfl
        exact hpath hplace
      rw [get?_erase_file hfile, if_neg hne]
      exact h.kept place (fun hw ↦ hnot ((names_cons.mp hw).resolve_left hpath))
        fun hr ↦ hkept (names_cons.mpr (Or.inr hr))
  · rw [heq]
    refine ⟨h.folders, fun place hfolder hnot hgone ↦ ?_, fun place hnot hkept ↦ ?_⟩
    · by_cases hpath : d.placeOf? path = some place
      · rw [← h.folders.placeOf?_eq] at hpath
        rw [← h.folders.isFolder_eq] at hfolder
        exact hnone place hpath hfolder
      · exact h.gone place hfolder (fun hw ↦ hnot ((names_cons.mp hw).resolve_left hpath))
          ((names_cons.mp hgone).resolve_left hpath)
    · have hpath : d.placeOf? path ≠ some place := fun hp ↦ hkept (names_cons.mpr (Or.inl hp))
      exact h.kept place (fun hw ↦ hnot ((names_cons.mp hw).resolve_left hpath))
        fun hr ↦ hkept (names_cons.mpr (Or.inr hr))

/-- A file that has been moved has left its old path, and is written under its new one. -/
theorem renameFile (h : d.Edited d' (source :: written) removed)
    (hrename : d'.renameFile source target = (true, d'')) :
    d.Edited d'' (target :: written) (source :: removed) := by
  rcases renameFile_cases d' source target with ⟨old, at', content, hold, hfile, hat, heq⟩ |
    ⟨-, heq⟩
  · obtain rfl : d'' = _ := (Prod.mk.inj (hrename.symm.trans heq)).2
    obtain ⟨hplace, hfolder'⟩ := placeOf?_of_filePlace? hat
    rw [h.folders.placeOf?_eq] at hold hplace
    have holdFile : d'.isFolder old = false := by rw [isFolder, hfile]; rfl
    have herase := sameFolders_erase holdFile
    have hatFile : (d'.erase old).isFolder at' = false := (herase.isFolder_eq at').trans hfolder'
    have hget : ∀ place, ¬ d.Names (target :: written) place →
        ((d'.erase old).put at' (.file content)).get? place =
          if place = old then none else d'.get? place := by
      intro place hnot
      have hne : place ≠ at' := by
        rintro rfl
        exact hnot (names_cons.mpr (Or.inl hplace))
      rw [get?_put_file hatFile, if_neg hne, get?_erase_file holdFile]
    have hsource : ∀ place, place ≠ old → ¬ d.Names written place →
        ¬ d.Names (source :: written) place := by
      intro place hne hnot hw
      rcases names_cons.mp hw with hs | hw
      · exact hne (Option.some.inj (hs.symm.trans hold))
      · exact hnot hw
    refine ⟨(h.folders.trans herase).trans (sameFolders_put hatFile content),
      fun place hfolder hnot hgone ↦ ?_, fun place hnot hkept ↦ ?_⟩
    · rw [hget place hnot]
      split
      case isTrue => rfl
      case isFalse hne =>
        refine h.gone place hfolder
          (hsource place hne fun hw ↦ hnot (names_cons.mpr (Or.inr hw))) ?_
        exact (names_cons.mp hgone).resolve_left fun hs ↦
          hne (Option.some.inj (hs.symm.trans hold))
    · have hne : place ≠ old := by
        rintro rfl
        exact hkept (names_cons.mpr (Or.inl hold))
      rw [hget place hnot, if_neg hne]
      exact h.kept place (hsource place hne fun hw ↦ hnot (names_cons.mpr (Or.inr hw)))
        fun hr ↦ hkept (names_cons.mpr (Or.inr hr))
  · exact absurd (Prod.mk.inj (hrename.symm.trans heq)).1 (by simp)

end Edited

/-! ### What is read afterwards -/

/-- No file is found under both paths. -/
def Apart (d : Disk) (path other : String) : Prop :=
  d.contents? other = none ∨ d.locate? path ≠ d.locate? other

theorem apart_iff {other : String} : d.Apart path other ↔
    ∀ place content, d.placeOf? other = some place → d.get? place = some (.file content) →
      d.placeOf? path ≠ some place := by
  constructor
  · intro hapart place content hplace hfile hpath
    have hthere : (d.get? place).isSome = true := by rw [hfile]; rfl
    rcases hapart with hnone | hne
    · rw [contents?_eq_some_iff.mpr ⟨place, hplace, hfile⟩] at hnone
      exact absurd hnone (by simp)
    · rw [locate?_of_placeOf? hplace hthere, locate?_of_placeOf? hpath hthere] at hne
      exact hne rfl
  · intro hall
    cases hcontent : d.contents? other with
    | none => exact Or.inl hcontent
    | some content =>
      obtain ⟨place, hplace, hfile⟩ := contents?_eq_some_iff.mp hcontent
      refine Or.inr fun hsame ↦ hall place content hplace hfile (placeOf?_of_locate? ?_)
      rw [hsame]
      exact locate?_of_placeOf? hplace (by rw [hfile]; rfl)

/-- After removals a path reads as before exactly if it found no file that has been removed. -/
theorem Edited.contents?_eq_iff (h : d.Edited d' [] removed) :
    d'.contents? path = d.contents? path ↔ ∀ p ∈ removed, d.Apart p path := by
  have hnot : ∀ place, ¬ d.Names [] place := by
    rintro place ⟨_, hp, -⟩
    exact absurd hp (by simp)
  simp only [apart_iff]
  constructor
  · intro heq p hp place content hplace hfile hpath
    have hgone : d'.get? place = none :=
      h.gone place (by rw [isFolder, hfile]; rfl) (hnot place) ⟨p, hp, hpath⟩
    rw [contents?_eq_some_iff.mpr ⟨place, hplace, hfile⟩, contents?_eq_some_iff] at heq
    obtain ⟨found, hfound, hthere⟩ := heq
    rw [h.folders.placeOf?_eq, hplace] at hfound
    obtain rfl := Option.some.inj hfound
    exact absurd (hgone.symm.trans hthere) (by simp)
  · intro hall
    ext content
    rw [contents?_eq_some_iff, contents?_eq_some_iff]
    simp only [h.folders.placeOf?_eq]
    constructor
    · rintro ⟨place, hplace, hfile⟩
      refine ⟨place, hplace, ?_⟩
      have hfolder : d.isFolder place = false := by
        rw [← h.folders.isFolder_eq, isFolder, hfile]
        rfl
      by_cases hr : d.Names removed place
      · rw [h.gone place hfolder (hnot place) hr] at hfile
        exact absurd hfile (by simp)
      · rw [← h.kept place (hnot place) hr]
        exact hfile
    · rintro ⟨place, hplace, hfile⟩
      have hr : ¬ d.Names removed place := by
        rintro ⟨p, hp, hpath⟩
        exact hall p hp place content hplace hfile hpath
      exact ⟨place, hplace, (h.kept place (hnot place) hr).trans hfile⟩

end ClassMap.Disk
