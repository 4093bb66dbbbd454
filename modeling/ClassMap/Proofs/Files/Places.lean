import Mathlib.Data.List.Basic
import ClassMap.Files.Disk

/-!
Where paths lead. A path denotes a place as soon as the folders on its way are there, whether or not
anything is at the place itself; so what a path denotes changes with the folders of a disk only, and
what is read through it is what stands at that place.
-/

set_option autoImplicit false
set_option relaxedAutoImplicit false

namespace ClassMap

theorem Path.segments_ne_nil (path : String) : Path.segments path ≠ [] := by
  intro hnil
  have hlength : (Text.pieces '/' path.toList).length = 0 := by
    simpa [segments] using hnil
  rw [Text.length_pieces] at hlength
  omega

namespace Disk

variable {d d' d'' : Disk} {place other folder : Location} {path segment : String}
  {segments : List String} {item : Item} {content : Bytes}

/-! ### What is at a place -/

theorem lookup_filter_ne (items : List (Location × Item)) (place other : Location) :
    (items.filter fun entry ↦ entry.1 != place).lookup other =
      if other = place then none else items.lookup other := by
  induction items with
  | nil => simp
  | cons entry rest ih =>
    obtain ⟨at', present⟩ := entry
    by_cases hkept : at' = place
    · rw [List.filter_cons_of_neg (by simp [hkept]), ih, List.lookup_cons]
      by_cases hother : other = place
      · simp [hother]
      · have hne : (other == at') = false := by simpa [hkept] using hother
        simp [hne]
    · rw [List.filter_cons_of_pos (by simpa using hkept), List.lookup_cons, List.lookup_cons, ih]
      by_cases hother : other = place
      · have hne : (place == at') = false := by simpa using fun h : place = at' ↦ hkept h.symm
        simp [hother, hne]
      · simp [hother]

theorem get?_erase (d : Disk) (place other : Location) :
    (d.erase place).get? other = if other = place ∧ other ≠ #[] then none else d.get? other := by
  simp only [get?, erase, lookup_filter_ne]
  by_cases hroot : other = #[]
  · simp [hroot]
  · simp [hroot]

theorem get?_root (d : Disk) : d.get? #[] = some .folder := by
  simp [get?]

theorem isFolder_iff : d.isFolder place = true ↔ d.get? place = some .folder := by
  simp [isFolder]

theorem ne_root_of_isFolder_eq_false (h : d.isFolder place = false) : place ≠ #[] := by
  rintro rfl
  rw [isFolder_iff.mpr d.get?_root] at h
  exact Bool.noConfusion h

/-! ### The place of a path -/

/-- The place that one step of a path denotes, whether anything is there or not. -/
def stepPlace (folder : Location) (segment : String) : Location :=
  if segment == "" || segment == "." then folder
  else if segment == ".." then folder.pop
  else folder.push segment

/-- The place that a path denotes, whether anything is there or not. -/
def placeOf? (d : Disk) (path : String) : Option Location :=
  (d.parentOf? path).map fun (folder, segment) ↦ stepPlace folder segment

theorem stepPlace_of_isName (folder : Location) (h : isName segment = true) :
    stepPlace folder segment = folder.push segment := by
  simp only [isName, bne_iff_ne, Bool.and_eq_true, ne_eq] at h
  simp [stepPlace, h]

/-- A step needs something at its end only if the segment is a name. -/
theorem step?_eq_some_iff :
    d.step? folder segment = some place ↔ d.isFolder folder = true ∧
      stepPlace folder segment = place ∧ (isName segment = true → (d.get? place).isSome = true) := by
  rw [step?, stepPlace]
  cases d.isFolder folder with
  | false => simp
  | true =>
    by_cases hstay : (segment == "" || segment == ".") = true
    · have hname : isName segment = false := by
        rcases Bool.or_eq_true_iff.mp hstay with h | h <;> simp [isName, eq_of_beq h]
      simp [hstay, hname]
    · by_cases hup : segment = ".."
      · simp [hup, isName]
      · have hname : isName segment = true := by
          rw [Bool.or_eq_true_iff, beq_iff_eq, beq_iff_eq, not_or] at hstay
          simp [isName, hstay, hup]
        by_cases hthere : (d.get? (folder.push segment)).isSome = true
        · simp only [hstay, hup, hname, hthere, Bool.not_true, Bool.false_eq_true, if_false,
            if_true, beq_iff_eq, Option.some_inj, true_and, true_implies]
          exact ⟨fun h ↦ ⟨h, h ▸ hthere⟩, fun h ↦ h.1⟩
        · simp only [hstay, hup, hname, hthere, Bool.not_true, Bool.false_eq_true, if_false,
            beq_iff_eq, true_and, true_implies, reduceCtorEq, false_iff, not_and]
          rintro rfl
          exact hthere

theorem follow?_eq (d : Disk) (place : Location) (h : segments ≠ []) :
    d.follow? place segments =
      (d.follow? place segments.dropLast).bind fun folder ↦ d.step? folder (segments.getLast h) := by
  conv_lhs => rw [follow?, ← List.dropLast_append_getLast h, List.foldlM_append]
  simp [follow?, List.foldlM_cons]

theorem parentOf?_eq_some_iff :
    d.parentOf? path = some (folder, segment) ↔ Path.isUsable path = true ∧
      d.follow? (d.start path) (Path.segments path).dropLast = some folder ∧
      d.isFolder folder = true ∧ (Path.segments path).getLast?.getD "" = segment := by
  rw [parentOf?]
  by_cases husable : Path.isUsable path = true
  · simp only [husable, if_true, true_and]
    cases d.follow? (d.start path) (Path.segments path).dropLast with
    | none => simp
    | some found =>
      by_cases hfound : d.isFolder found = true
      · simp only [Option.bind_eq_bind, Option.bind_some, hfound, if_true, Option.some_inj,
          Prod.mk.injEq]
        exact ⟨fun h ↦ ⟨h.1, h.1 ▸ hfound, h.2⟩, fun h ↦ ⟨h.1, h.2.2⟩⟩
      · simp only [Option.bind_eq_bind, Option.bind_some, hfound, Bool.false_eq_true, if_false,
          Option.some_inj, reduceCtorEq, false_iff, not_and]
        rintro rfl hfolder
        exact absurd hfolder hfound
  · simp [husable]

/-- A path goes on by one step from the folder it ends in. -/
theorem locate?_eq_some_iff :
    d.locate? path = some place ↔ ∃ folder segment, d.parentOf? path = some (folder, segment) ∧
      d.step? folder segment = some place := by
  have hne := Path.segments_ne_nil path
  have hlast : (Path.segments path).getLast?.getD "" = (Path.segments path).getLast hne := by
    rw [List.getLast?_eq_some_getLast hne, Option.getD_some]
  simp only [parentOf?_eq_some_iff, hlast]
  rw [locate?]
  constructor
  · intro h
    split at h
    case isTrue husable =>
      rw [follow?_eq d _ hne] at h
      obtain ⟨folder, hfollow, hstep⟩ := Option.bind_eq_some_iff.mp h
      exact ⟨folder, _, ⟨husable, hfollow, (step?_eq_some_iff.mp hstep).1, rfl⟩, hstep⟩
    case isFalse => exact absurd h (by simp)
  · rintro ⟨folder, -, ⟨husable, hfollow, -, rfl⟩, hstep⟩
    rw [if_pos husable, follow?_eq d _ hne, hfollow, Option.bind_some, hstep]

theorem placeOf?_of_locate? (h : d.locate? path = some place) : d.placeOf? path = some place := by
  obtain ⟨folder, segment, hparent, hstep⟩ := locate?_eq_some_iff.mp h
  exact Option.map_eq_some_iff.mpr ⟨_, hparent, (step?_eq_some_iff.mp hstep).2.1⟩

theorem locate?_of_placeOf? (h : d.placeOf? path = some place)
    (hthere : (d.get? place).isSome = true) : d.locate? path = some place := by
  obtain ⟨⟨folder, segment⟩, hparent, hplace⟩ := Option.map_eq_some_iff.mp h
  have hfolder := (parentOf?_eq_some_iff.mp hparent).2.2.1
  exact locate?_eq_some_iff.mpr
    ⟨folder, segment, hparent, step?_eq_some_iff.mpr ⟨hfolder, hplace, fun _ ↦ hthere⟩⟩

theorem itemAt?_eq (d : Disk) (path : String) :
    d.itemAt? path = (d.placeOf? path).bind d.get? := by
  ext item
  rw [itemAt?, Option.bind_eq_some_iff, Option.bind_eq_some_iff]
  constructor
  · intro hthere
    obtain ⟨place, hplace, hitem⟩ := hthere
    exact ⟨place, placeOf?_of_locate? hplace, hitem⟩
  · intro hthere
    obtain ⟨place, hplace, hitem⟩ := hthere
    exact ⟨place, locate?_of_placeOf? hplace (by rw [hitem]; rfl), hitem⟩

theorem contents?_eq_some_iff :
    d.contents? path = some content ↔
      ∃ place, d.placeOf? path = some place ∧ d.get? place = some (.file content) := by
  rw [contents?, itemAt?_eq, ← Option.bind_eq_some_iff]
  cases (d.placeOf? path).bind d.get? with
  | none => simp
  | some item =>
    cases item with
    | file present => simp
    | folder => simp

/-- The place of a file is what its path denotes, and no folder. -/
theorem placeOf?_of_filePlace? (h : d.filePlace? path = some place) :
    d.placeOf? path = some place ∧ d.isFolder place = false := by
  rw [filePlace?] at h
  split at h
  case h_1 folder segment hparent =>
    split at h
    case isTrue hname =>
      obtain rfl := Option.some.inj h
      rw [Bool.and_eq_true, Bool.and_eq_true, Bool.not_eq_true'] at hname
      refine ⟨?_, hname.2⟩
      rw [placeOf?, hparent]
      exact congrArg some (stepPlace_of_isName folder hname.1.1)
    case isFalse => exact absurd h (by simp)
  case h_2 => exact absurd h (by simp)

/-! ### Disks with the same folders -/

/-- Every folder of a disk is one of another. -/
structure KeepsFolders (d d' : Disk) : Prop where
  current : d'.current = d.current
  isFolder : ∀ place, d.isFolder place = true → d'.isFolder place = true

theorem KeepsFolders.refl (d : Disk) : d.KeepsFolders d :=
  ⟨rfl, fun _ ↦ id⟩

theorem KeepsFolders.trans (h : d.KeepsFolders d') (h' : d'.KeepsFolders d'') :
    d.KeepsFolders d'' :=
  ⟨h'.current.trans h.current, fun place hplace ↦ h'.isFolder place (h.isFolder place hplace)⟩

/-- A way that ends in a folder passes only folders. -/
theorem isFolder_of_follow? (h : d.follow? place segments = some folder)
    (hfolder : d.isFolder folder = true) : d.isFolder place = true := by
  cases segments with
  | nil => exact Option.some.inj h ▸ hfolder
  | cons segment rest =>
    obtain ⟨next, hstep, -⟩ := Option.bind_eq_some_iff.mp h
    exact (step?_eq_some_iff.mp hstep).1

namespace KeepsFolders

theorem step? (h : d.KeepsFolders d') (hstep : d.step? place segment = some folder)
    (hfolder : d.isFolder folder = true) : d'.step? place segment = some folder := by
  obtain ⟨hplace, hnext, -⟩ := step?_eq_some_iff.mp hstep
  have hthere : (d'.get? folder).isSome = true := by
    rw [isFolder_iff.mp (h.isFolder folder hfolder)]
    rfl
  exact step?_eq_some_iff.mpr ⟨h.isFolder place hplace, hnext, fun _ ↦ hthere⟩

theorem follow? (h : d.KeepsFolders d') (hfollow : d.follow? place segments = some folder)
    (hfolder : d.isFolder folder = true) : d'.follow? place segments = some folder := by
  induction segments generalizing place with
  | nil => exact hfollow
  | cons segment rest ih =>
    obtain ⟨next, hstep, hrest⟩ := Option.bind_eq_some_iff.mp hfollow
    exact Option.bind_eq_some_iff.mpr
      ⟨next, h.step? hstep (isFolder_of_follow? hrest hfolder), ih hrest⟩

theorem parentOf? (h : d.KeepsFolders d') (hparent : d.parentOf? path = some (folder, segment)) :
    d'.parentOf? path = some (folder, segment) := by
  obtain ⟨husable, hfollow, hfolder, hlast⟩ := parentOf?_eq_some_iff.mp hparent
  have hstart : d'.start path = d.start path := by rw [start, start, h.current]
  refine parentOf?_eq_some_iff.mpr ⟨husable, ?_, h.isFolder folder hfolder, hlast⟩
  rw [hstart]
  exact h.follow? hfollow hfolder

theorem placeOf? (h : d.KeepsFolders d') (hplace : d.placeOf? path = some place) :
    d'.placeOf? path = some place := by
  obtain ⟨⟨folder, segment⟩, hparent, rfl⟩ := Option.map_eq_some_iff.mp hplace
  rw [Disk.placeOf?, h.parentOf? hparent]
  rfl

end KeepsFolders

/-- Two disks with the same folders. -/
structure SameFolders (d d' : Disk) : Prop where
  kept : d.KeepsFolders d'
  back : d'.KeepsFolders d

namespace SameFolders

theorem of_isFolder (hcurrent : d'.current = d.current)
    (hfolder : ∀ place, d'.isFolder place = d.isFolder place) : d.SameFolders d' :=
  ⟨⟨hcurrent, fun place h ↦ (hfolder place).trans h⟩,
    ⟨hcurrent.symm, fun place h ↦ (hfolder place).symm.trans h⟩⟩

theorem refl (d : Disk) : d.SameFolders d :=
  ⟨.refl d, .refl d⟩

theorem symm (h : d.SameFolders d') : d'.SameFolders d :=
  ⟨h.back, h.kept⟩

theorem trans (h : d.SameFolders d') (h' : d'.SameFolders d'') : d.SameFolders d'' :=
  ⟨h.kept.trans h'.kept, h'.back.trans h.back⟩

theorem isFolder_eq (h : d.SameFolders d') (place : Location) :
    d'.isFolder place = d.isFolder place :=
  Bool.eq_iff_iff.mpr ⟨h.back.isFolder place, h.kept.isFolder place⟩

theorem parentOf?_eq (h : d.SameFolders d') (path : String) :
    d'.parentOf? path = d.parentOf? path := by
  ext ⟨folder, segment⟩
  exact ⟨h.back.parentOf?, h.kept.parentOf?⟩

theorem placeOf?_eq (h : d.SameFolders d') (path : String) :
    d'.placeOf? path = d.placeOf? path := by
  rw [placeOf?, placeOf?, h.parentOf?_eq]

theorem filePlace?_eq (h : d.SameFolders d') (path : String) :
    d'.filePlace? path = d.filePlace? path := by
  simp only [filePlace?, h.parentOf?_eq, h.isFolder_eq]

end SameFolders

end Disk

end ClassMap
