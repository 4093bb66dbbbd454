import ClassMap.Proofs.Files.Sound
import ClassMap.Proofs.Output.Written

/-!
What writing leaves alone. The two documents are staged under names that no declarations are read
from, and a run that succeeds changes nothing on the disk but what is at the four places that it
writes and moves files at.
-/

set_option autoImplicit false
set_option relaxedAutoImplicit false

namespace ClassMap

open Disk

variable {d d' : Disk} {place : Location} {path name : String} {item : Item}
  {documents : Documents} {paths : OutputPaths}

/-! ### Staging names -/

/-- The last name of a staging path. -/
def stagingName (path : String) : String :=
  "." ++ (Path.fileName? path).getD "" ++ ".tmp"

theorem toList_stagingName (path : String) : (stagingName path).toList =
    '.' :: ((Path.fileName? path).getD "").toList ++ ['.', 't', 'm', 'p'] := by
  rw [stagingName, String.toList_append, String.toList_append]
  rfl

theorem isEntryName_stagingName (path : String) : Path.isEntryName (stagingName path) = true := by
  have hlength : 5 ≤ (stagingName path).toList.length := by
    rw [toList_stagingName]
    simp
  have hlong : ∀ short : String, short.toList.length < 5 → (stagingName path != short) = true := by
    intro short hshort
    rw [bne_iff_ne]
    rintro heq
    rw [heq] at hlength
    omega
  have hfile : '/' ∉ ((Path.fileName? path).getD "").toList := by
    cases hname : Path.fileName? path with
    | none => simp
    | some name => exact Path.slash_notMem_of_fileName? hname
  have hslash : (stagingName path).toList.contains '/' = false := by
    rw [toList_stagingName]
    simpa using hfile
  rw [Path.isEntryName, isName, hlong "" (by decide), hlong "." (by decide),
    hlong ".." (by decide), hslash]
  rfl

theorem getLast?_segments_stagingPath (path : String) :
    (Path.segments (stagingPath path)).getLast? = some (stagingName path) := by
  have hslash := Path.slash_notMem (isEntryName_stagingName path)
  rw [stagingPath, Path.withFileName]
  split
  · exact Path.getLast?_segments_join _ hslash
  · exact Path.getLast?_segments_join _ hslash

/-- No declarations are looked for in a file that is being staged. -/
theorem isXml_stagingName (h : Path.fileName? name = some (stagingName path)) :
    Project.isXml name = false := by
  have hcut : Text.cut? '.' (stagingName path).toList.reverse =
      some (['p', 'm', 't'], ((Path.fileName? path).getD "").toList.reverse ++ ['.']) := by
    refine Text.cut?_eq_some_iff.mpr ⟨?_, by decide⟩
    rw [toList_stagingName]
    simp
  have hcutName : (Path.cutName (stagingName path)).2 = some "tmp" := by
    rw [Path.cutName, hcut]
    simp
  have hextension : Path.extension? name = some "tmp" := by
    rw [Path.extension?, h, Option.bind_some, hcutName]
  rw [Project.isXml, hextension]
  decide +kernel

theorem exists_push_stagingName (h : d.Names paths.stagings place) :
    ∃ (folder : Location) (path : String), place = folder.push (stagingName path) := by
  obtain ⟨staged, hstaged, hplace⟩ := h
  obtain ⟨path, rfl⟩ : ∃ path, staged = stagingPath path := by
    simp only [OutputPaths.stagings, List.mem_cons, List.not_mem_nil, or_false] at hstaged
    rcases hstaged with rfl | rfl <;> exact ⟨_, rfl⟩
  obtain ⟨⟨folder, segment⟩, hparent, rfl⟩ := Option.map_eq_some_iff.mp hplace
  have hsegment := (parentOf?_eq_some_iff.mp hparent).2.2.2
  rw [getLast?_segments_stagingPath, Option.getD_some] at hsegment
  rw [← hsegment]
  exact ⟨folder, path, stepPlace_of_isName folder
    (Path.isName_of_isEntryName (isEntryName_stagingName path))⟩

/-! ### What is listed on a disk -/

section Items

variable {β : Type} {f : Location × Item → Option β} {items : List (Location × Item)}

theorem filterMap_putIn (hold : ∀ entry ∈ items, entry.1 = place → f entry = none)
    (hnew : f (place, item) = none) : (putIn place item items).filterMap f = items.filterMap f := by
  induction items with
  | nil => simp [putIn, hnew]
  | cons first rest ih =>
    obtain ⟨hfirst, hrest⟩ := List.forall_mem_cons.mp hold
    rw [putIn]
    split
    case isTrue heq => rw [List.filterMap_cons_none hnew, List.filterMap_cons_none (hfirst heq)]
    case isFalse => rw [List.filterMap_cons, List.filterMap_cons, ih hrest]

theorem filterMap_filter_ne (hold : ∀ entry ∈ items, entry.1 = place → f entry = none) :
    (items.filter (·.1 != place)).filterMap f = items.filterMap f := by
  induction items with
  | nil => rfl
  | cons first rest ih =>
    obtain ⟨hfirst, hrest⟩ := List.forall_mem_cons.mp hold
    rw [List.filter_cons]
    split
    case isTrue => rw [List.filterMap_cons, List.filterMap_cons, ih hrest]
    case isFalse heq =>
      rw [List.filterMap_cons_none (hfirst (by simpa using heq)), ih hrest]

/-- New folders do not show where only files do. -/
theorem filterMap_makeAlong (hfolder : ∀ place, f (place, .folder) = none) (d : Disk)
    (place : Location) (segments : List String) :
    (d.makeAlong place segments).2.items.filterMap f = d.items.filterMap f := by
  induction segments generalizing d place with
  | nil => rfl
  | cons segment rest ih =>
    rw [makeAlong]
    split
    case h_1 next _ => exact ih d next
    case h_2 hstep =>
      split
      case isTrue hmake =>
        have hplace := (Bool.and_eq_true_iff.mp (Bool.and_eq_true_iff.mp hmake).1).1
        have hnone := get?_push_of_step? hstep hplace
        refine (ih _ _).trans (filterMap_putIn (fun entry hentry heq ↦ ?_) (hfolder _))
        have hthere := isSome_get?_of_mem hentry
        rw [heq, hnone] at hthere
        exact absurd hthere (by simp)
      case isFalse => rfl

theorem filterMap_makeFolders (hfolder : ∀ place, f (place, .folder) = none) (path : String)
    (d : Disk) : (d.makeFolders path).2.items.filterMap f = d.items.filterMap f := by
  rw [makeFolders]
  split
  · rfl
  · split
    · exact filterMap_makeAlong hfolder d _ _
    · rfl

theorem filterMap_writeFile {content : Bytes} (h : d.writeFile path content = (true, d'))
    (hnone : ∀ place item, d.placeOf? path = some place → f (place, item) = none) :
    d'.items.filterMap f = d.items.filterMap f := by
  obtain ⟨place, hplace, rfl⟩ := writeFile_eq_true_iff.mp h
  have hpath := (placeOf?_of_filePlace? hplace).1
  refine filterMap_putIn (fun entry _ heq ↦ ?_) (hnone place _ hpath)
  exact hnone entry.1 entry.2 (heq ▸ hpath)

theorem filterMap_renameFile {source target : String}
    (h : d.renameFile source target = (true, d'))
    (hsource : ∀ place item, d.placeOf? source = some place → f (place, item) = none)
    (htarget : ∀ place item, d.placeOf? target = some place → f (place, item) = none) :
    d'.items.filterMap f = d.items.filterMap f := by
  obtain ⟨old, place, content, hold, -, hplace, rfl⟩ := exists_of_renameFile h
  have hpath := (placeOf?_of_filePlace? hplace).1
  refine (filterMap_putIn (fun entry _ heq ↦ ?_) (htarget place _ hpath)).trans
    (filterMap_filter_ne fun entry _ heq ↦ ?_)
  · exact htarget entry.1 entry.2 (heq ▸ hpath)
  · exact hsource entry.1 entry.2 (heq ▸ hold)

/-- Where the four places do not show, nothing has changed. -/
theorem Disk.Writes.filterMap_items (h : d.Writes documents paths d')
    (hnone : ∀ place item, d.Names (paths.all ++ paths.stagings) place → f (place, item) = none) :
    d'.items.filterMap f = d.items.filterMap f := by
  obtain ⟨d₁, d₂, d₃, hdescriptor, hschema, hplace, hlast⟩ := h
  obtain ⟨-, -, hfolders₁, -⟩ := writeFile_spec hdescriptor
  obtain ⟨-, -, hfolders₂, -⟩ := writeFile_spec hschema
  obtain ⟨-, -, -, -, -, -, hfolders₃, -⟩ := renameFile_spec hplace
  have hpaths : ∀ {e : Disk}, d.SameFolders e → ∀ p ∈ paths.all ++ paths.stagings,
      ∀ place item, e.placeOf? p = some place → f (place, item) = none :=
    fun hsame p hp place item hat ↦ hnone place item ⟨p, hp, (hsame.placeOf?_eq p).symm.trans hat⟩
  have h₂ := hfolders₁.trans hfolders₂
  have h₃ := h₂.trans hfolders₃
  rw [filterMap_renameFile hlast (hpaths h₃ _ (by simp [OutputPaths.stagings]))
      (hpaths h₃ _ (by simp [OutputPaths.all])),
    filterMap_renameFile hplace (hpaths h₂ _ (by simp [OutputPaths.stagings]))
      (hpaths h₂ _ (by simp [OutputPaths.all])),
    filterMap_writeFile hschema (hpaths hfolders₁ _ (by simp [OutputPaths.stagings])),
    filterMap_writeFile hdescriptor (hpaths (.refl d) _ (by simp [OutputPaths.stagings]))]

end Items

theorem Disk.Writes.sound (h : d.Writes documents paths d') (hsound : d.Sound) : d'.Sound := by
  obtain ⟨d₁, d₂, d₃, hdescriptor, hschema, hplace, hlast⟩ := h
  have h₁ := hsound.writeFile (stagingPath paths.descriptor) documents.descriptor
  rw [hdescriptor] at h₁
  have h₂ := h₁.writeFile (stagingPath paths.schema) documents.schema
  rw [hschema] at h₂
  have h₃ := h₂.renameFile (stagingPath paths.descriptor) paths.descriptor
  rw [hplace] at h₃
  have h₄ := h₃.renameFile (stagingPath paths.schema) paths.schema
  rw [hlast] at h₄
  exact h₄

end ClassMap
