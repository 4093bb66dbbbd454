import ClassMap.Proofs.Files.Edits
import ClassMap.Proofs.Files.Folders
import ClassMap.Proofs.Files.Parents

/-!
Disks on which everything is in a folder, under a name that a path can have in it. Writing keeps
this, and on such a disk the names on the way to an item, put behind a path to where the way begins,
lead to that item.
-/

set_option autoImplicit false
set_option relaxedAutoImplicit false

namespace ClassMap.Disk

variable {d d' : Disk} {place folder : Location} {path name : String} {item : Item}
  {entry : Location × Item} {segments names : List String} {content : Bytes}

/-- Everything on a disk is in a folder, and has a name that is no way to go on or back. -/
def Sound (d : Disk) : Prop :=
  ∀ entry ∈ d.items, entry.1.back?.any Path.isEntryName = true ∧ d.isFolder entry.1.pop = true

instance (d : Disk) : Decidable d.Sound :=
  inferInstanceAs (Decidable (∀ _ ∈ d.items, _))

theorem sound_iff : d.Sound ↔ ∀ entry ∈ d.items, ∃ folder name, entry.1 = folder.push name ∧
    d.isFolder folder = true ∧ Path.isEntryName name = true := by
  refine forall₂_congr fun entry _ ↦ ?_
  rw [Option.any_eq_true]
  constructor
  · rintro ⟨⟨name, hback, hname⟩, hfolder⟩
    obtain ⟨folder, hentry⟩ := Array.back?_eq_some_iff.mp hback
    rw [hentry, Array.pop_push] at hfolder
    exact ⟨folder, name, hentry, hfolder, hname⟩
  · rintro ⟨folder, name, hentry, hfolder, hname⟩
    rw [hentry, Array.pop_push, Array.back?_push]
    exact ⟨⟨name, rfl, hname⟩, hfolder⟩

theorem mem_items_of_get? (h : d.get? place = some item) (hroot : place ≠ #[]) :
    (place, item) ∈ d.items := by
  rw [get?, if_neg hroot] at h
  obtain ⟨before, after, hitems, -⟩ := List.lookup_eq_some_iff.mp h
  rw [hitems]
  simp

theorem isSome_get?_of_mem (h : entry ∈ d.items) : (d.get? entry.1).isSome = true := by
  rw [get?]
  split
  case isTrue => rfl
  case isFalse =>
    rw [Option.isSome_iff_ne_none]
    intro hnone
    have hne := List.lookup_eq_none_iff.mp hnone entry h
    simp at hne

theorem mem_putIn {items : List (Location × Item)} (h : entry ∈ putIn place item items) :
    entry = (place, item) ∨ entry ∈ items := by
  induction items with
  | nil => exact Or.inl (List.mem_singleton.mp h)
  | cons first rest ih =>
    rw [putIn] at h
    split at h
    all_goals rcases List.mem_cons.mp h with rfl | hrest
    · exact Or.inl rfl
    · exact Or.inr (List.mem_cons_of_mem _ hrest)
    · exact Or.inr List.mem_cons_self
    · exact (ih hrest).imp_right (List.mem_cons_of_mem _)

theorem isFolder_put (hfree : d.isFolder place = false) (item : Item)
    (hfolder : d.isFolder folder = true) : (d.put place item).isFolder folder = true := by
  have hne : folder ≠ place := by
    rintro rfl
    exact Bool.noConfusion (hfree.symm.trans hfolder)
  rw [isFolder, get?_put_of_ne d item hne]
  exact hfolder

/-- The place of a file is in a folder, under a name. -/
theorem exists_of_filePlace? (h : d.filePlace? path = some place) :
    ∃ folder name, place = folder.push name ∧ d.isFolder folder = true ∧
      Path.isEntryName name = true ∧ (Path.segments path).getLast? = some name := by
  rw [filePlace?] at h
  split at h
  case h_1 folder segment hparent =>
    split at h
    case isTrue hname =>
      rw [Bool.and_eq_true, Bool.and_eq_true] at hname
      obtain ⟨-, -, hfolder, hlast⟩ := parentOf?_eq_some_iff.mp hparent
      have hsegment : (Path.segments path).getLast? = some segment := by
        rw [List.getLast?_eq_some_getLast (Path.segments_ne_nil path), Option.getD_some] at hlast
        rw [List.getLast?_eq_some_getLast (Path.segments_ne_nil path), hlast]
      have hslash := Path.slash_notMem_of_mem_segments (List.mem_of_getLast? hsegment)
      refine ⟨folder, segment, (Option.some.inj h).symm, hfolder, ?_, hsegment⟩
      rw [Path.isEntryName, hname.1.1]
      simpa using hslash
    case isFalse => exact absurd h (by simp)
  case h_2 => exact absurd h (by simp)

namespace Sound

theorem exists_push (h : d.Sound) (hthere : (d.get? place).isSome = true) (hroot : place ≠ #[]) :
    ∃ folder name, place = folder.push name ∧ d.isFolder folder = true ∧
      Path.isEntryName name = true := by
  obtain ⟨item, hitem⟩ := Option.isSome_iff_exists.mp hthere
  exact sound_iff.mp h _ (mem_items_of_get? hitem hroot)

/-- The names on the way from one place to another that something is at lead there. -/
theorem follow? (h : d.Sound) (hthere : (d.get? (place ++ names.toArray)).isSome = true) :
    (∀ n ∈ names, Path.isEntryName n = true) ∧
      d.follow? place names = some (place ++ names.toArray) := by
  induction names using List.reverseRecOn with
  | nil => exact ⟨by simp, by simp [Disk.follow?]⟩
  | append_singleton first last ih =>
    have hpush : place ++ (first ++ [last]).toArray = (place ++ first.toArray).push last := by
      simp
    rw [hpush] at hthere ⊢
    obtain ⟨folder, name, hplace, hfolder, hname⟩ := h.exists_push hthere (by simp)
    obtain ⟨rfl, rfl⟩ := Array.push_eq_push.mp hplace
    obtain ⟨hfirst, hfollow⟩ := ih (by rw [isFolder_iff.mp hfolder]; rfl)
    refine ⟨fun n hn ↦ ?_, ?_⟩
    · rcases List.mem_append.mp hn with hn | hn
      · exact hfirst n hn
      · rw [List.mem_singleton.mp hn]
        exact hname
    · have hstep : d.step? (place ++ first.toArray) last =
          some ((place ++ first.toArray).push last) :=
        step?_eq_some_iff.mpr ⟨hfolder, stepPlace_of_isName _ (Path.isName_of_isEntryName hname),
          fun _ ↦ hthere⟩
      rw [Disk.follow?, List.foldlM_append]
      exact Option.bind_eq_some_iff.mpr
        ⟨_, hfollow, Option.bind_eq_some_iff.mpr ⟨_, hstep, rfl⟩⟩

theorem put (h : d.Sound) (hfolder : d.isFolder folder = true)
    (hname : Path.isEntryName name = true) (hfree : d.isFolder (folder.push name) = false)
    (item : Item) : (d.put (folder.push name) item).Sound := by
  refine sound_iff.mpr fun entry hentry ↦ ?_
  rcases mem_putIn hentry with rfl | hbefore
  · exact ⟨folder, name, rfl, isFolder_put hfree item hfolder, hname⟩
  · obtain ⟨folder', name', hplace, hfolder', hname'⟩ := sound_iff.mp h entry hbefore
    exact ⟨folder', name', hplace, isFolder_put hfree item hfolder', hname'⟩

theorem erase (h : d.Sound) (hplace : d.isFolder place = false) : (d.erase place).Sound := by
  refine sound_iff.mpr fun entry hentry ↦ ?_
  obtain ⟨folder, name, hentry', hfolder, hname⟩ :=
    sound_iff.mp h entry (List.mem_filter.mp hentry).1
  exact ⟨folder, name, hentry', ((sameFolders_erase hplace).isFolder_eq folder).trans hfolder, hname⟩

theorem makeAlong (h : d.Sound) (hsegments : ∀ s ∈ segments, '/' ∉ s.toList) :
    (d.makeAlong place segments).2.Sound := by
  induction segments generalizing d place with
  | nil => exact h
  | cons segment rest ih =>
    obtain ⟨hslash, hrest⟩ := List.forall_mem_cons.mp hsegments
    rw [Disk.makeAlong]
    split
    case h_1 => exact ih h hrest
    case h_2 hstep =>
      split
      case isTrue hmake =>
        have hfolder := (Bool.and_eq_true_iff.mp (Bool.and_eq_true_iff.mp hmake).1).1
        have hname : Path.isEntryName segment = true := by
          rw [Path.isEntryName, isName_of_step? hstep hfolder]
          simpa using hslash
        refine ih (h.put hfolder hname ?_ .folder) hrest
        rw [isFolder, get?_push_of_step? hstep hfolder]
        rfl
      case isFalse => exact h

theorem makeFolders (h : d.Sound) (path : String) : (d.makeFolders path).2.Sound := by
  rw [Disk.makeFolders]
  split
  · exact h
  · split
    · exact h.makeAlong fun s hs ↦ Path.slash_notMem_of_mem_segments hs
    · exact h

theorem of_makeFolders (h : d.Sound) (hmade : d.makeFolders path = (true, d')) : d'.Sound := by
  have hsound := h.makeFolders path
  rwa [hmade] at hsound

theorem writeFile (h : d.Sound) (path : String) (content : Bytes) :
    (d.writeFile path content).2.Sound := by
  rcases writeFile_cases d path content with ⟨place, hplace, heq⟩ | ⟨-, heq⟩
  · obtain ⟨folder, name, rfl, hfolder, hname, -⟩ := exists_of_filePlace? hplace
    rw [heq]
    exact h.put hfolder hname (placeOf?_of_filePlace? hplace).2 _
  · rw [heq]
    exact h

theorem renameFile (h : d.Sound) (source target : String) :
    (d.renameFile source target).2.Sound := by
  rcases renameFile_cases d source target with
    ⟨old, place, content, -, hfile, hplace, heq⟩ | ⟨-, heq⟩
  · obtain ⟨folder, name, rfl, hfolder, hname, -⟩ := exists_of_filePlace? hplace
    have hold : d.isFolder old = false := by rw [isFolder, hfile]; rfl
    have herase := sameFolders_erase hold
    rw [heq]
    exact (h.erase hold).put ((herase.isFolder_eq folder).trans hfolder) hname
      ((herase.isFolder_eq _).trans (placeOf?_of_filePlace? hplace).2) _
  · rw [heq]
    exact h

end Sound

end ClassMap.Disk
