import ClassMap.Proofs.Files.Places

/-!
Making folders. However many of the missing folders are made, nothing that was there is touched, and
a path that was read before is read as before. New folders can only open a way: a path that goes
through one of them and back may then find a file that it did not find before.
-/

set_option autoImplicit false
set_option relaxedAutoImplicit false

namespace ClassMap.Disk

variable {d d' d'' : Disk} {place : Location} {path : String} {segments : List String}
  {content : Bytes} {count : Nat}

/-- A disk with folders added, and nothing else. -/
structure Grows (d d' : Disk) : Prop where
  current : d'.current = d.current
  get?_cases : ∀ place, d'.get? place = d.get? place ∨
    (d.get? place = none ∧ d'.get? place = some .folder)

namespace Grows

theorem refl (d : Disk) : d.Grows d :=
  ⟨rfl, fun _ ↦ Or.inl rfl⟩

theorem trans (h : d.Grows d') (h' : d'.Grows d'') : d.Grows d'' := by
  refine ⟨h'.current.trans h.current, fun place ↦ ?_⟩
  rcases h'.get?_cases place with hsame | ⟨hnone, hfolder⟩
  · rw [hsame]
    exact h.get?_cases place
  · rcases h.get?_cases place with hsame | ⟨-, hthere⟩
    · exact Or.inr ⟨hsame.symm.trans hnone, hfolder⟩
    · exact absurd (hnone.symm.trans hthere) (by simp)

/-- A folder at a place where nothing is. -/
theorem put (hnone : d.get? place = none) : d.Grows (d.put place .folder) := by
  have hroot : place ≠ #[] := by
    rintro rfl
    exact absurd (hnone.symm.trans d.get?_root) (by simp)
  refine ⟨current_put d place .folder, fun other ↦ ?_⟩
  by_cases heq : other = place
  · rw [heq]
    exact Or.inr ⟨hnone, get?_put_self d place .folder hroot⟩
  · exact Or.inl (get?_put_of_ne d .folder heq)

theorem get?_eq_some (h : d.Grows d') {item : Item} (hitem : d.get? place = some item) :
    d'.get? place = some item := by
  rcases h.get?_cases place with hsame | ⟨hnone, -⟩
  · exact hsame.trans hitem
  · exact absurd (hnone.symm.trans hitem) (by simp)

theorem keepsFolders (h : d.Grows d') : d.KeepsFolders d' :=
  ⟨h.current, fun _ hfolder ↦ isFolder_iff.mpr (h.get?_eq_some (isFolder_iff.mp hfolder))⟩

theorem contents?_eq_some (h : d.Grows d') (hcontent : d.contents? path = some content) :
    d'.contents? path = some content := by
  obtain ⟨place, hplace, hfile⟩ := contents?_eq_some_iff.mp hcontent
  exact contents?_eq_some_iff.mpr
    ⟨place, h.keepsFolders.placeOf? hplace, h.get?_eq_some hfile⟩

/-- A path that has led somewhere has read what it reads when there are more folders. -/
theorem contents?_of_exists? (h : d.Grows d') (hthere : d.exists? path = true)
    (hcontent : d'.contents? path = some content) : d.contents? path = some content := by
  obtain ⟨item, hitem⟩ := Option.isSome_iff_exists.mp hthere
  rw [itemAt?_eq] at hitem
  obtain ⟨place, hplace, hget⟩ := Option.bind_eq_some_iff.mp hitem
  obtain ⟨place', hplace', hfile⟩ := contents?_eq_some_iff.mp hcontent
  obtain rfl : place = place' :=
    Option.some.inj ((h.keepsFolders.placeOf? hplace).symm.trans hplace')
  rw [h.get?_eq_some hget] at hfile
  exact contents?_eq_some_iff.mpr ⟨place, hplace, hget.trans hfile⟩

/-- A path that reads the same on two disks does so on every disk between them. -/
theorem contents?_eq_of_between (h : d.Grows d') (h' : d'.Grows d'')
    (heq : d''.contents? path = d.contents? path) : d'.contents? path = d.contents? path := by
  ext content
  constructor
  · intro hcontent
    rw [← heq]
    exact h'.contents?_eq_some hcontent
  · exact h.contents?_eq_some

end Grows

/-! ### Folders that are not all made -/

/-- Goes on from a place and makes so many of the folders that are not there yet, and no more. -/
def makeAlongUpTo (count : Nat) (d : Disk) (place : Location) : List String → Disk
  | [] => d
  | segment :: rest =>
    match d.step? place segment with
    | some next => makeAlongUpTo count d next rest
    | none =>
      if d.isFolder place && isValidName segment && !isDot rest && 0 < count then
        makeAlongUpTo (count - 1) (d.put (place.push segment) .folder) (place.push segment) rest
      else d

/-- Makes so many of the folders that a path asks for, and no more. -/
def makeFoldersUpTo (count : Nat) (path : String) (d : Disk) : Disk :=
  if path.isEmpty then d
  else if Path.isUsable path then makeAlongUpTo count d (d.start path) (Path.segments path)
  else d

/-- Only a name leads nowhere from a folder. -/
theorem isName_of_step? {segment : String} (hstep : d.step? place segment = none)
    (hfolder : d.isFolder place = true) : isName segment = true := by
  by_contra hnot
  have hthere : d.step? place segment = some (stepPlace place segment) :=
    step?_eq_some_iff.mpr ⟨hfolder, rfl, fun h ↦ absurd h hnot⟩
  exact absurd (hstep.symm.trans hthere) (by simp)

/-- A name that leads nowhere from a folder is free there. -/
theorem get?_push_of_step? {segment : String} (hstep : d.step? place segment = none)
    (hfolder : d.isFolder place = true) : d.get? (place.push segment) = none := by
  have hname := isName_of_step? hstep hfolder
  by_contra hthere
  have hthere : d.step? place segment = some (place.push segment) :=
    step?_eq_some_iff.mpr
      ⟨hfolder, stepPlace_of_isName place hname, fun _ ↦ Option.isSome_iff_ne_none.mpr hthere⟩
  exact absurd (hstep.symm.trans hthere) (by simp)

theorem grows_makeAlong (d : Disk) (place : Location) (segments : List String) :
    d.Grows (d.makeAlong place segments).2 := by
  induction segments generalizing d place with
  | nil => exact .refl d
  | cons segment rest ih =>
    rw [makeAlong]
    cases hstep : d.step? place segment with
    | some next => exact ih d next
    | none =>
      by_cases hmake : (d.isFolder place && isValidName segment && !isDot rest) = true
      · simp only [hmake, if_true]
        rw [Bool.and_eq_true, Bool.and_eq_true] at hmake
        exact (Grows.put (get?_push_of_step? hstep hmake.1.1)).trans (ih _ _)
      · simp only [hmake, Bool.false_eq_true, if_false]
        exact .refl d

/-- The folders made before a failure are some of those that are made without it. -/
theorem grows_makeAlongUpTo (count : Nat) (d : Disk) (place : Location) (segments : List String) :
    d.Grows (d.makeAlongUpTo count place segments) ∧
      (d.makeAlongUpTo count place segments).Grows (d.makeAlong place segments).2 := by
  induction segments generalizing count d place with
  | nil => exact ⟨.refl d, .refl d⟩
  | cons segment rest ih =>
    have hall := grows_makeAlong d place (segment :: rest)
    rw [makeAlong] at hall
    rw [makeAlong, makeAlongUpTo]
    cases hstep : d.step? place segment with
    | some next => exact ih count d next
    | none =>
      simp only [hstep] at hall
      by_cases hmake : (d.isFolder place && isValidName segment && !isDot rest) = true
      · simp only [hmake, if_true, Bool.true_and, decide_eq_true_eq] at hall ⊢
        rw [Bool.and_eq_true, Bool.and_eq_true] at hmake
        have hput := Grows.put (get?_push_of_step? hstep hmake.1.1)
        split
        · obtain ⟨hfirst, hlast⟩ := ih (count - 1) (d.put (place.push segment) .folder)
            (place.push segment)
          exact ⟨hput.trans hfirst, hlast⟩
        · exact ⟨.refl d, hall⟩
      · simp only [hmake, Bool.false_and, Bool.false_eq_true, if_false]
        exact ⟨.refl d, .refl d⟩

theorem makeAlongUpTo_eq (d : Disk) (place : Location) (h : segments.length ≤ count) :
    d.makeAlongUpTo count place segments = (d.makeAlong place segments).2 := by
  induction segments generalizing count d place with
  | nil => rfl
  | cons segment rest ih =>
    rw [List.length_cons] at h
    rw [makeAlong, makeAlongUpTo]
    cases d.step? place segment with
    | some next => exact ih d next (by omega)
    | none =>
      have hcount : 0 < count := by omega
      by_cases hmake : (d.isFolder place && isValidName segment && !isDot rest) = true
      · simp only [hmake, hcount, decide_true, Bool.true_and, if_true]
        exact ih _ _ (by omega)
      · simp only [hmake, Bool.false_and, Bool.false_eq_true, if_false]

theorem grows_makeFolders (path : String) (d : Disk) : d.Grows (d.makeFolders path).2 := by
  rw [makeFolders]
  split
  · exact .refl d
  · split
    · exact grows_makeAlong d _ _
    · exact .refl d

theorem grows_of_makeFolders (h : d.makeFolders path = (true, d')) : d.Grows d' := by
  have hgrows := grows_makeFolders path d
  rwa [h] at hgrows

theorem grows_makeFoldersUpTo (count : Nat) (path : String) (d : Disk) :
    d.Grows (d.makeFoldersUpTo count path) ∧
      (d.makeFoldersUpTo count path).Grows (d.makeFolders path).2 := by
  rw [makeFolders, makeFoldersUpTo]
  split
  · exact ⟨.refl d, .refl d⟩
  · split
    · exact grows_makeAlongUpTo count d _ _
    · exact ⟨.refl d, .refl d⟩

theorem makeFoldersUpTo_eq (path : String) (d : Disk) :
    d.makeFoldersUpTo (Path.segments path).length path = (d.makeFolders path).2 := by
  rw [makeFolders, makeFoldersUpTo]
  split
  · rfl
  · split
    · exact makeAlongUpTo_eq d _ (Nat.le_refl _)
    · rfl

end ClassMap.Disk
