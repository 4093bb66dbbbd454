import ClassMap.Proofs.Output.Unreliable

/-!
What a run that goes through has written. Both documents are staged and then moved to their places,
four steps that all succeed. Whether they do depends on the folders of the disk only, and so does
what they leave: a disk with the same folders takes the same documents again, and reads the same at
the outputs afterwards (`Writes.again`).
-/

set_option autoImplicit false
set_option relaxedAutoImplicit false

namespace ClassMap

open Disk

/-- Where a document is staged that goes to a path. -/
def stagingPath (path : String) : String :=
  Path.withFileName path ("." ++ (Path.fileName? path).getD "" ++ ".tmp")

def OutputPaths.all (paths : OutputPaths) : List String :=
  [paths.descriptor, paths.schema]

def OutputPaths.stagings (paths : OutputPaths) : List String :=
  [stagingPath paths.descriptor, stagingPath paths.schema]

namespace Disk

variable {d d' e e' : Disk} {place : Location} {path source target : String}
  {paths written : List String} {content : Bytes}

/-! ### Steps that succeed -/

theorem writeFile_eq_true_iff : d.writeFile path content = (true, d') ↔
    ∃ place, d.filePlace? path = some place ∧ d' = d.put place (.file content) := by
  rcases writeFile_cases d path content with ⟨place, hplace, heq⟩ | ⟨hnone, heq⟩
  · simp [heq, hplace, eq_comm]
  · simp [heq, hnone]

theorem exists_of_renameFile (h : d.renameFile source target = (true, d')) :
    ∃ old place content, d.placeOf? source = some old ∧ d.get? old = some (.file content) ∧
      d.filePlace? target = some place ∧ d' = (d.erase old).put place (.file content) := by
  rcases renameFile_cases d source target with
    ⟨old, place, content, hold, hfile, hplace, heq⟩ | ⟨-, heq⟩
  · exact ⟨old, place, content, hold, hfile, hplace, (Prod.mk.inj (h.symm.trans heq)).2⟩
  · exact absurd (Prod.mk.inj (h.symm.trans heq)).1 (by simp)

/-- What a step that writes a file says about the disk after it. -/
theorem writeFile_spec (h : d.writeFile path content = (true, d')) :
    ∃ place, d.filePlace? path = some place ∧ d.SameFolders d' ∧
      ∀ other, d'.get? other = if other = place then some (.file content) else d.get? other := by
  obtain ⟨place, hplace, rfl⟩ := writeFile_eq_true_iff.mp h
  have hfile := (placeOf?_of_filePlace? hplace).2
  exact ⟨place, hplace, sameFolders_put hfile content, get?_put_file hfile content⟩

/-- What a step that moves a file says about the disk after it. -/
theorem renameFile_spec (h : d.renameFile source target = (true, d')) :
    ∃ old place content, d.placeOf? source = some old ∧ d.get? old = some (.file content) ∧
      d.filePlace? target = some place ∧ d.SameFolders d' ∧
      ∀ other, d'.get? other = if other = place then some (.file content)
        else if other = old then none else d.get? other := by
  obtain ⟨old, place, content, hold, hcontent, hplace, rfl⟩ := exists_of_renameFile h
  have holdFile : d.isFolder old = false := by rw [isFolder, hcontent]; rfl
  have herase := sameFolders_erase holdFile
  have hfile := (herase.isFolder_eq place).trans (placeOf?_of_filePlace? hplace).2
  refine ⟨old, place, content, hold, hcontent, hplace,
    herase.trans (sameFolders_put hfile content), fun other ↦ ?_⟩
  rw [get?_put_file hfile, get?_erase_file holdFile]

/-! ### Disks that agree where something has been written -/

/-- Two disks with the same folders and the same items at the places of some paths. -/
structure Agree (d e : Disk) (paths : List String) : Prop where
  folders : d.SameFolders e
  get?_eq : ∀ place, d.Names paths place → e.get? place = d.get? place

theorem SameFolders.names_iff (h : d.SameFolders d') :
    d'.Names paths place ↔ d.Names paths place := by
  simp only [Names, h.placeOf?_eq]

theorem SameFolders.agree (h : d.SameFolders e) : d.Agree e [] :=
  ⟨h, fun _ ⟨_, hp, _⟩ ↦ absurd hp List.not_mem_nil⟩

namespace Agree

theorem contents?_eq (h : d.Agree e paths) (hpath : path ∈ paths) :
    e.contents? path = d.contents? path := by
  ext content
  rw [contents?_eq_some_iff, contents?_eq_some_iff]
  simp only [h.folders.placeOf?_eq]
  refine exists_congr fun place ↦ and_congr_right fun hplace ↦ ?_
  rw [h.get?_eq place ⟨path, hpath, hplace⟩]

theorem writeFile (h : d.Agree e paths) (hwrite : d.writeFile path content = (true, d')) :
    ∃ e', e.writeFile path content = (true, e') ∧ d'.Agree e' (path :: paths) := by
  obtain ⟨place, hplace, hfolders, hget⟩ := writeFile_spec hwrite
  have hsame : e.filePlace? path = some place := (h.folders.filePlace?_eq path).trans hplace
  obtain ⟨e', hwrite'⟩ : ∃ e', e.writeFile path content = (true, e') :=
    ⟨_, writeFile_eq_true_iff.mpr ⟨place, hsame, rfl⟩⟩
  obtain ⟨place', hplace', hfolders', hget'⟩ := writeFile_spec hwrite'
  obtain rfl := Option.some.inj (hsame.symm.trans hplace')
  refine ⟨e', hwrite', (hfolders.symm.trans h.folders).trans hfolders', fun other hnames ↦ ?_⟩
  rw [hfolders.names_iff, names_cons] at hnames
  rw [hget, hget']
  split
  case isTrue => rfl
  case isFalse hne =>
    refine h.get?_eq other (hnames.resolve_left fun hpath ↦ hne ?_)
    exact Option.some.inj (hpath.symm.trans (placeOf?_of_filePlace? hplace).1)

theorem renameFile (h : d.Agree e paths) (hsource : source ∈ paths)
    (hrename : d.renameFile source target = (true, d')) :
    ∃ e', e.renameFile source target = (true, e') ∧ d'.Agree e' (target :: paths) := by
  obtain ⟨old, place, content, hold, hcontent, hplace, hfolders, hget⟩ := renameFile_spec hrename
  have hfile : e.contents? source = some content :=
    (h.contents?_eq hsource).trans (contents?_eq_some_iff.mpr ⟨old, hold, hcontent⟩)
  have hsame : e.filePlace? target = some place := (h.folders.filePlace?_eq target).trans hplace
  obtain ⟨e', hrename'⟩ : ∃ e', e.renameFile source target = (true, e') := by
    refine ⟨(e.renameFile source target).2, Prod.ext (renameFile_fst_iff.mpr ⟨?_, ?_⟩) rfl⟩
    · rw [hfile]; rfl
    · rw [CanHold, hsame]; rfl
  obtain ⟨old', place', content', hold', hcontent', hplace', hfolders', hget'⟩ :=
    renameFile_spec hrename'
  obtain rfl := Option.some.inj (hsame.symm.trans hplace')
  obtain rfl := Option.some.inj (((h.folders.placeOf?_eq source).trans hold).symm.trans hold')
  obtain rfl : content = content' := by
    rw [h.get?_eq old ⟨source, hsource, hold⟩, hcontent] at hcontent'
    exact Item.file.inj (Option.some.inj hcontent')
  refine ⟨e', hrename', (hfolders.symm.trans h.folders).trans hfolders', fun other hnames ↦ ?_⟩
  rw [hfolders.names_iff, names_cons] at hnames
  rw [hget, hget']
  split
  case isTrue => rfl
  case isFalse hne =>
    rw [h.get?_eq other (hnames.resolve_left fun hpath ↦ hne ?_)]
    exact Option.some.inj (hpath.symm.trans (placeOf?_of_filePlace? hplace).1)

end Agree

/-! ### Folders that are there already -/

theorem makeAlong_of_follow? {segments : List String} {last : Location}
    (h : d.follow? place segments = some last) (hlast : d.isFolder last = true) :
    d.makeAlong place segments = (true, d) := by
  induction segments generalizing place with
  | nil =>
    obtain rfl := Option.some.inj h
    rw [makeAlong, hlast]
  | cons segment rest ih =>
    rw [follow?, List.foldlM_cons] at h
    obtain ⟨next, hstep, hrest⟩ := Option.bind_eq_some_iff.mp h
    rw [makeAlong, hstep]
    exact ih hrest

theorem makeFolders_of_isFolderAt (h : d.isFolderAt path = true) :
    d.makeFolders path = (true, d) := by
  rw [isFolderAt, itemAt?, beq_iff_eq, Option.bind_eq_some_iff] at h
  obtain ⟨place, hplace, hfolder⟩ := h
  rw [makeFolders]
  split
  case isTrue => rfl
  case isFalse =>
    rw [locate?] at hplace
    split at hplace
    case isTrue husable =>
      rw [if_pos husable]
      exact makeAlong_of_follow? hplace (isFolder_iff.mpr hfolder)
    case isFalse => exact absurd hplace (by simp)

theorem isFolder_of_makeAlong {segments : List String}
    (h : d.makeAlong place segments = (true, d')) : d.isFolder place = true := by
  cases segments with
  | nil => exact (Prod.mk.inj h).1
  | cons segment rest =>
    rw [makeAlong] at h
    split at h
    case h_1 next hstep => exact (step?_eq_some_iff.mp hstep).1
    case h_2 =>
      split at h
      case isTrue hmake =>
        exact (Bool.and_eq_true_iff.mp (Bool.and_eq_true_iff.mp hmake).1).1
      case isFalse => exact absurd (Prod.mk.inj h).1 (by simp)

/-- Making folders that are there already changes nothing. -/
theorem makeAlong_again {segments : List String} (h : d.makeAlong place segments = (true, d'))
    (hkept : d'.KeepsFolders e) : e.makeAlong place segments = (true, e) := by
  have hgrows := grows_makeAlong d place segments
  rw [h] at hgrows
  have hall : d.KeepsFolders e := hgrows.keepsFolders.trans hkept
  have hplace := hall.isFolder place (isFolder_of_makeAlong h)
  induction segments generalizing d place with
  | nil =>
    rw [makeAlong, hplace]
  | cons segment rest ih =>
    rw [makeAlong] at h
    split at h
    case h_1 next hstep =>
      have hnext := isFolder_of_makeAlong h
      rw [makeAlong, hall.step? hstep hnext]
      exact ih h hgrows hall (hall.isFolder next hnext)
    case h_2 hstep =>
      split at h
      case isTrue hmake =>
        have hfolder := (Bool.and_eq_true_iff.mp (Bool.and_eq_true_iff.mp hmake).1).1
        have hgrows' := grows_makeAlong (d.put (place.push segment) .folder) (place.push segment) rest
        rw [h] at hgrows'
        have hall' := hgrows'.keepsFolders.trans hkept
        have hnext := hall'.isFolder _ (isFolder_of_makeAlong h)
        have hstep' : e.step? place segment = some (place.push segment) :=
          step?_eq_some_iff.mpr ⟨hplace, stepPlace_of_isName place (isName_of_step? hstep hfolder),
            fun _ ↦ by rw [isFolder_iff.mp hnext]; rfl⟩
        rw [makeAlong, hstep']
        exact ih h hgrows' hall' hnext
      case isFalse => exact absurd (Prod.mk.inj h).1 (by simp)

theorem makeFolders_again (h : d.makeFolders path = (true, d')) (hkept : d'.KeepsFolders e) :
    e.makeFolders path = (true, e) := by
  rw [makeFolders] at h ⊢
  split at h
  case isTrue hempty => rw [if_pos hempty]
  case isFalse hempty =>
    rw [if_neg hempty]
    split at h
    case isTrue husable =>
      have hcurrent : e.current = d.current := by
        have hgrows := grows_makeAlong d (d.start path) (Path.segments path)
        rw [h] at hgrows
        exact hkept.current.trans hgrows.current
      have hstart : e.start path = d.start path := by rw [start, start, hcurrent]
      rw [if_pos husable, hstart]
      exact makeAlong_again h hkept
    case isFalse => exact absurd (Prod.mk.inj h).1 (by simp)

theorem contents?_congr_locate? {other : String} (h : d.locate? path = d.locate? other) :
    d.contents? path = d.contents? other := by
  rw [contents?, contents?, itemAt?, itemAt?, h]

theorem exists?_of_contents? (h : d.contents? path = some content) : d.exists? path = true := by
  obtain ⟨place, hplace, hfile⟩ := contents?_eq_some_iff.mp h
  rw [exists?, itemAt?_eq, hplace, Option.bind_some, hfile]
  rfl

/-! ### Both documents -/

/-- The four steps that bring both documents to their places, all of which succeed. -/
def Writes (d : Disk) (documents : Documents) (paths : OutputPaths) (d' : Disk) : Prop :=
  ∃ d₁ d₂ d₃,
    d.writeFile (stagingPath paths.descriptor) documents.descriptor = (true, d₁) ∧
    d₁.writeFile (stagingPath paths.schema) documents.schema = (true, d₂) ∧
    d₂.renameFile (stagingPath paths.descriptor) paths.descriptor = (true, d₃) ∧
    d₃.renameFile (stagingPath paths.schema) paths.schema = (true, d')

namespace Writes

variable {documents : Documents} {paths : OutputPaths}

theorem edited (h : d.Writes documents paths d') : d.Edited d' paths.all paths.stagings := by
  obtain ⟨d₁, d₂, d₃, hdescriptor, hschema, hplace, hlast⟩ := h
  have hfirst := (Edited.refl d).writeFile (stagingPath paths.descriptor) documents.descriptor
  rw [hdescriptor] at hfirst
  have hstaged := hfirst.writeFile (stagingPath paths.schema) documents.schema
  rw [hschema] at hstaged
  have hturned : d.Edited d₂ [stagingPath paths.descriptor, stagingPath paths.schema] [] :=
    hstaged.congr (by simp) fun _ ↦ Iff.rfl
  have hplaced : d.Edited d₃ [stagingPath paths.schema, paths.descriptor]
      [stagingPath paths.descriptor] :=
    (hturned.renameFile hplace).congr (by simp) fun _ ↦ Iff.rfl
  refine (hplaced.renameFile hlast).congr (by simp [OutputPaths.all]) fun p ↦ ?_
  simp [OutputPaths.stagings, or_comm]

/-- An output place holds one of the documents, unless it is a staging place that has been left. -/
theorem get?_output (h : d.Writes documents paths d') (hnames : d.Names paths.all place) :
    (d'.get? place = none ∧ d.Names paths.stagings place) ∨
      d'.get? place = some (.file documents.descriptor) ∨
      d'.get? place = some (.file documents.schema) := by
  obtain ⟨d₁, d₂, d₃, hdescriptor, hschema, hplace, hlast⟩ := h
  obtain ⟨qd, hqd, hfolders₁, hget₁⟩ := writeFile_spec hdescriptor
  obtain ⟨qs, hqs, hfolders₂, hget₂⟩ := writeFile_spec hschema
  obtain ⟨qd', pd, c, hqd', hc, hpd, hfolders₃, hget₃⟩ := renameFile_spec hplace
  obtain ⟨qs', ps, c', hqs', hc', hps, -, hget₄⟩ := renameFile_spec hlast
  have h₂ := hfolders₁.trans hfolders₂
  have h₃ := h₂.trans hfolders₃
  have hstaged : d.placeOf? (stagingPath paths.schema) = some qs :=
    (hfolders₁.placeOf?_eq _).symm.trans (placeOf?_of_filePlace? hqs).1
  obtain rfl : qd = qd' := Option.some.inj
    ((placeOf?_of_filePlace? hqd).1.symm.trans ((h₂.placeOf?_eq _).symm.trans hqd'))
  obtain rfl : qs = qs' := Option.some.inj
    (hstaged.symm.trans ((h₃.placeOf?_eq _).symm.trans hqs'))
  -- what has been moved is one of the documents
  have hfirst : c = documents.schema ∨ c = documents.descriptor := by
    rw [hget₂, hget₁, if_pos rfl] at hc
    split at hc <;> simp_all
  have hsecond : c' = c ∨ c' = documents.schema := by
    rw [hget₃, hget₂, if_pos rfl] at hc'
    split at hc' <;> [skip; split at hc'] <;> simp_all
  rw [hget₄]
  by_cases hps' : place = ps
  · rw [if_pos hps', Option.some.injEq, Option.some.injEq, Item.file.injEq, Item.file.injEq]
    rcases hsecond with rfl | rfl
    · exact Or.inr hfirst.symm
    · exact Or.inr (Or.inr rfl)
  · rw [if_neg hps']
    by_cases hqs'' : place = qs
    · rw [if_pos hqs'', hqs'']
      exact Or.inl ⟨rfl, _, by simp [OutputPaths.stagings], hstaged⟩
    · have hpd' : place = pd := by
        obtain ⟨path, hpath, hplaced⟩ := hnames
        simp only [OutputPaths.all, List.mem_cons, List.not_mem_nil, or_false] at hpath
        rcases hpath with rfl | rfl
        · exact Option.some.inj (hplaced.symm.trans
            ((h₂.placeOf?_eq _).symm.trans (placeOf?_of_filePlace? hpd).1))
        · exact absurd (Option.some.inj (hplaced.symm.trans
            ((h₃.placeOf?_eq _).symm.trans (placeOf?_of_filePlace? hps).1))) hps'
      rw [if_neg hqs'', hget₃, if_pos hpd', Option.some.injEq, Option.some.injEq,
        Item.file.injEq, Item.file.injEq]
      exact Or.inr hfirst.symm

/-- What an output reads as after a run is a document. -/
theorem contents?_output (h : d.Writes documents paths d') (hpath : path ∈ paths.all)
    (hcontent : d'.contents? path = some content) :
    content = documents.descriptor ∨ content = documents.schema := by
  obtain ⟨place, hplace, hfile⟩ := contents?_eq_some_iff.mp hcontent
  rw [h.edited.folders.placeOf?_eq] at hplace
  rcases h.get?_output ⟨path, hpath, hplace⟩ with ⟨hnone, -⟩ | hthere | hthere
  · exact absurd (hnone.symm.trans hfile) (by simp)
  · exact Or.inl (Item.file.inj (Option.some.inj (hfile.symm.trans hthere)))
  · exact Or.inr (Item.file.inj (Option.some.inj (hfile.symm.trans hthere)))

/-- A file that is read after a run is as it was on the disk with the folders made, or is one of the
outputs. -/
theorem contents?_cases (h : d.Writes documents paths d')
    (hcontent : d'.contents? path = some content) :
    d.contents? path = some content ∨
      ∃ output ∈ paths.all, d'.locate? path = d'.locate? output := by
  obtain ⟨place, hplace, hfile⟩ := contents?_eq_some_iff.mp hcontent
  have hfolders := h.edited.folders
  have hbefore : d.placeOf? path = some place := (hfolders.placeOf?_eq path).symm.trans hplace
  have hthere : (d'.get? place).isSome = true := by rw [hfile]; rfl
  by_cases hwritten : d.Names paths.all place
  · obtain ⟨output, houtput, hat⟩ := hwritten
    refine Or.inr ⟨output, houtput, ?_⟩
    rw [locate?_of_placeOf? hplace hthere,
      locate?_of_placeOf? ((hfolders.placeOf?_eq output).trans hat) hthere]
  · have hnotFolder : d.isFolder place = false := by
      rw [← hfolders.isFolder_eq, isFolder, hfile]
      rfl
    have hnotStaged : ¬ d.Names paths.stagings place := fun hstaged ↦ by
      rw [h.edited.gone place hnotFolder hwritten hstaged] at hthere
      exact Bool.noConfusion hthere
    refine Or.inl (contents?_eq_some_iff.mpr ⟨place, hbefore, ?_⟩)
    rw [← h.edited.kept place hwritten hnotStaged, hfile]

/-- A path that has led somewhere, and does not lead to an output, reads what it has read. -/
theorem contents?_eq_of_beside (h : d.Writes documents paths d') (hgrows : e.Grows d)
    (hthere : e.exists? path = true) (hcontent : d'.contents? path = some content)
    (hbeside : ∀ output ∈ paths.all, d'.locate? path ≠ d'.locate? output) :
    e.contents? path = some content := by
  rcases h.contents?_cases hcontent with hbefore | ⟨output, houtput, hat⟩
  · exact hgrows.contents?_of_exists? hthere hbefore
  · exact absurd hat (hbeside output houtput)

/-- A disk with the same folders takes the same documents, and holds the same at the outputs. -/
theorem again (h : d.Writes documents paths d') (hfolders : d.SameFolders e) :
    ∃ e', e.Writes documents paths e' ∧ d'.Agree e' paths.all := by
  obtain ⟨d₁, d₂, d₃, hdescriptor, hschema, hplace, hlast⟩ := h
  obtain ⟨e₁, hdescriptor', hagree⟩ := hfolders.agree.writeFile hdescriptor
  obtain ⟨e₂, hschema', hagree⟩ := hagree.writeFile hschema
  obtain ⟨e₃, hplace', hagree⟩ := hagree.renameFile (by simp) hplace
  obtain ⟨e', hlast', hagree⟩ := hagree.renameFile (by simp) hlast
  refine ⟨e', ⟨e₁, e₂, e₃, hdescriptor', hschema', hplace', hlast'⟩, hagree.folders,
    fun place hnames ↦ hagree.get?_eq place (hnames.mono ?_)⟩
  simp [OutputPaths.all]

end Writes

end Disk

/-! ### Runs that succeed -/

variable {d d' : Disk} {p : Placement} {rest : List Placement} {done : List String}

theorem stage_eq_ok_iff : (Storage.onDisk.stage done (p :: rest)).run d = (.ok (), d') ↔
    ∃ d₁, d.writeFile p.staging p.content = (true, d₁) ∧
      (Storage.onDisk.stage (done ++ [p.staging]) rest).run d₁ = (.ok (), d') := by
  rw [Storage.stage, run_bind_eq_iff]
  constructor
  · rintro ⟨ok, d₁, hwrite, hrest⟩
    cases ok with
    | true => exact ⟨d₁, hwrite, hrest⟩
    | false =>
      rw [if_neg Bool.false_ne_true, run_bind_eq_iff] at hrest
      obtain ⟨_, _, -, hreturn⟩ := hrest
      exact absurd (Prod.mk.inj hreturn).1 (by simp)
  · rintro ⟨d₁, hwrite, hrest⟩
    exact ⟨true, d₁, hwrite, hrest⟩

theorem place_eq_ok_iff : (Storage.onDisk.place done (p :: rest)).run d = (.ok (), d') ↔
    ∃ d₁, d.renameFile p.staging p.path = (true, d₁) ∧
      (Storage.onDisk.place (done ++ [p.path]) rest).run d₁ = (.ok (), d') := by
  rw [Storage.place, run_bind_eq_iff]
  constructor
  · rintro ⟨ok, d₁, hrename, hrest⟩
    cases ok with
    | true => exact ⟨d₁, hrename, hrest⟩
    | false =>
      rw [if_neg Bool.false_ne_true, run_bind_eq_iff] at hrest
      obtain ⟨_, _, -, hlast⟩ := hrest
      obtain ⟨_, _, -, hreturn⟩ := run_bind_eq_iff.mp hlast
      exact absurd (Prod.mk.inj hreturn).1 (by simp)
  · rintro ⟨d₁, hrename, hrest⟩
    exact ⟨true, d₁, hrename, hrest⟩

/-- A run that goes through makes the folder and brings both documents to their places. -/
theorem writeOutputs_eq_ok_iff {documents : Documents} {folder descriptorFile schemaFile : String}
    {paths : OutputPaths} :
    (Storage.onDisk.writeOutputs documents folder descriptorFile schemaFile).run d =
        (.ok paths, d') ↔
      paths = ⟨Path.join folder descriptorFile, Path.join folder schemaFile⟩ ∧
        ∃ made, d.makeFolders folder = (true, made) ∧ made.Writes documents paths d' := by
  constructor
  · intro hrun
    obtain ⟨ok, made, hmade, hrest⟩ := run_bind_eq_iff.mp hrun
    cases ok with
    | false => exact absurd (Prod.mk.inj hrest).1 (by simp)
    | true =>
      obtain ⟨staged, d₂, hstage, hrest⟩ := run_bind_eq_iff.mp hrest
      cases staged with
      | error => exact absurd (Prod.mk.inj hrest).1 (by simp)
      | ok =>
        obtain ⟨placed, d₄, hplace, hreturn⟩ := run_bind_eq_iff.mp hrest
        cases placed with
        | error => exact absurd (Prod.mk.inj hreturn).1 (by simp)
        | ok =>
          obtain ⟨hpaths, rfl⟩ := Prod.mk.inj hreturn
          obtain rfl := Except.ok.inj hpaths
          obtain ⟨d₁, hdescriptor, hstage⟩ := stage_eq_ok_iff.mp hstage
          obtain ⟨d₂', hschema, hstage⟩ := stage_eq_ok_iff.mp hstage
          obtain ⟨-, rfl⟩ := Prod.mk.inj hstage
          obtain ⟨d₃, hfirst, hplace⟩ := place_eq_ok_iff.mp hplace
          obtain ⟨d₄', hlast, hplace⟩ := place_eq_ok_iff.mp hplace
          obtain ⟨-, rfl⟩ := Prod.mk.inj hplace
          exact ⟨rfl, made, hmade, d₁, _, d₃, hdescriptor, hschema, hfirst, hlast⟩
  · rintro ⟨rfl, made, hmade, d₁, d₂, d₃, hdescriptor, hschema, hfirst, hlast⟩
    refine run_bind_eq_iff.mpr ⟨true, made, hmade, run_bind_eq_iff.mpr ⟨.ok (), d₂, ?_, ?_⟩⟩
    · exact stage_eq_ok_iff.mpr ⟨d₁, hdescriptor, stage_eq_ok_iff.mpr ⟨d₂, hschema, rfl⟩⟩
    · refine run_bind_eq_iff.mpr ⟨.ok (), d', ?_, rfl⟩
      exact place_eq_ok_iff.mpr ⟨d₃, hfirst, place_eq_ok_iff.mpr ⟨d', hlast, rfl⟩⟩

end ClassMap
