import ClassMap.Proofs.Files.Beside
import ClassMap.Proofs.Output.Staging

/-!
What stands where after a run that goes through. Each document is written under a name of its own
beside its place, a dot before the name and `.tmp` behind it, and nothing keeps these two names apart
from what else is in the folder. `outputs_placed_iff` says when both documents are in their places
and every other file is what it was: the descriptor does not go where the schema is staged, and no
other file is at a place where a document is staged.
-/

set_option autoImplicit false
set_option relaxedAutoImplicit false

namespace ClassMap

open Disk

/-! ### Names of staged documents -/

/-- The name that a document is staged under. -/
def stagedName (name : String) : String :=
  "." ++ name ++ ".tmp"

variable {name other folder : String}

theorem toList_stagedName (name : String) :
    (stagedName name).toList = '.' :: (name.toList ++ ['.', 't', 'm', 'p']) := by
  rw [stagedName, String.toList_append, String.toList_append]
  rfl

theorem stagedName_inj : stagedName name = stagedName other ↔ name = other := by
  rw [← String.toList_inj, toList_stagedName, toList_stagedName, List.cons.injEq,
    List.append_left_inj, String.toList_inj]
  exact and_iff_right rfl

theorem stagedName_ne_self (name : String) : stagedName name ≠ name := by
  intro heq
  have hlength := congrArg (fun s : String ↦ s.toList.length) heq
  simp only [toList_stagedName, List.length_cons, List.length_append] at hlength
  omega

theorem stagingName_join (folder : String) (hname : Path.isEntryName name = true) :
    stagingName (Path.join folder name) = stagedName name := by
  rw [stagingName, Path.fileName?_join folder hname]
  rfl

theorem isEntryName_stagedName (hname : Path.isEntryName name = true) :
    Path.isEntryName (stagedName name) = true :=
  stagingName_join "" hname ▸ isEntryName_stagingName (Path.join "" name)

namespace Disk

theorem push_inj {around : Location} : around.push name = around.push other ↔ name = other := by
  rw [Array.push_eq_push]
  exact and_iff_left rfl

variable {d d' : Disk} {documents : Documents} {paths : OutputPaths}
  {descriptorFile schemaFile : String}

/-- Both documents are in their places, and every other file is the same as before. -/
structure PlacesOutputs (d d' : Disk) (documents : Documents) (paths : OutputPaths) : Prop where
  descriptor : d'.contents? paths.descriptor = some documents.descriptor
  schema : d'.contents? paths.schema = some documents.schema
  others : ∀ place, ¬ d'.Names paths.all place → ∀ content,
    d'.get? place = some (.file content) ↔ d.get? place = some (.file content)

/-- The places of the documents and of their staged copies, all in one folder, and what stands where
in the end. -/
structure Leaves (d d' : Disk) (documents : Documents) (paths : OutputPaths)
    (around : Location) (descriptorFile schemaFile : String) : Prop where
  folders : d.SameFolders d'
  descriptor : d.placeOf? paths.descriptor = some (around.push descriptorFile)
  schema : d.placeOf? paths.schema = some (around.push schemaFile)
  descriptorStaging :
    d.placeOf? (stagingPath paths.descriptor) = some (around.push (stagedName descriptorFile))
  schemaStaging : d.placeOf? (stagingPath paths.schema) = some (around.push (stagedName schemaFile))
  get?_eq : ∀ place, d'.get? place =
    if place = around.push schemaFile then
      some (.file (if descriptorFile = stagedName schemaFile then documents.descriptor
        else documents.schema))
    else if place = around.push (stagedName schemaFile) then none
    else if place = around.push descriptorFile then some (.file documents.descriptor)
    else if place = around.push (stagedName descriptorFile) then none
    else d.get? place

/-- The place of a file and of its staged copy. -/
theorem exists_staged_places (hname : Path.isEntryName name = true) {place beside : Location}
    (hplace : d.placeOf? (Path.join folder name) = some place)
    (hbeside : d.placeOf? (stagingPath (Path.join folder name)) = some beside) :
    ∃ around, d.along? (Path.components folder) = some around ∧ place = around.push name ∧
      beside = around.push (stagedName name) := by
  have hpath : stagingPath (Path.join folder name) =
      Path.withFileName (Path.join folder name) (stagedName name) := by
    rw [← stagingName_join folder hname]
    rfl
  rw [hpath] at hbeside
  exact exists_places_withFileName hname (isEntryName_stagedName hname) hplace hbeside

theorem Writes.leaves (hdescriptor : Path.isEntryName descriptorFile = true)
    (hschema : Path.isEntryName schemaFile = true) (hne : descriptorFile ≠ schemaFile)
    (hpaths : paths = ⟨Path.join folder descriptorFile, Path.join folder schemaFile⟩)
    (h : d.Writes documents paths d') :
    ∃ around, d.Leaves d' documents paths around descriptorFile schemaFile := by
  obtain ⟨d₁, d₂, d₃, hwriteDescriptor, hwriteSchema, hmoveDescriptor, hmoveSchema⟩ := h
  obtain ⟨qd, hqd, hfolders₁, hget₁⟩ := writeFile_spec hwriteDescriptor
  obtain ⟨qs, hqs, hfolders₂, hget₂⟩ := writeFile_spec hwriteSchema
  obtain ⟨qd', pd, c, hqd', hc, hpd, hfolders₃, hget₃⟩ := renameFile_spec hmoveDescriptor
  obtain ⟨qs', ps, c', hqs', hc', hps, hfolders₄, hget₄⟩ := renameFile_spec hmoveSchema
  have h₂ := hfolders₁.trans hfolders₂
  have h₃ := h₂.trans hfolders₃
  replace hqd := (placeOf?_of_filePlace? hqd).1
  replace hqs := (hfolders₁.placeOf?_eq _).symm.trans (placeOf?_of_filePlace? hqs).1
  replace hpd := (h₂.placeOf?_eq _).symm.trans (placeOf?_of_filePlace? hpd).1
  replace hps := (h₃.placeOf?_eq _).symm.trans (placeOf?_of_filePlace? hps).1
  obtain rfl : qd = qd' := Option.some.inj (hqd.symm.trans ((h₂.placeOf?_eq _).symm.trans hqd'))
  obtain rfl : qs = qs' := Option.some.inj (hqs.symm.trans ((h₃.placeOf?_eq _).symm.trans hqs'))
  subst hpaths
  obtain ⟨around, haround, rfl, rfl⟩ := exists_staged_places hdescriptor hpd hqd
  obtain ⟨around', haround', rfl, rfl⟩ := exists_staged_places hschema hps hqs
  obtain rfl : around = around' := Option.some.inj (haround.symm.trans haround')
  have hstaged : around.push (stagedName descriptorFile) ≠ around.push (stagedName schemaFile) := by
    exact fun heq ↦ hne (stagedName_inj.mp (push_inj.mp heq))
  -- what has been moved, first to the descriptor and then to the schema
  have hfirst : c = documents.descriptor := by
    rw [hget₂, if_neg hstaged, hget₁, if_pos rfl] at hc
    exact (Item.file.inj (Option.some.inj hc)).symm
  have hsecond : c' = if descriptorFile = stagedName schemaFile then documents.descriptor
      else documents.schema := by
    rw [hget₃, if_neg hstaged.symm, hget₂, if_pos rfl, hfirst] at hc'
    by_cases halias : descriptorFile = stagedName schemaFile
    · rw [if_pos (congrArg around.push halias.symm)] at hc'
      rw [if_pos halias]
      exact (Item.file.inj (Option.some.inj hc')).symm
    · rw [if_neg fun h ↦ halias (push_inj.mp h).symm] at hc'
      rw [if_neg halias]
      exact (Item.file.inj (Option.some.inj hc')).symm
  refine ⟨around, h₃.trans hfolders₄, hpd, hps, hqd, hqs, fun place ↦ ?_⟩
  rw [hget₄, hget₃, hget₂, hget₁, hfirst, hsecond]
  split_ifs <;> rfl

/-- A file that was there before the folder was made is one after it, and the other way around. -/
theorem Grows.get?_file_iff (h : d.Grows d') {place : Location} {content : Bytes} :
    d'.get? place = some (.file content) ↔ d.get? place = some (.file content) := by
  rcases h.get?_cases place with hsame | ⟨hnone, hfolder⟩
  · rw [hsame]
  · simp [hnone, hfolder]

namespace Leaves

variable {around : Location}

/-- Nothing is left where the descriptor was staged, unless the schema goes there. -/
theorem get?_descriptorStaging (h : d.Leaves d' documents paths around descriptorFile schemaFile)
    (hne : descriptorFile ≠ schemaFile) (hschema : schemaFile ≠ stagedName descriptorFile) :
    d'.get? (around.push (stagedName descriptorFile)) = none := by
  rw [h.get?_eq, if_neg fun heq ↦ hschema (push_inj.mp heq).symm,
    if_neg fun heq ↦ hne (stagedName_inj.mp (push_inj.mp heq)),
    if_neg fun heq ↦ stagedName_ne_self _ (push_inj.mp heq), if_pos rfl]

theorem get?_schemaStaging (h : d.Leaves d' documents paths around descriptorFile schemaFile) :
    d'.get? (around.push (stagedName schemaFile)) = none := by
  rw [h.get?_eq, if_neg fun heq ↦ stagedName_ne_self _ (push_inj.mp heq), if_pos rfl]

/-- The outputs are the only places that count. -/
theorem names_all_iff (h : d.Leaves d' documents paths around descriptorFile schemaFile)
    {place : Location} : d'.Names paths.all place ↔
      place = around.push descriptorFile ∨ place = around.push schemaFile := by
  rw [h.folders.names_iff, OutputPaths.all, names_cons, names_cons, h.descriptor, h.schema]
  simp [Names, eq_comm]

theorem contents?_descriptor (h : d.Leaves d' documents paths around descriptorFile schemaFile)
    {content : Bytes} : d'.contents? paths.descriptor = some content ↔
      d'.get? (around.push descriptorFile) = some (.file content) := by
  rw [contents?_eq_some_iff, h.folders.placeOf?_eq, h.descriptor]
  simp

theorem contents?_schema (h : d.Leaves d' documents paths around descriptorFile schemaFile)
    {content : Bytes} : d'.contents? paths.schema = some content ↔
      d'.get? (around.push schemaFile) = some (.file content) := by
  rw [contents?_eq_some_iff, h.folders.placeOf?_eq, h.schema]
  simp

/-- If all is in its place, a file at a place that is empty in the end has been lost. -/
theorem contents?_eq_none (h : d.Leaves d' documents paths around descriptorFile schemaFile)
    (hplaced : d.PlacesOutputs d' documents paths) {path name : String}
    (hdescriptor : name ≠ descriptorFile) (hschema : name ≠ schemaFile)
    (hplace : d.placeOf? path = some (around.push name))
    (hnone : d'.get? (around.push name) = none) : d.contents? path = none := by
  refine Option.eq_none_iff_forall_ne_some.mpr fun content hcontent ↦ ?_
  obtain ⟨place, hat, hfile⟩ := contents?_eq_some_iff.mp hcontent
  obtain rfl := Option.some.inj (hplace.symm.trans hat)
  have hother : ¬ d'.Names paths.all (around.push name) := by
    rw [h.names_all_iff, push_inj, push_inj]
    exact not_or.mpr ⟨hdescriptor, hschema⟩
  have hkept := (hplaced.others _ hother content).mpr hfile
  rw [hnone] at hkept
  exact absurd hkept (by simp)

/-- All is in its place if no file was where a document is staged, the place of the other document
aside. -/
theorem placesOutputs (h : d.Leaves d' documents paths around descriptorFile schemaFile)
    (hne : descriptorFile ≠ schemaFile) (halias : descriptorFile ≠ stagedName schemaFile)
    (hdescriptor : schemaFile = stagedName descriptorFile ∨
      d.contents? (stagingPath paths.descriptor) = none)
    (hschema : d.contents? (stagingPath paths.schema) = none) :
    d.PlacesOutputs d' documents paths := by
  constructor
  case descriptor =>
    rw [h.contents?_descriptor, h.get?_eq, if_neg fun heq ↦ hne (push_inj.mp heq),
      if_neg fun heq ↦ halias (push_inj.mp heq), if_pos rfl]
  case schema =>
    rw [h.contents?_schema, h.get?_eq, if_pos rfl, if_neg halias]
  case others =>
    intro place hother content
    rw [h.names_all_iff, not_or] at hother
    -- nothing was at a place that is empty in the end
    have hnone : ∀ {path : String}, d.placeOf? path = some place → d.contents? path = none →
        d.get? place ≠ some (.file content) := by
      intro path hplace hcontents hfile
      rw [contents?_eq_some_iff.mpr ⟨place, hplace, hfile⟩] at hcontents
      exact absurd hcontents (by simp)
    rw [h.get?_eq, if_neg hother.2]
    by_cases hschemaStaging : place = around.push (stagedName schemaFile)
    · rw [if_pos hschemaStaging]
      exact iff_of_false (by simp) (hnone (hschemaStaging ▸ h.schemaStaging) hschema)
    rw [if_neg hschemaStaging, if_neg hother.1]
    by_cases hdescriptorStaging : place = around.push (stagedName descriptorFile)
    · rw [if_pos hdescriptorStaging]
      refine iff_of_false (by simp) (hnone (hdescriptorStaging ▸ h.descriptorStaging) ?_)
      refine hdescriptor.resolve_left fun heq ↦ hother.2 ?_
      rw [hdescriptorStaging, heq]
    rw [if_neg hdescriptorStaging]

/-- What is left of the disk, told by the places of the staged copies. -/
theorem placesOutputs_iff (h : d.Leaves d' documents paths around descriptorFile schemaFile)
    (hne : descriptorFile ≠ schemaFile) :
    d.PlacesOutputs d' documents paths ↔
      descriptorFile ≠ stagedName schemaFile ∧
        (schemaFile = stagedName descriptorFile ∨
          d.contents? (stagingPath paths.descriptor) = none) ∧
        d.contents? (stagingPath paths.schema) = none := by
  refine ⟨fun hplaced ↦ ?_,
    fun ⟨halias, hdescriptor, hschema⟩ ↦ h.placesOutputs hne halias hdescriptor hschema⟩
  have halias : descriptorFile ≠ stagedName schemaFile := by
    intro heq
    have hthere := h.contents?_descriptor.mp hplaced.descriptor
    rw [heq, h.get?_schemaStaging] at hthere
    exact absurd hthere (by simp)
  refine ⟨halias, ?_, h.contents?_eq_none hplaced halias.symm (stagedName_ne_self _)
    h.schemaStaging h.get?_schemaStaging⟩
  by_cases hschema : schemaFile = stagedName descriptorFile
  · exact Or.inl hschema
  · exact Or.inr (h.contents?_eq_none hplaced (stagedName_ne_self _) (Ne.symm hschema)
      h.descriptorStaging (h.get?_descriptorStaging hne hschema))

end Leaves

/-- Making a folder adds no file and takes none away. -/
theorem Grows.placesOutputs_iff {made : Disk} (h : d.Grows made) :
    made.PlacesOutputs d' documents paths ↔ d.PlacesOutputs d' documents paths := by
  constructor
  · exact fun hplaced ↦ ⟨hplaced.descriptor, hplaced.schema, fun place hother content ↦
      (hplaced.others place hother content).trans h.get?_file_iff⟩
  · exact fun hplaced ↦ ⟨hplaced.descriptor, hplaced.schema, fun place hother content ↦
      (hplaced.others place hother content).trans h.get?_file_iff.symm⟩

end Disk

/-- A run that goes through has both documents in their places and every other file as it was before
exactly when the descriptor does not go where the schema is staged, and there was no file, other than
an output, at either place where a document is staged. -/
theorem outputs_placed_iff {d d' : Disk} {documents : Documents}
    {folder descriptorFile schemaFile : String} {paths : OutputPaths}
    (hdescriptor : Path.isEntryName descriptorFile = true)
    (hschema : Path.isEntryName schemaFile = true) (hne : descriptorFile ≠ schemaFile)
    (hrun : (Storage.onDisk.writeOutputs documents folder descriptorFile schemaFile).run d =
      (.ok paths, d')) :
    d.PlacesOutputs d' documents paths ↔
      descriptorFile ≠ stagedName schemaFile ∧
        (schemaFile = stagedName descriptorFile ∨
          (d.makeFolders folder).2.contents? (stagingPath paths.descriptor) = none) ∧
        (d.makeFolders folder).2.contents? (stagingPath paths.schema) = none := by
  obtain ⟨hpaths, made, hmade, hwrites⟩ := writeOutputs_eq_ok_iff.mp hrun
  obtain ⟨around, hleaves⟩ := hwrites.leaves hdescriptor hschema hne hpaths
  rw [hmade, ← (grows_of_makeFolders hmade).placesOutputs_iff]
  exact hleaves.placesOutputs_iff hne

/-- A folder with an earlier schema and a note. -/
def archiveFolder : Disk where
  items := [(#["out"], .folder), (#["out", "schema.xml"], .file (Text.encode "earlier")),
    (#["out", "note.txt"], .file (Text.encode "keep"))]

def leaflet : Documents where
  descriptor := Text.encode "<descriptor-repository/>"
  schema := Text.encode "<database/>"

theorem outputs_placed_iff_archive :
    ∃ paths d', (Storage.onDisk.writeOutputs leaflet "out" "repository.xml" "schema.xml").run
        archiveFolder = (.ok paths, d') ∧ archiveFolder.PlacesOutputs d' leaflet paths := by
  have hok : ((Storage.onDisk.writeOutputs leaflet "out" "repository.xml" "schema.xml").run
      archiveFolder).1 = .ok ⟨"out/repository.xml", "out/schema.xml"⟩ := by
    decide +kernel
  have hstaging :
      (archiveFolder.makeFolders "out").2.contents? (stagingPath "out/repository.xml") = none ∧
        (archiveFolder.makeFolders "out").2.contents? (stagingPath "out/schema.xml") = none := by
    decide +kernel
  have hnames : Path.isEntryName "repository.xml" = true ∧ Path.isEntryName "schema.xml" = true ∧
      "repository.xml" ≠ "schema.xml" ∧ "repository.xml" ≠ stagedName "schema.xml" := by
    decide +kernel
  obtain ⟨hdescriptor, hschema, hne, halias⟩ := hnames
  cases hrun : (Storage.onDisk.writeOutputs leaflet "out" "repository.xml" "schema.xml").run
      archiveFolder with
  | mk result d' =>
    rw [hrun] at hok
    obtain rfl : result = _ := hok
    have hplaced := (outputs_placed_iff hdescriptor hschema hne hrun).mpr
      ⟨halias, Or.inr hstaging.1, hstaging.2⟩
    exact ⟨_, d', rfl, hplaced⟩

/-- A descriptor that goes where the schema is staged ends up in the place of the schema, and there
is nothing in its own. -/
theorem not_outputs_placed_archive :
    Path.isEntryName ".schema.xml.tmp" = true ∧ Path.isEntryName "schema.xml" = true ∧
      ∃ paths d', (Storage.onDisk.writeOutputs leaflet "out" ".schema.xml.tmp" "schema.xml").run
        archiveFolder = (.ok paths, d') ∧
      d'.contents? paths.descriptor = none ∧ d'.contents? paths.schema = some leaflet.descriptor ∧
      ¬ archiveFolder.PlacesOutputs d' leaflet paths := by
  have hnames : Path.isEntryName ".schema.xml.tmp" = true ∧
      Path.isEntryName "schema.xml" = true := by
    decide +kernel
  have hok : ((Storage.onDisk.writeOutputs leaflet "out" ".schema.xml.tmp" "schema.xml").run
      archiveFolder).1 = .ok ⟨"out/.schema.xml.tmp", "out/schema.xml"⟩ := by
    decide +kernel
  have hdescriptor : ((Storage.onDisk.writeOutputs leaflet "out" ".schema.xml.tmp"
      "schema.xml").run archiveFolder).2.contents? "out/.schema.xml.tmp" = none := by
    decide +kernel
  have hschema : ((Storage.onDisk.writeOutputs leaflet "out" ".schema.xml.tmp"
      "schema.xml").run archiveFolder).2.contents? "out/schema.xml" = some leaflet.descriptor := by
    decide +kernel
  cases hrun : (Storage.onDisk.writeOutputs leaflet "out" ".schema.xml.tmp" "schema.xml").run
      archiveFolder with
  | mk result d' =>
    rw [hrun] at hok hdescriptor hschema
    obtain rfl : result = _ := hok
    refine ⟨hnames.1, hnames.2, _, d', rfl, hdescriptor, hschema, fun hplaced ↦ ?_⟩
    exact absurd (hdescriptor.symm.trans hplaced.descriptor) (by simp)

end ClassMap
