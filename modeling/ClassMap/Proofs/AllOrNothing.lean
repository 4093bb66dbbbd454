import ClassMap.Proofs.Output.Written
import ClassMap.Proofs.Traversal

/-!
Compiling a project on a disk that may fail at any step. Nothing is written before the project has
been read and resolved and both documents are complete, and a failure removes what has been written;
but a file that was there before is gone once it has been replaced, or once the run has staged
something in its place. So a failure leaves both outputs as they were, whatever fails and wherever,
exactly if making the folders opens no way to a file, nothing is staged at the place of an earlier
output, and there is no earlier descriptor that could be replaced (`allOrNothing_iff`).
-/

set_option autoImplicit false
set_option relaxedAutoImplicit false

namespace ClassMap

open Disk

def Project.outputPaths (p : Project) (options : CompileOptions) : OutputPaths where
  descriptor := Path.join (p.outputFolder options) p.descriptorFile
  schema := Path.join (p.outputFolder options) p.schemaFile

/-- Whatever fails on the way, a compilation that ends in an error leaves both outputs as they
were. -/
def AllOrNothing (d : Disk) (options : CompileOptions) : Prop :=
  ∀ mishaps error after rest,
    (compileProject .unreliable d options).run (d, mishaps) = (.error error, (after, rest)) →
    ∀ project, Project.read d options.project = .ok project →
      ∀ path ∈ (project.outputPaths options).all, after.contents? path = d.contents? path

/-- A disk on which a failure to write the outputs cannot take any earlier output away. What counts
is the disk with the folders made. -/
structure Disk.SparesOutputs (d : Disk) (folder : String) (paths : OutputPaths) : Prop where
  /-- No output path leads through a new folder and back to a file that was there before. -/
  folders : ∀ path ∈ paths.all, (d.makeFolders folder).2.contents? path = d.contents? path
  descriptorStaging : (d.makeFolders folder).1 = true →
    ∀ path ∈ paths.all, (d.makeFolders folder).2.Apart (stagingPath paths.descriptor) path
  schemaStaging : (d.makeFolders folder).1 = true →
    (d.makeFolders folder).2.CanHold (stagingPath paths.descriptor) →
    ∀ path ∈ paths.all, (d.makeFolders folder).2.Apart (stagingPath paths.schema) path
  /-- Where the run can get as far as placing the descriptor, there is none to be replaced. -/
  replaced : (d.makeFolders folder).1 = true →
    (d.makeFolders folder).2.CanHold (stagingPath paths.descriptor) →
    (d.makeFolders folder).2.CanHold (stagingPath paths.schema) →
    (d.makeFolders folder).2.CanHold paths.descriptor → d.contents? paths.descriptor = none

variable {d d₀ d' : Disk} {mishaps rest : Mishaps} {e : FileError} {documents : Documents}
  {folder descriptorFile schemaFile path other : String} {paths : OutputPaths}
  {removed : List String}

/-! ### Outputs that are spared -/

/-- What no file is found under is apart from everything. -/
theorem Disk.apart_of_contents?_eq_none (h : d.contents? path = none) (other : String) :
    d.Apart path other := by
  refine apart_iff.mpr fun place content _ hfile hplace ↦ ?_
  rw [contents?_eq_some_iff.mpr ⟨place, hplace, hfile⟩] at h
  exact absurd h (by simp)

/-- The ways to cut a list of two before one of its entries. -/
theorem pair_eq_append {α : Type} {a b x : α} {first last : List α}
    (h : [a, b] = first ++ x :: last) : (first = [] ∧ x = a) ∨ (first = [a] ∧ x = b) := by
  rcases first with _ | ⟨y, _ | ⟨z, more⟩⟩
  · exact Or.inl ⟨rfl, (List.cons.inj h).1.symm⟩
  · obtain ⟨rfl, hrest⟩ := List.cons.inj h
    exact Or.inr ⟨rfl, (List.cons.inj hrest).1.symm⟩
  · have hlength := congrArg List.length h
    simp at hlength

/-- A run of two documents empties the first staging path, or both, or both and the path of the
descriptor. -/
theorem Disk.Emptied.cases (h : d.Emptied (documents.placedAt paths) removed) :
    removed = [stagingPath paths.descriptor] ∨
    (d.CanHold (stagingPath paths.descriptor) ∧
      removed = [stagingPath paths.descriptor, stagingPath paths.schema]) ∨
    (d.CanHold (stagingPath paths.descriptor) ∧ d.CanHold (stagingPath paths.schema) ∧
      d.CanHold paths.descriptor ∧ removed =
        [stagingPath paths.descriptor, stagingPath paths.schema, paths.descriptor]) := by
  cases h with
  | staging hsplit hfirst =>
    rcases pair_eq_append hsplit with ⟨rfl, rfl⟩ | ⟨rfl, rfl⟩
    · exact Or.inl rfl
    · have hdescriptor : d.CanHold (stagingPath paths.descriptor) :=
        hfirst ⟨paths.descriptor, documents.descriptor⟩ List.mem_cons_self
      exact Or.inr (Or.inl ⟨hdescriptor, rfl⟩)
  | placing hsplit hstaged hfirst =>
    have hdescriptor : d.CanHold (stagingPath paths.descriptor) :=
      hstaged ⟨paths.descriptor, documents.descriptor⟩ List.mem_cons_self
    have hschema : d.CanHold (stagingPath paths.schema) :=
      hstaged ⟨paths.schema, documents.schema⟩ (List.mem_cons_of_mem _ List.mem_cons_self)
    rcases pair_eq_append hsplit with ⟨rfl, rfl⟩ | ⟨rfl, rfl⟩
    · exact Or.inr (Or.inl ⟨hdescriptor, rfl⟩)
    · have hplaced : d.CanHold paths.descriptor :=
        hfirst ⟨paths.descriptor, documents.descriptor⟩ List.mem_cons_self
      exact Or.inr (Or.inr ⟨hdescriptor, hschema, hplaced, rfl⟩)

/-- What a failing run has emptied never held an earlier output. -/
theorem Disk.SparesOutputs.apart (h : d.SparesOutputs folder paths)
    (hmade : (d.makeFolders folder).1 = true)
    (hemptied : (d.makeFolders folder).2.Emptied (documents.placedAt paths) removed)
    (hpath : path ∈ paths.all) : ∀ p ∈ removed, (d.makeFolders folder).2.Apart p path := by
  have hdescriptor := h.descriptorStaging hmade path hpath
  rcases hemptied.cases with rfl | ⟨hfirst, rfl⟩ | ⟨hfirst, hsecond, hplaced, rfl⟩
  · simpa using hdescriptor
  · simpa using ⟨hdescriptor, h.schemaStaging hmade hfirst path hpath⟩
  · have hnone : (d.makeFolders folder).2.contents? paths.descriptor = none := by
      rw [h.folders paths.descriptor (by simp [OutputPaths.all])]
      exact h.replaced hmade hfirst hsecond hplaced
    simpa using ⟨hdescriptor, h.schemaStaging hmade hfirst path hpath,
      apart_of_contents?_eq_none hnone path⟩

theorem Disk.SparesOutputs.contents?_eq
    (h : d.SparesOutputs folder ⟨Path.join folder descriptorFile, Path.join folder schemaFile⟩)
    (hrun : (Storage.unreliable.writeOutputs documents folder descriptorFile schemaFile).run
      (d, mishaps) = (.error e, (d', rest)))
    (hpath : path ∈ OutputPaths.all
      ⟨Path.join folder descriptorFile, Path.join folder schemaFile⟩) :
    d'.contents? path = d.contents? path := by
  rcases writeOutputs_eq_error hrun with ⟨hgrows, hmore⟩ | ⟨hmade, removed, hemptied, hedited⟩
  · exact hgrows.contents?_eq_of_between hmore (h.folders path hpath)
  · rw [hedited.contents?_eq_iff.mpr (h.apart hmade hemptied hpath)]
    exact h.folders path hpath

/-! ### Writes that fail -/

section Failing

variable {p q : Placement}

/-- The first file cannot even be opened. -/
theorem stage_fails_first (d₀ : Disk) (p q : Placement) :
    ∃ mishaps e d' rest, (Storage.unreliable.stage [] [p, q]).run (d₀, mishaps) =
      (.error e, (d', rest)) ∧ d₀.Edited d' [] [p.staging] := by
  have hfirst : d₀.Edited d₀ ([p.staging] ++ []) [] :=
    (Edited.refl d₀).congr (by simp) fun _ ↦ Iff.rfl
  exact ⟨_, _, _, _, run_stage_mishap d₀ p [] [q] [], hfirst.removeFiles⟩

theorem stage_fails_second (hp : d₀.CanHold p.staging) (q : Placement) :
    ∃ mishaps e d' rest, (Storage.unreliable.stage [] [p, q]).run (d₀, mishaps) =
      (.error e, (d', rest)) ∧ d₀.Edited d' [] [p.staging, q.staging] := by
  have hwritten : d₀.Edited (d₀.writeFile p.staging p.content).2
      ([p.staging, q.staging] ++ []) [] :=
    ((Edited.refl d₀).writeFile _ _).congr (by simp) fun _ ↦ Iff.rfl
  exact ⟨_, _, _, _, (run_stage_cons hp [] [q] [some 0]).trans (run_stage_mishap _ q _ [] []),
    hwritten.removeFiles⟩

/-- Both files are staged, the first one is moved to its place, and the second one is not. -/
theorem place_fails_second (hp : d₀.CanHold p.staging) (hq : d₀.CanHold q.staging)
    (htarget : d₀.CanHold p.path) :
    ∃ mishaps d₂ mishaps₂ e d' rest,
      (Storage.unreliable.stage [] [p, q]).run (d₀, mishaps) = (.ok (), (d₂, mishaps₂)) ∧
      (Storage.unreliable.place [] [p, q]).run (d₂, mishaps₂) = (.error e, (d', rest)) ∧
      d₀.Edited d' [] [p.staging, q.staging, p.path] := by
  obtain ⟨d₁, hd₁⟩ : ∃ d₁, d₁ = (d₀.writeFile p.staging p.content).2 := ⟨_, rfl⟩
  obtain ⟨d₂, hd₂⟩ : ∃ d₂, d₂ = (d₁.writeFile q.staging q.content).2 := ⟨_, rfl⟩
  have hfirst : d₀.Edited d₁ [p.staging] [] := hd₁ ▸ (Edited.refl d₀).writeFile _ _
  have hsecond : d₀.Edited d₂ [q.staging, p.staging] [] := hd₂ ▸ hfirst.writeFile _ _
  have hstage : (Storage.unreliable.stage [] [p, q]).run (d₀, [none, none, none, some 0]) =
      (.ok (), (d₂, [none, some 0])) := by
    rw [run_stage_cons hp, ← hd₁, run_stage_cons ((canHold_congr hfirst.folders).mpr hq), ← hd₂]
    rfl
  have hsource : (d₂.contents? p.staging).isSome = true := by
    rw [hd₂]
    refine isSome_contents?_writeFile ?_ q.staging q.content
    rw [hd₁, contents?_writeFile_self hp]
    rfl
  have hplace := run_place_cons hsource ((canHold_congr hsecond.folders).mpr htarget) [] [q] [some 0]
  have hmoved : d₂.renameFile p.staging p.path = (true, (d₂.renameFile p.staging p.path).2) :=
    Prod.ext (renameFile_fst_iff.mpr ⟨hsource, (canHold_congr hsecond.folders).mpr htarget⟩) rfl
  have hstaged : d₀.Edited d₂ (p.staging :: [q.staging]) [] :=
    hsecond.congr (by simp) fun _ ↦ Iff.rfl
  have hplaced : d₀.Edited (d₂.renameFile p.staging p.path).2 ([q.staging] ++ [p.path])
      [p.staging] :=
    (hstaged.renameFile hmoved).congr (by simp) fun _ ↦ Iff.rfl
  have hcleaned : d₀.Edited ((d₂.renameFile p.staging p.path).2.removeFiles [q.staging])
      ([p.path] ++ []) ([q.staging] ++ [p.staging]) := hplaced.removeFiles
  refine ⟨_, d₂, _, _, _, _, hstage, hplace.trans (run_place_mishap _ q _ [] []),
    hcleaned.removeFiles.congr (by simp) fun path ↦ ?_⟩
  simp only [List.mem_append, List.mem_cons, List.not_mem_nil, or_false]
  tauto

end Failing

/-! ### Outputs that are lost -/

/-- Whatever fails on the way, the outputs stay as they were. -/
def WritesAllOrNothing (d : Disk) (documents : Documents)
    (folder descriptorFile schemaFile : String) : Prop :=
  ∀ mishaps error after rest,
    (Storage.unreliable.writeOutputs documents folder descriptorFile schemaFile).run (d, mishaps) =
      (.error error, (after, rest)) →
    ∀ path ∈ OutputPaths.all ⟨Path.join folder descriptorFile, Path.join folder schemaFile⟩,
      after.contents? path = d.contents? path

theorem run_makeFolders (hmade : d.makeFolders folder = (true, d₀)) (mishaps : Mishaps) :
    (Storage.unreliable.makeFolders folder).run (d, none :: mishaps) = (true, (d₀, mishaps)) :=
  congrArg (fun made : Bool × Disk ↦ (made.1, (made.2, mishaps))) hmade

theorem run_writeOutputs_of_stage (hmade : d.makeFolders folder = (true, d₀))
    (hstage : (Storage.unreliable.stage [] (documents.placedAt
      ⟨Path.join folder descriptorFile, Path.join folder schemaFile⟩)).run (d₀, mishaps) =
        (.error e, (d', rest))) :
    (Storage.unreliable.writeOutputs documents folder descriptorFile schemaFile).run
      (d, none :: mishaps) = (.error e, (d', rest)) := by
  refine (run_bind (run_makeFolders hmade mishaps)).trans ?_
  rw [if_pos rfl]
  exact run_bind hstage

theorem run_writeOutputs_of_place {d₂ : Disk} {mishaps₂ : Mishaps}
    (hmade : d.makeFolders folder = (true, d₀))
    (hstage : (Storage.unreliable.stage [] (documents.placedAt
      ⟨Path.join folder descriptorFile, Path.join folder schemaFile⟩)).run (d₀, mishaps) =
        (.ok (), (d₂, mishaps₂)))
    (hplace : (Storage.unreliable.place [] (documents.placedAt
      ⟨Path.join folder descriptorFile, Path.join folder schemaFile⟩)).run (d₂, mishaps₂) =
        (.error e, (d', rest))) :
    (Storage.unreliable.writeOutputs documents folder descriptorFile schemaFile).run
      (d, none :: mishaps) = (.error e, (d', rest)) := by
  refine (run_bind (run_makeFolders hmade mishaps)).trans ?_
  rw [if_pos rfl]
  exact (run_bind hstage).trans (run_bind hplace)

/-- If no failure takes an earlier output away, none is where a failure can. -/
theorem WritesAllOrNothing.sparesOutputs
    (h : WritesAllOrNothing d documents folder descriptorFile schemaFile) :
    d.SparesOutputs folder ⟨Path.join folder descriptorFile, Path.join folder schemaFile⟩ := by
  have hfolders : ∀ path ∈ OutputPaths.all ⟨Path.join folder descriptorFile,
      Path.join folder schemaFile⟩,
      (d.makeFolders folder).2.contents? path = d.contents? path := by
    refine h [some (Path.segments folder).length] (.outputUnwritable folder) _ [] ?_
    rw [← makeFoldersUpTo_eq]
    rfl
  have hapart {removed : List String} {d' : Disk}
      (hedited : (d.makeFolders folder).2.Edited d' [] removed) {path : String}
      (hpath : path ∈ OutputPaths.all ⟨Path.join folder descriptorFile,
        Path.join folder schemaFile⟩)
      (heq : d'.contents? path = d.contents? path) :
      ∀ p ∈ removed, (d.makeFolders folder).2.Apart p path :=
    hedited.contents?_eq_iff.mp (heq.trans (hfolders path hpath).symm)
  constructor
  case folders => exact hfolders
  case descriptorStaging =>
    intro hmade path hpath
    obtain ⟨mishaps, e, d', rest, hrun, hedited⟩ := stage_fails_first (d.makeFolders folder).2
      ⟨Path.join folder descriptorFile, documents.descriptor⟩
      ⟨Path.join folder schemaFile, documents.schema⟩
    have heq := h _ _ _ _ (run_writeOutputs_of_stage (Prod.ext hmade rfl) hrun) path hpath
    exact hapart hedited hpath heq _ List.mem_cons_self
  case schemaStaging =>
    intro hmade hfirst path hpath
    obtain ⟨mishaps, e, d', rest, hrun, hedited⟩ := stage_fails_second
      (p := ⟨Path.join folder descriptorFile, documents.descriptor⟩) hfirst
      ⟨Path.join folder schemaFile, documents.schema⟩
    have heq := h _ _ _ _ (run_writeOutputs_of_stage (Prod.ext hmade rfl) hrun) path hpath
    exact hapart hedited hpath heq _ (List.mem_cons_of_mem _ List.mem_cons_self)
  case replaced =>
    intro hmade hfirst hsecond htarget
    obtain ⟨mishaps, d₂, mishaps₂, e, d', rest, hstage, hplace, hedited⟩ := place_fails_second
      (p := ⟨Path.join folder descriptorFile, documents.descriptor⟩)
      (q := ⟨Path.join folder schemaFile, documents.schema⟩) hfirst hsecond htarget
    have hrun := run_writeOutputs_of_place (Prod.ext hmade rfl) hstage hplace
    have hpath : Path.join folder descriptorFile ∈ OutputPaths.all
        ⟨Path.join folder descriptorFile, Path.join folder schemaFile⟩ := List.mem_cons_self
    have hself := hapart hedited hpath (h _ _ _ _ hrun _ hpath) (Path.join folder descriptorFile)
      (List.mem_cons_of_mem _ (List.mem_cons_of_mem _ List.mem_cons_self))
    rcases hself with hnone | hne
    · exact (hfolders _ hpath).symm.trans hnone
    · exact absurd rfl hne

theorem writesAllOrNothing_iff :
    WritesAllOrNothing d documents folder descriptorFile schemaFile ↔
      d.SparesOutputs folder ⟨Path.join folder descriptorFile, Path.join folder schemaFile⟩ :=
  ⟨WritesAllOrNothing.sparesOutputs, fun h _ _ _ _ hrun _ hpath ↦ h.contents?_eq hrun hpath⟩

theorem allOrNothing_of_sparesOutputs {options : CompileOptions}
    (h : ∀ project repository, Project.read d options.project = .ok project →
      project.resolve d options = .ok repository →
      d.SparesOutputs (project.outputFolder options) (project.outputPaths options)) :
    AllOrNothing d options := by
  intro mishaps error after rest hrun project hread path hpath
  rw [compileProject, hread] at hrun
  cases hresolve : project.resolve d options with
  | error =>
    simp only [hresolve] at hrun
    obtain ⟨-, hstate⟩ := Prod.mk.inj hrun
    rw [← (Prod.mk.inj hstate).1]
  | ok repository =>
    simp only [hresolve] at hrun
    obtain ⟨written, ⟨d', rest'⟩, hwrite, hreturn⟩ := run_bind_eq_iff.mp hrun
    cases written with
    | ok => exact absurd (Prod.mk.inj hreturn).1 (by simp)
    | error =>
      obtain ⟨-, hstate⟩ := Prod.mk.inj hreturn
      obtain rfl := (Prod.mk.inj hstate).1
      exact writesAllOrNothing_iff.mpr (h project repository hread hresolve) _ _ _ _ hwrite path
        hpath

/-- A compilation is all or nothing, whatever fails on the way, exactly if its project cannot be
read or resolved, or no earlier output is where a failure can take it away. -/
theorem allOrNothing_iff (d : Disk) (options : CompileOptions) :
    AllOrNothing d options ↔ ∀ project repository,
      Project.read d options.project = .ok project →
      project.resolve d options = .ok repository →
      d.SparesOutputs (project.outputFolder options) (project.outputPaths options) := by
  constructor
  · intro h project repository hread hresolve
    have hwrites : WritesAllOrNothing d repository.documents (project.outputFolder options)
        project.descriptorFile project.schemaFile := by
      intro mishaps error after rest hrun
      refine h mishaps (.file error) after rest ?_ project hread
      rw [compileProject, hread]
      simp only [hresolve]
      exact run_bind hrun
    exact hwrites.sparesOutputs
  · exact allOrNothing_of_sparesOutputs

/-- A first compilation, with no output there yet, is all or nothing. -/
theorem allOrNothing_of_fresh {options : CompileOptions}
    (hfresh : ∀ project, Project.read d options.project = .ok project →
      ∀ path ∈ (project.outputPaths options).all,
        (d.makeFolders (project.outputFolder options)).2.contents? path = none) :
    AllOrNothing d options := by
  refine allOrNothing_of_sparesOutputs fun project repository hread _ ↦ ?_
  have hnone := hfresh project hread
  have hbefore : ∀ path ∈ (project.outputPaths options).all, d.contents? path = none := by
    intro path hpath
    refine Option.eq_none_iff_forall_ne_some.mpr fun content hcontent ↦ ?_
    have hafter := (grows_makeFolders (project.outputFolder options) d).contents?_eq_some hcontent
    exact absurd ((hnone path hpath).symm.trans hafter) (by simp)
  constructor
  case folders => exact fun path hpath ↦ (hnone path hpath).trans (hbefore path hpath).symm
  case descriptorStaging => exact fun _ path hpath ↦ Or.inl (hnone path hpath)
  case schemaStaging => exact fun _ _ path hpath ↦ Or.inl (hnone path hpath)
  case replaced => exact fun _ _ _ _ ↦ hbefore _ List.mem_cons_self

/-- A project without declarations, with an earlier descriptor and a folder at the place of the
schema. -/
def blockedSchema : Disk where
  items := [(#["p"], .folder), (#["p", "Shop.ormproj"], .file (Text.encode "<Project/>")),
    (#["p", "build"], .folder),
    (#["p", "build", "repository_user.xml"], .file (Text.encode "old")),
    (#["p", "build", "project-schema.xml"], .folder)]

/-- The schema cannot be placed, and with what has been written the earlier descriptor goes too. -/
theorem not_allOrNothing_blockedSchema :
    ¬ AllOrNothing blockedSchema { project := "p/Shop.ormproj" } := by
  have hread : (do
      let project ← Project.read blockedSchema "p/Shop.ormproj"
      return (project.outputPaths { project := "p/Shop.ormproj" }).descriptor) =
        .ok "p/build/repository_user.xml" := by
    decide +kernel
  have hfails : ((compileProject .onDisk blockedSchema { project := "p/Shop.ormproj" }).run
      blockedSchema).1.toBool = false := by
    decide +kernel
  have hlost : ((compileProject .onDisk blockedSchema { project := "p/Shop.ormproj" }).run
      blockedSchema).2.contents? "p/build/repository_user.xml" = none := by
    decide +kernel
  have hearlier : blockedSchema.contents? "p/build/repository_user.xml" =
      some (Text.encode "old") := by
    decide +kernel
  intro h
  obtain ⟨project, hproject, hpath⟩ := Traversal.bind_eq_ok_iff.mp hread
  have hrun := Follows.compileProject blockedSchema { project := "p/Shop.ormproj" } blockedSchema
  cases hresult : ((compileProject .onDisk blockedSchema { project := "p/Shop.ormproj" }).run
      blockedSchema).1 with
  | ok =>
    rw [hresult] at hfails
    exact absurd hfails (by simp [Except.toBool])
  | error e =>
    rw [hresult] at hrun
    have hsame := h [] e _ [] hrun project hproject "p/build/repository_user.xml"
      (by rw [← Traversal.pure_eq_ok_iff.mp hpath]; exact List.mem_cons_self)
    rw [hlost, hearlier] at hsame
    exact absurd hsame (by simp)

end ClassMap
