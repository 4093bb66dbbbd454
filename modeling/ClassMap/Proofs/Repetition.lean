import ClassMap.Proofs.AllOrNothing
import ClassMap.Proofs.Output.Foreign
import ClassMap.Proofs.Output.Wildcards

/-!
Compiling a project again. The documents are XML files, so a run can leave them where the next run
looks for declarations, and a document is never taken for declarations. A second run repeats the
first one if it reads the same project with the same sources, which is as much as can be asked for,
and it does not if the project file has been overwritten or an output is found among the sources. On
a sound disk, what a run changes is seen by the next one at the outputs and through the folders it
has made. So for a project without wildcards these are the only two causes, and for one with
wildcards they are unless a folder that has been made opens a way to a source
(`repeats_iff_sparesInput`). All sources are found again in any case, and those that are found
besides have not been there under their paths (`findsAgain_of_sparesInput`).
-/

set_option autoImplicit false
set_option relaxedAutoImplicit false

namespace ClassMap

open Disk Traversal

/-- A compilation succeeds and leaves both outputs as they are. -/
def Repeats (d : Disk) (options : CompileOptions) (paths : OutputPaths) : Prop :=
  ∃ after, (compileProject .onDisk d options).run d = (.ok paths, after) ∧
    ∀ path ∈ paths.all, after.contents? path = d.contents? path

/-- The same project is read from both disks, and so are its sources. -/
def SameInput (d d' : Disk) (path : String) : Prop :=
  ∃ project, Project.read d path = .ok project ∧ Project.read d' path = .ok project ∧
    ∀ source ∈ project.sources, d'.contents? source = d.contents? source

/-- The project file is as it was, and all sources that are found can be read and are not
outputs. -/
structure SparesInput (d d' : Disk) (path : String) (paths : OutputPaths) : Prop where
  projectFile : d'.contents? path = d.contents? path
  sources : ∃ project, Project.read d' path = .ok project ∧ ∀ source ∈ project.sources,
    (d'.contents? source).isSome = true ∧
      ∀ output ∈ paths.all, d'.locate? source ≠ d'.locate? output

variable {d d' e e' made : Disk} {options : CompileOptions} {paths : OutputPaths}
  {documents : Documents} {path : String} {content : Bytes}

/-! ### Runs that succeed -/

/-- A run that succeeds has read and resolved the project and written its documents. -/
theorem compileProject_eq_ok_iff :
    (compileProject .onDisk d options).run e = (.ok paths, e') ↔
      ∃ project repository made, Project.read d options.project = .ok project ∧
        project.resolve d options = .ok repository ∧ paths = project.outputPaths options ∧
        e.makeFolders (project.outputFolder options) = (true, made) ∧
        made.Writes repository.documents paths e' := by
  rw [compileProject]
  constructor
  · intro hrun
    cases hread : Project.read d options.project with
    | error =>
      rw [hread] at hrun
      exact absurd (Prod.mk.inj hrun).1 (by simp)
    | ok project =>
      cases hresolve : project.resolve d options with
      | error =>
        simp only [hread, hresolve] at hrun
        exact absurd (Prod.mk.inj hrun).1 (by simp)
      | ok repository =>
        simp only [hread, hresolve] at hrun
        obtain ⟨written, e₁, hwrite, hreturn⟩ := run_bind_eq_iff.mp hrun
        cases written with
        | error => exact absurd (Prod.mk.inj hreturn).1 (by simp)
        | ok =>
          obtain ⟨hpaths, rfl⟩ := Prod.mk.inj hreturn
          obtain rfl := Except.ok.inj hpaths
          obtain ⟨rfl, made, hmade, hwrites⟩ := writeOutputs_eq_ok_iff.mp hwrite
          exact ⟨project, repository, made, rfl, hresolve, rfl, hmade, hwrites⟩
  · rintro ⟨project, repository, made, hread, hresolve, rfl, hmade, hwrites⟩
    simp only [hread, hresolve]
    exact run_bind_eq_iff.mpr ⟨_, _, writeOutputs_eq_ok_iff.mpr ⟨rfl, made, hmade, hwrites⟩, rfl⟩

theorem exists_mapM_of_resolve {project : Project} {repository : Repository}
    (h : project.resolve d options = .ok repository) :
    ∃ found, project.sources.mapM (Declarations.read d) = .ok found := by
  rw [Project.resolve] at h
  split at h
  case h_1 => exact absurd h (by simp)
  case h_2 decls hread => exact (bind_eq_ok_iff.mp hread).imp fun _ ↦ And.left

theorem exists_read_of_resolve {project : Project} {repository : Repository}
    (h : project.resolve d options = .ok repository) {source : String}
    (hsource : source ∈ project.sources) : ∃ decls, Declarations.read d source = .ok decls := by
  obtain ⟨found, hfound⟩ := exists_mapM_of_resolve h
  obtain ⟨decls, -, hread⟩ := exists_mapM_of_mem hfound hsource
  exact ⟨decls, hread⟩

theorem isSome_contents?_of_read {decls : List ClassDecl}
    (h : Declarations.read d path = .ok decls) : (d.contents? path).isSome = true := by
  cases hcontent : d.contents? path with
  | some content => rfl
  | none =>
    rw [Declarations.read, hcontent] at h
    exact absurd h (by simp)

/-- The same declarations are read from files with the same content. -/
theorem read_of_contents?_eq {other : String} {decls : List ClassDecl}
    (h : Declarations.read d path = .ok decls) (hcontent : d'.contents? other = d.contents? path) :
    Declarations.read d' other = .ok decls := by
  rw [Declarations.read] at h ⊢
  rw [hcontent]
  cases htext : (d.contents? path).bind Text.decodeFile? with
  | none =>
    rw [htext] at h
    exact absurd h (by simp)
  | some text =>
    simp only [htext, Declarations.parse] at h ⊢
    cases hroot : Xml.parse? (Declarations.withoutMark text) with
    | none =>
      rw [hroot] at h
      exact absurd h (by simp)
    | some root =>
      simp only [hroot] at h ⊢
      cases hdecls : Declarations.ofRoot root with
      | error fault =>
        rw [hdecls] at h
        exact absurd h (by simp)
      | ok decls' =>
        rw [hdecls] at h
        exact h

theorem resolve_congr {project : Project} {sources : List String} (options : CompileOptions)
    (h : sources.mapM (Declarations.read d') = project.sources.mapM (Declarations.read d)) :
    ({ project with sources } : Project).resolve d' options = project.resolve d options := by
  rw [Project.resolve, Project.resolve, Declarations.readAll, Declarations.readAll, h]
  rfl

/-! ### When a run can be repeated -/

/-- A run is repeated if the project reads the same declarations again, from whatever sources. -/
theorem repeats_of_mapM_eq {project : Project} {repository : Repository} {sources : List String}
    (hresolve : project.resolve d options = .ok repository)
    (hmade : d.makeFolders (project.outputFolder options) = (true, made))
    (hwrites : made.Writes repository.documents (project.outputPaths options) d')
    (hread : Project.read d' options.project = .ok { project with sources })
    (hsources : sources.mapM (Declarations.read d') =
      project.sources.mapM (Declarations.read d)) :
    Repeats d' options (project.outputPaths options) := by
  have hfolders := hwrites.edited.folders
  obtain ⟨after, hagain, hagree⟩ := hwrites.again hfolders
  have hresolve' := (resolve_congr options hsources).trans hresolve
  exact ⟨after, compileProject_eq_ok_iff.mpr ⟨_, repository, d', hread, hresolve', rfl,
    makeFolders_again hmade hfolders.kept, hagain⟩, fun path hpath ↦ hagree.contents?_eq hpath⟩

theorem repeats_of_sameInput (hrun : (compileProject .onDisk d options).run d = (.ok paths, d'))
    (hsame : SameInput d d' options.project) : Repeats d' options paths := by
  obtain ⟨project, repository, made, hread, hresolve, rfl, hmade, hwrites⟩ :=
    compileProject_eq_ok_iff.mp hrun
  obtain ⟨project', hread', hafter, hsources⟩ := hsame
  obtain rfl := Except.ok.inj (hread.symm.trans hread')
  refine repeats_of_mapM_eq hresolve hmade hwrites hafter (mapM_congr fun source hsource ↦ ?_)
  rw [Declarations.read, Declarations.read, hsources source hsource]

theorem sparesInput_of_repeats (hrun : (compileProject .onDisk d options).run d = (.ok paths, d'))
    (hrepeats : Repeats d' options paths) : SparesInput d d' options.project paths := by
  obtain ⟨project, repository, made, hread, -, -, hmade, hwrites⟩ :=
    compileProject_eq_ok_iff.mp hrun
  obtain ⟨after, hagain, -⟩ := hrepeats
  obtain ⟨project', repository', -, hread', hresolve', -⟩ := compileProject_eq_ok_iff.mp hagain
  have houtput : ∀ output ∈ paths.all, ∀ content, d'.contents? output = some content →
      IsDocument content := fun output houtput content hcontent ↦
    ⟨repository, hwrites.contents?_output houtput hcontent⟩
  constructor
  case projectFile =>
    obtain ⟨root, hroot, -⟩ := Project.exists_root_of_read hread
    obtain ⟨root', hroot', -⟩ := Project.exists_root_of_read hread'
    obtain ⟨content, hbefore⟩ :=
      Option.isSome_iff_exists.mp (Project.isSome_contents?_of_readRoot hroot)
    obtain ⟨content', hafter⟩ :=
      Option.isSome_iff_exists.mp (Project.isSome_contents?_of_readRoot hroot')
    rcases hwrites.contents?_cases hafter with hsame | ⟨output, hpath, hat⟩
    · rw [hafter, hbefore, ← hsame, (grows_of_makeFolders hmade).contents?_eq_some hbefore]
    · rw [contents?_congr_locate? hat] at hafter
      have hdocument := houtput output hpath content' hafter
      rw [← contents?_congr_locate? hat] at hafter
      exact absurd hread' (hdocument.project_read_ne_ok hafter project')
  case sources =>
    refine ⟨project', hread', fun source hsource ↦ ?_⟩
    obtain ⟨decls, hdecls⟩ := exists_read_of_resolve hresolve' hsource
    have hsome := isSome_contents?_of_read hdecls
    obtain ⟨content, hcontent⟩ := Option.isSome_iff_exists.mp hsome
    refine ⟨hsome, fun output hpath hat ↦ ?_⟩
    have hdocument := houtput output hpath content
      ((contents?_congr_locate? hat).symm.trans hcontent)
    exact hdocument.read_ne_ok hcontent decls hdecls

theorem sameInput_of_sparesInput
    (hrun : (compileProject .onDisk d options).run d = (.ok paths, d')) (hsound : d.Sound)
    (hplain : Project.IncludesPlainly d options.project)
    (hspares : SparesInput d d' options.project paths) : SameInput d d' options.project := by
  obtain ⟨project, repository, made, hread, hresolve, -, hmade, hwrites⟩ :=
    compileProject_eq_ok_iff.mp hrun
  obtain ⟨project', hread', hbeside⟩ := hspares.sources
  obtain rfl := Project.read_eq_of_beside hmade hwrites hsound hplain hread hread'
    hspares.projectFile hbeside
  refine ⟨project', hread, hread', fun source hsource ↦ ?_⟩
  obtain ⟨hsome, hapart⟩ := hbeside source hsource
  obtain ⟨content, hafter⟩ := Option.isSome_iff_exists.mp hsome
  obtain ⟨decls, hdecls⟩ := exists_read_of_resolve hresolve hsource
  obtain ⟨_, hbefore⟩ := Option.isSome_iff_exists.mp (isSome_contents?_of_read hdecls)
  have hunwritten := hwrites.contents?_eq_of_beside (grows_of_makeFolders hmade)
    (exists?_of_contents? hbefore) hafter hapart
  rw [hafter, hunwritten]

/-! ### Ways that a run opens -/

/-- No source that is found is on a path that has led nowhere before. -/
def OpensNoWay (d d' : Disk) (path : String) : Prop :=
  ∀ project, Project.read d' path = .ok project →
    ∀ source ∈ project.sources, d.exists? source = true

/-- The output folder of a project is there. -/
def HasOutputFolder (d : Disk) (options : CompileOptions) : Prop :=
  ∀ project, Project.read d options.project = .ok project →
    d.isFolderAt (project.outputFolder options) = true

/-- What a run that spares its input can do to the sources: all are found again, and those that are
found besides are on paths that have led nowhere before. -/
theorem findsAgain_of_sparesInput
    (hrun : (compileProject .onDisk d options).run d = (.ok paths, d')) (hsound : d.Sound)
    (hspares : SparesInput d d' options.project paths) :
    ∃ project project', Project.read d options.project = .ok project ∧
      Project.read d' options.project = .ok project' ∧
      project' = { project with sources := project'.sources } ∧
      Project.FindsAgain d project.sources project'.sources := by
  obtain ⟨project, repository, made, hread, hresolve, -, hmade, hwrites⟩ :=
    compileProject_eq_ok_iff.mp hrun
  obtain ⟨project', hread', hbeside⟩ := hspares.sources
  refine ⟨project, project', hread, hread', Project.findsAgain_of_read hmade hwrites hsound hread
    hread' hspares.projectFile (fun source hsource ↦ ?_) hbeside⟩
  obtain ⟨decls, hdecls⟩ := exists_read_of_resolve hresolve hsource
  exact isSome_contents?_of_read hdecls

theorem repeats_of_opensNoWay (hrun : (compileProject .onDisk d options).run d = (.ok paths, d'))
    (hsound : d.Sound) (hways : OpensNoWay d d' options.project)
    (hspares : SparesInput d d' options.project paths) : Repeats d' options paths := by
  obtain ⟨project, project', hread, hread', hproject, hagain⟩ :=
    findsAgain_of_sparesInput hrun hsound hspares
  obtain ⟨before, repository, made, hbefore, hresolve, rfl, hmade, hwrites⟩ :=
    compileProject_eq_ok_iff.mp hrun
  obtain rfl := Except.ok.inj (hread.symm.trans hbefore)
  obtain ⟨after, hafter, hbeside⟩ := hspares.sources
  obtain rfl := Except.ok.inj (hread'.symm.trans hafter)
  have hthere := hways project' hread'
  have hkeys := hagain.map_components_eq hthere hread hread'
  obtain ⟨found, hfound⟩ := exists_mapM_of_resolve hresolve
  refine repeats_of_mapM_eq hresolve hmade hwrites (hproject ▸ hread') ?_
  rw [hfound]
  refine mapM_eq_ok_of_map_eq hkeys hfound fun source _ other hother hsame decls hdecls ↦
    read_of_contents?_eq hdecls ?_
  -- both paths lead to one file, and the run has not written there
  obtain ⟨hsome, hapart⟩ := hbeside other hother
  obtain ⟨content, hcontent⟩ := Option.isSome_iff_exists.mp (isSome_contents?_of_read hdecls)
  obtain ⟨content', hcontent'⟩ := Option.isSome_iff_exists.mp hsome
  have hunwritten := hwrites.contents?_eq_of_beside (grows_of_makeFolders hmade)
    (hthere other hother) hcontent' hapart
  rw [hcontent', hcontent, contents?_eq_of_components hsame hunwritten hcontent]

/-- A run that makes no folder opens no way to a source, as what it leaves besides its outputs has
been there before. -/
theorem opensNoWay_of_hasOutputFolder
    (hrun : (compileProject .onDisk d options).run d = (.ok paths, d'))
    (hthere : HasOutputFolder d options) (hspares : SparesInput d d' options.project paths) :
    OpensNoWay d d' options.project := by
  obtain ⟨project, repository, made, hread, -, -, hmade, hwrites⟩ :=
    compileProject_eq_ok_iff.mp hrun
  obtain ⟨project', hread', hbeside⟩ := hspares.sources
  rw [makeFolders_of_isFolderAt (hthere project hread)] at hmade
  obtain rfl := (Prod.mk.inj hmade).2
  intro after hafter source hsource
  obtain rfl := Except.ok.inj (hread'.symm.trans hafter)
  obtain ⟨hsome, hapart⟩ := hbeside source hsource
  obtain ⟨content, hcontent⟩ := Option.isSome_iff_exists.mp hsome
  rcases hwrites.contents?_cases hcontent with hbefore | ⟨output, houtput, hat⟩
  · exact exists?_of_contents? hbefore
  · exact absurd hat (hapart output houtput)

/-- A second run repeats the first one if it has the same input, and only if the first one spared
its input. On a sound disk it does exactly then if the project has no wildcards, or if the first run
opens no way to a source, as when the output folder has been there before. -/
theorem repeats_iff_sparesInput
    (hrun : (compileProject .onDisk d options).run d = (.ok paths, d')) :
    (SameInput d d' options.project → Repeats d' options paths) ∧
      (Repeats d' options paths → SparesInput d d' options.project paths) ∧
      (d.Sound → Project.IncludesPlainly d options.project →
        (Repeats d' options paths ↔ SparesInput d d' options.project paths)) ∧
      (d.Sound → OpensNoWay d d' options.project ∨ HasOutputFolder d options →
        (Repeats d' options paths ↔ SparesInput d d' options.project paths)) := by
  refine ⟨repeats_of_sameInput hrun, sparesInput_of_repeats hrun, fun hsound hplain ↦ ?_,
    fun hsound hways ↦ ?_⟩
  · exact ⟨sparesInput_of_repeats hrun, fun hspares ↦
      repeats_of_sameInput hrun (sameInput_of_sparesInput hrun hsound hplain hspares)⟩
  · exact ⟨sparesInput_of_repeats hrun, fun hspares ↦ repeats_of_opensNoWay hrun hsound
      (hways.elim id fun hthere ↦ opensNoWay_of_hasOutputFolder hrun hthere hspares) hspares⟩

/-- A project that lists no files, with one file without declarations. -/
def plainShop : Disk where
  items := [(#["p"], .folder), (#["p", "Shop.ormproj"], .file (Text.encode "<Project/>")),
    (#["p", "model"], .folder), (#["p", "model", "a.xml"], .file (Text.encode "<declarations/>"))]

/-- The disk that a compilation leaves. -/
def Disk.compiled (d : Disk) (options : CompileOptions) : Disk :=
  ((compileProject .onDisk d options).run d).2

theorem run_eq_compiled {result : Except Failure OutputPaths}
    (h : ((compileProject .onDisk d options).run d).1 = result) :
    (compileProject .onDisk d options).run d = (result, d.compiled options) :=
  Prod.ext h rfl

/-- The folder that is made for the output is not looked at, and the run can be repeated. -/
theorem repeats_plainShop :
    Repeats (plainShop.compiled { project := "p/Shop.ormproj" }) { project := "p/Shop.ormproj" }
      ⟨"p/build/repository_user.xml", "p/build/project-schema.xml"⟩ := by
  have hsound : plainShop.Sound := by decide +kernel
  have hitems : (Project.readRoot plainShop "p/Shop.ormproj").map
      (Project.sourceItems · "Include") = .ok [] := by
    decide +kernel
  have hplain : Project.IncludesPlainly plainShop "p/Shop.ormproj" := by
    intro root hroot item hitem
    rw [hroot] at hitems
    have hnil : Project.sourceItems root "Include" = [] := Except.ok.inj hitems
    rw [hnil] at hitem
    exact absurd hitem List.not_mem_nil
  -- in one piece, so that the run is evaluated once
  have hchecks : ((compileProject .onDisk plainShop { project := "p/Shop.ormproj" }).run
        plainShop).1 = .ok ⟨"p/build/repository_user.xml", "p/build/project-schema.xml"⟩ ∧
      (plainShop.compiled { project := "p/Shop.ormproj" }).contents? "p/Shop.ormproj" =
        plainShop.contents? "p/Shop.ormproj" ∧
      (Project.read (plainShop.compiled { project := "p/Shop.ormproj" }) "p/Shop.ormproj").map
        (·.sources) = .ok ["p/model/a.xml"] ∧
      (∀ source ∈ ["p/model/a.xml"],
        ((plainShop.compiled { project := "p/Shop.ormproj" }).contents? source).isSome = true ∧
          ∀ output ∈ OutputPaths.all ⟨"p/build/repository_user.xml", "p/build/project-schema.xml"⟩,
            (plainShop.compiled { project := "p/Shop.ormproj" }).locate? source ≠
              (plainShop.compiled { project := "p/Shop.ormproj" }).locate? output) := by
    decide +kernel
  obtain ⟨hresult, hfile, hsources, hbeside⟩ := hchecks
  obtain ⟨project, hread, hlist⟩ := exists_eq_ok_of_map hsources
  exact ((repeats_iff_sparesInput (run_eq_compiled hresult)).2.2.1 hsound hplain).mpr
    ⟨hfile, project, hread, hlist ▸ hbeside⟩

/-- In another folder below the project, the output of the first run is a source of the second. -/
theorem not_repeats_plainShop :
    (compileProject .onDisk plainShop { project := "p/Shop.ormproj", outputFolder := "p/out" }).run
        plainShop =
      (.ok ⟨"p/out/repository_user.xml", "p/out/project-schema.xml"⟩,
        plainShop.compiled { project := "p/Shop.ormproj", outputFolder := "p/out" }) ∧
    ¬ Repeats (plainShop.compiled { project := "p/Shop.ormproj", outputFolder := "p/out" })
      { project := "p/Shop.ormproj", outputFolder := "p/out" }
      ⟨"p/out/repository_user.xml", "p/out/project-schema.xml"⟩ := by
  have hchecks : ((compileProject .onDisk plainShop
        { project := "p/Shop.ormproj", outputFolder := "p/out" }).run plainShop).1 =
          .ok ⟨"p/out/repository_user.xml", "p/out/project-schema.xml"⟩ ∧
      Project.scan
        (plainShop.compiled { project := "p/Shop.ormproj", outputFolder := "p/out" }) "p" =
          ["p/model/a.xml", "p/out/repository_user.xml", "p/out/project-schema.xml"] ∧
      (Project.readRoot
        (plainShop.compiled { project := "p/Shop.ormproj", outputFolder := "p/out" })
        "p/Shop.ormproj").map (fun root ↦ (Project.sourceItems root "Include",
          Project.sourceItems root "Remove")) = .ok ([], []) := by
    decide +kernel
  obtain ⟨hresult, hscan, hitems⟩ := hchecks
  have hrun := run_eq_compiled hresult
  refine ⟨hrun, fun hrepeats ↦ ?_⟩
  obtain ⟨project, hread, hbeside⟩ := (sparesInput_of_repeats hrun hrepeats).sources
  obtain ⟨root, hroot, hnone⟩ := exists_eq_ok_of_map hitems
  obtain ⟨hincluded, hremoved⟩ := Prod.mk.inj hnone
  have hparent : (Path.parent? "p/Shop.ormproj").getD "." = "p" := by decide +kernel
  have hschema : "p/out/project-schema.xml" ∈ Project.scan (plainShop.compiled
      { project := "p/Shop.ormproj", outputFolder := "p/out" })
      ((Path.parent? "p/Shop.ormproj").getD ".") := by
    rw [hparent, hscan]
    simp
  obtain ⟨source, hsource, hfound, hsame⟩ :=
    Project.exists_source_of_scan hread hroot hincluded hremoved hschema
  rw [hparent, hscan] at hfound
  have hother : Path.same "p/out/project-schema.xml" "p/model/a.xml" = false := by decide +kernel
  have houtput : source ∈ OutputPaths.all
      ⟨"p/out/repository_user.xml", "p/out/project-schema.xml"⟩ := by
    simp only [List.mem_cons, List.not_mem_nil, or_false] at hfound
    rcases hfound with rfl | rfl | rfl
    · exact absurd (hother.symm.trans hsame) (by simp)
    · simp [OutputPaths.all]
    · simp [OutputPaths.all]
  exact (hbeside source hsource).2 source houtput rfl

/-- A project that looks for sources two folders above what is in an empty folder. -/
def upwardShop : Disk where
  items := [(#["p"], .folder),
    (#["p", "Shop.ormproj"],
      .file (Text.encode "<Project><Source Include=\"made/*/../../a.xml\"/></Project>")),
    (#["p", "made"], .folder), (#["p", "a.xml"], .file (Text.encode "<notes/>"))]

def upwardOptions : CompileOptions where
  project := "p/Shop.ormproj"
  outputFolder := "p/made/out"

def upwardOutputs : OutputPaths where
  descriptor := "p/made/out/repository_user.xml"
  schema := "p/made/out/project-schema.xml"

/-- The folder that is made for the output opens a way to a file that has been no source, so with
wildcards a run that spares its input cannot always be repeated. -/
theorem not_repeats_upwardShop :
    (compileProject .onDisk upwardShop upwardOptions).run upwardShop =
        (.ok upwardOutputs, upwardShop.compiled upwardOptions) ∧
      SparesInput upwardShop (upwardShop.compiled upwardOptions) upwardOptions.project
        upwardOutputs ∧
      ¬ Repeats (upwardShop.compiled upwardOptions) upwardOptions upwardOutputs := by
  -- in one piece, so that the run is evaluated once
  have hchecks :
      ((compileProject .onDisk upwardShop upwardOptions).run upwardShop).1 = .ok upwardOutputs ∧
      (upwardShop.compiled upwardOptions).contents? upwardOptions.project =
        upwardShop.contents? upwardOptions.project ∧
      (Project.read (upwardShop.compiled upwardOptions) upwardOptions.project).map (·.sources) =
        .ok ["p/made/out/../../a.xml"] ∧
      (∀ source ∈ ["p/made/out/../../a.xml"],
        ((upwardShop.compiled upwardOptions).contents? source).isSome = true ∧
          ∀ output ∈ upwardOutputs.all, (upwardShop.compiled upwardOptions).locate? source ≠
            (upwardShop.compiled upwardOptions).locate? output) ∧
      (Declarations.read (upwardShop.compiled upwardOptions)
        "p/made/out/../../a.xml").toBool = false := by
    decide +kernel
  obtain ⟨hresult, hfile, hsources, hbeside, hnotes⟩ := hchecks
  obtain ⟨project, hread, hlist⟩ := exists_eq_ok_of_map hsources
  refine ⟨run_eq_compiled hresult, ⟨hfile, project, hread, hlist ▸ hbeside⟩, ?_⟩
  rintro ⟨after, hagain, -⟩
  obtain ⟨project', repository, -, hread', hresolve, -⟩ := compileProject_eq_ok_iff.mp hagain
  obtain rfl := Except.ok.inj (hread.symm.trans hread')
  obtain ⟨decls, hdecls⟩ := exists_read_of_resolve hresolve (hlist ▸ List.mem_singleton_self _)
  rw [hdecls] at hnotes
  exact Bool.noConfusion hnotes

end ClassMap
