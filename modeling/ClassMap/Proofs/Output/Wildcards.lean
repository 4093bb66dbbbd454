import ClassMap.Proofs.Files.Mirrored
import ClassMap.Proofs.Output.Sources
import ClassMap.Proofs.Removal

/-!
The sources of a project with wildcards on a disk that its documents have been written to. A run
leaves every XML file a file (`isSome_contents?_of_writes`), so an item that has included a file
includes it again. What it includes after the run it has included before, as far as the path has led
anywhere then; it is only through the folders that the run has made that there are new paths, and to
files that have been there before (`findsAgain_of_read`).
-/

set_option autoImplicit false
set_option relaxedAutoImplicit false

namespace ClassMap

open Disk Traversal

namespace Project

variable {d d' e made : Disk} {folder item path file : String} {place : Location}
  {documents : Documents} {paths : OutputPaths} {content : Bytes}
  {included removed found found' files files' sources sources' : List String}

/-! ### Files that stay -/

/-- A path with a name at its end leads to that name in a folder. -/
theorem exists_push_of_fileName? {name : String} (hname : Path.fileName? path = some name)
    (hplace : d.locate? path = some place) : ∃ around : Location, place = around.push name := by
  obtain ⟨others, hcomponents⟩ :=
    List.getLast?_eq_some_iff.mp (Path.fileName?_eq_some_iff.mp hname)
  have halong := along?_of_locate? hplace
  rw [along?, hcomponents, List.foldlM_append] at halong
  obtain ⟨around, -, henter⟩ := Option.bind_eq_some_iff.mp halong
  have hstep : d.step? around name = some place := by simpa [enter?] using henter
  obtain ⟨-, rfl, -⟩ := step?_eq_some_iff.mp hstep
  exact ⟨around, stepPlace_of_isName around (Path.isName_of_fileName? hname)⟩

/-- An XML file is a file after a run as well: it may have been replaced, but not moved away. -/
theorem isSome_contents?_of_writes (hgrows : d.Grows made)
    (hwrites : made.Writes documents paths d') (hxml : isXml path = true)
    (hfile : (d.contents? path).isSome = true) : (d'.contents? path).isSome = true := by
  obtain ⟨content, hcontent⟩ := Option.isSome_iff_exists.mp hfile
  obtain ⟨place, hplace, hitem⟩ :=
    contents?_eq_some_iff.mp (hgrows.contents?_eq_some hcontent)
  have hafter : d'.placeOf? path = some place :=
    (hwrites.edited.folders.placeOf?_eq path).trans hplace
  have hunstaged : ¬ made.Names paths.stagings place := by
    intro hstaged
    obtain ⟨around, staged, hpush⟩ := exists_push_stagingName hstaged
    obtain ⟨name, hname⟩ : ∃ name, Path.fileName? path = some name := by
      rw [isXml] at hxml
      split at hxml
      case h_1 ending hending => exact (Option.bind_eq_some_iff.mp hending).imp fun _ ↦ And.left
      case h_2 => exact Bool.noConfusion hxml
    have hlocate := locate?_of_placeOf? hplace (by rw [hitem]; rfl)
    obtain ⟨around', hpush'⟩ := exists_push_of_fileName? hname hlocate
    obtain ⟨rfl, -⟩ := Array.push_eq_push.mp (hpush'.symm.trans hpush)
    rw [isXml_stagingName hname] at hxml
    exact Bool.noConfusion hxml
  have hthere : ∃ content', d'.get? place = some (.file content') := by
    by_cases hwritten : made.Names paths.all place
    · rcases hwrites.get?_output hwritten with ⟨-, hstaged⟩ | hdescriptor | hschema
      · exact absurd hstaged hunstaged
      · exact ⟨_, hdescriptor⟩
      · exact ⟨_, hschema⟩
    · exact ⟨content, (hwrites.edited.kept place hwritten hunstaged).trans hitem⟩
  obtain ⟨content', hget⟩ := hthere
  rw [contents?_eq_some_iff.mpr ⟨place, hafter, hget⟩]
  rfl

/-! ### Items -/

theorem mem_includeItem_iff (hsound : d.Sound) (hitem : hasWildcard item = true)
    (h : includeItem d folder item = .ok found) :
    file ∈ found ↔ d.Selects (Path.join folder item) file ∧ isXml file = true := by
  have hselection : selection d folder item = found := by rw [selection, h]
  rw [← hselection, mem_selection_iff hsound hitem]

/-- Of the files that are on two disks, an item that can be read on both includes the same. -/
theorem mem_includeItem_congr (hd : d.Sound) (he : e.Sound)
    (h : includeItem d folder item = .ok found) (h' : includeItem e folder item = .ok found')
    (hfile : (d.contents? file).isSome = true) (hfile' : (e.contents? file).isSome = true) :
    file ∈ found ↔ file ∈ found' := by
  cases hitem : hasWildcard item with
  | true =>
    rw [mem_includeItem_iff hd hitem h, mem_includeItem_iff he hitem h',
      selects_iff hd he hfile hfile']
  | false => rw [eq_of_includeItem hitem h, eq_of_includeItem hitem h']

/-- What an item includes, it includes after a run as well. -/
theorem mem_includeItem_of_writes (hsound : d.Sound) (hsound' : d'.Sound) (hgrows : d.Grows made)
    (hwrites : made.Writes documents paths d') (h : includeItem d folder item = .ok found)
    (h' : includeItem d' folder item = .ok found') (hfile : (d.contents? file).isSome = true)
    (hmem : file ∈ found) : file ∈ found' := by
  cases hitem : hasWildcard item with
  | true =>
    have hxml := ((mem_includeItem_iff hsound hitem h).mp hmem).2
    exact (mem_includeItem_congr hsound hsound' h h' hfile
      (isSome_contents?_of_writes hgrows hwrites hxml hfile)).mp hmem
  | false =>
    rw [eq_of_includeItem hitem h] at hmem
    rwa [eq_of_includeItem hitem h']

/-! ### Sources -/

theorem mem_gather_iff (hlisted : included.isEmpty = false)
    (h : gather d folder included = .ok files) :
    file ∈ files ↔ ∃ item ∈ included, ∃ found, includeItem d folder item = .ok found ∧
      file ∈ found := by
  rw [gather, hlisted, if_neg (by simp)] at h
  obtain ⟨lists, hlists, hflat⟩ := bind_eq_ok_iff.mp h
  rw [← pure_eq_ok_iff.mp hflat, List.mem_flatten]
  constructor
  · rintro ⟨found, hfound, hfile⟩
    obtain ⟨item, hitem, hread⟩ := exists_of_mem_mapM hlists hfound
    exact ⟨item, hitem, found, hread, hfile⟩
  · rintro ⟨item, hitem, found, hread, hfile⟩
    obtain ⟨found', hfound', hread'⟩ := exists_mapM_of_mem hlists hitem
    obtain rfl := Except.ok.inj (hread.symm.trans hread')
    exact ⟨found, hfound', hfile⟩

/-- What each item that includes a file on one disk includes on another one as well is a source
there, in this or another way to write it. -/
theorem exists_source_of_items (hlisted : included.isEmpty = false)
    (hsources : sourcesOf d folder included removed = .ok sources)
    (hsources' : sourcesOf e folder included removed = .ok sources')
    (hitems : ∀ item found found', includeItem d folder item = .ok found →
      includeItem e folder item = .ok found' → file ∈ found → file ∈ found')
    (hmem : file ∈ sources) : ∃ other ∈ sources', Path.same file other = true := by
  obtain ⟨files, hfiles, rfl⟩ := sourcesOf_eq_ok_iff.mp hsources
  obtain ⟨files', hfiles', rfl⟩ := sourcesOf_eq_ok_iff.mp hsources'
  obtain ⟨hfile, hkept⟩ := List.mem_filter.mp (mem_of_mem_arrange hmem)
  obtain ⟨item, hitem, found, hread, hfound⟩ := (mem_gather_iff hlisted hfiles).mp hfile
  have hread' : ∃ found', includeItem e folder item = .ok found' := by
    rw [gather, hlisted, if_neg (by simp)] at hfiles'
    obtain ⟨lists, hlists, -⟩ := bind_eq_ok_iff.mp hfiles'
    exact (exists_mapM_of_mem hlists hitem).imp fun _ ↦ And.right
  obtain ⟨found', hread'⟩ := hread'
  have hfile' : file ∈ files' := (mem_gather_iff hlisted hfiles').mpr
    ⟨item, hitem, found', hread', hitems item found found' hread hread' hfound⟩
  exact exists_mem_arrange (List.mem_filter.mpr ⟨hfile', hkept⟩)

/-- All sources are found again, and what is found besides is found on a path that has led nowhere
before. -/
structure FindsAgain (d : Disk) (sources sources' : List String) : Prop where
  again : ∀ source ∈ sources, ∃ other ∈ sources', Path.same source other = true
  before : ∀ other ∈ sources', d.exists? other = true →
    ∃ source ∈ sources, Path.same other source = true

/-- Items that include files find their sources again after a run, if none of these is an output. -/
theorem findsAgain_of_writes (hlisted : included.isEmpty = false) (hsound : d.Sound)
    (hsound' : d'.Sound) (hgrows : d.Grows made) (hwrites : made.Writes documents paths d')
    (hsources : sourcesOf d folder included removed = .ok sources)
    (hsources' : sourcesOf d' folder included removed = .ok sources')
    (hread : ∀ source ∈ sources, (d.contents? source).isSome = true)
    (hbeside : ∀ source ∈ sources', (d'.contents? source).isSome = true ∧
      ∀ output ∈ paths.all, d'.locate? source ≠ d'.locate? output) :
    FindsAgain d sources sources' := by
  constructor
  case again =>
    intro source hsource
    refine exists_source_of_items hlisted hsources hsources' (fun item found found' h h' hmem ↦ ?_)
      hsource
    exact mem_includeItem_of_writes hsound hsound' hgrows hwrites h h' (hread source hsource) hmem
  case before =>
    intro other hother hthere
    obtain ⟨hafter, hapart⟩ := hbeside other hother
    obtain ⟨content, hcontent⟩ := Option.isSome_iff_exists.mp hafter
    have hbefore : (d.contents? other).isSome = true := by
      rw [hwrites.contents?_eq_of_beside hgrows hthere hcontent hapart]
      rfl
    refine exists_source_of_items hlisted hsources' hsources (fun item found found' h h' hmem ↦ ?_)
      hother
    exact (mem_includeItem_congr hsound' hsound h h' hafter hbefore).mp hmem

theorem FindsAgain.refl (d : Disk) (sources : List String) : FindsAgain d sources sources :=
  ⟨fun source hsource ↦ ⟨source, hsource, beq_self_eq_true _⟩,
    fun source hsource _ ↦ ⟨source, hsource, beq_self_eq_true _⟩⟩

/-! ### Projects -/

variable {p p' : Project}

theorem pairwise_sources (h : Project.read d path = .ok p) :
    p.sources.Pairwise fun a b ↦ Path.le a b = true ∧ Path.same a b = false := by
  obtain ⟨root, -, hof⟩ := exists_root_of_read h
  obtain ⟨files, -, hsources⟩ := sourcesOf_eq_ok_iff.mp (sourcesOf_of_ofRoot hof)
  rw [← hsources]
  exact pairwise_arrange _

/-- A project whose file is as it was before a run, and none of whose sources is an output, is read
as before, but for sources on paths that are new. -/
theorem findsAgain_of_read {folder : String} (hmade : d.makeFolders folder = (true, made))
    (hwrites : made.Writes documents paths d') (hsound : d.Sound)
    (hbefore : Project.read d path = .ok p) (hafter : Project.read d' path = .ok p')
    (hsame : d'.contents? path = d.contents? path)
    (hread : ∀ source ∈ p.sources, (d.contents? source).isSome = true)
    (hbeside : ∀ source ∈ p'.sources, (d'.contents? source).isSome = true ∧
      ∀ output ∈ paths.all, d'.locate? source ≠ d'.locate? output) :
    p' = { p with sources := p'.sources } ∧ FindsAgain d p.sources p'.sources := by
  obtain ⟨root, hroot, hof, hof', hfolder⟩ :=
    exists_root_of_writes hmade hwrites hbefore hafter hsame
  have hsources := sourcesOf_of_ofRoot hof
  have hsources' := sourcesOf_of_ofRoot hof'
  refine ⟨eq_of_ofRoot hof hof', ?_⟩
  cases hlisted : (sourceItems root "Include").isEmpty with
  | true =>
    have hnone : ∀ item ∈ sourceItems root "Include", hasWildcard item = false := by
      rw [List.isEmpty_iff.mp hlisted]
      simp
    rw [sourcesOf_eq hmade hwrites hsound hfolder hnone hsources hsources' hbeside]
    exact .refl d p.sources
  | false =>
    exact findsAgain_of_writes hlisted hsound (hwrites.sound (hsound.of_makeFolders hmade))
      (grows_of_makeFolders hmade) hwrites hsources hsources' hread hbeside

/-- Where no path is new, the sources are the same paths in the same order. -/
theorem FindsAgain.map_components_eq (h : FindsAgain d p.sources p'.sources)
    (hthere : ∀ other ∈ p'.sources, d.exists? other = true)
    (hread : Project.read d path = .ok p) (hread' : Project.read d' path = .ok p') :
    p'.sources.map Path.components = p.sources.map Path.components := by
  refine (map_components_eq_iff (pairwise_sources hread') (pairwise_sources hread)).mpr
    fun components ↦ ?_
  simp only [List.mem_map]
  constructor
  · rintro ⟨other, hother, rfl⟩
    obtain ⟨source, hsource, hsame⟩ := h.before other hother (hthere other hother)
    exact ⟨source, hsource, (Path.same_iff.mp hsame).symm⟩
  · rintro ⟨source, hsource, rfl⟩
    obtain ⟨other, hother, hsame⟩ := h.again source hsource
    exact ⟨other, hother, (Path.same_iff.mp hsame).symm⟩

end Project

end ClassMap
