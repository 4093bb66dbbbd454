import ClassMap.Project.Compile
import ClassMap.Proofs.Output.Staging
import ClassMap.Proofs.Traversal

/-!
The sources that a project finds on a disk that its documents have been written to. On a sound disk a
scan finds what it found before and the outputs, if they are where it looks; so a project without
wildcards that finds neither output among its sources finds the same sources as before.
-/

set_option autoImplicit false
set_option relaxedAutoImplicit false

namespace ClassMap

open Disk Traversal

namespace Project

variable {d d' : Disk} {place : Location} {folder path : String} {keep : String → Bool}
  {item : Item} {entry : Location × Item}

/-! ### A scan, item by item -/

/-- The path that a scan finds an item under, if it is one of those to keep. -/
def found? (folder : String) (place : Location) (keep : String → Bool) (entry : Location × Item) :
    Option String :=
  let names := entry.1.toList.drop place.size
  let path := names.foldl Path.join folder
  if isWithin place entry.1 && entry.1 != place && entry.2 != .folder &&
      Path.isUsable (names.dropLast.foldl Path.join folder) && isXml path &&
      !names.any outputFolders.contains then
    (some path).filter keep
  else none

theorem filter_scan (d : Disk) (folder : String) (keep : String → Bool) :
    (scan d folder).filter keep =
      match d.locate? folder with
      | some place => d.items.filterMap (found? folder place keep)
      | none => [] := by
  rw [scan, filesBelow]
  cases d.locate? folder with
  | none => rfl
  | some place =>
    simp only [below, List.filter_filterMap, List.map_filterMap, List.filterMap_filterMap]
    refine List.filterMap_congr fun entry _ ↦ ?_
    simp only [found?]
    generalize entry.1.toList.drop place.size = names
    generalize (isWithin place entry.1 && entry.1 != place) = within
    cases within with
    | false => rfl
    | true =>
      cases entry.2 with
      | folder => rfl
      | file content =>
        cases husable : Path.isUsable (names.dropLast.foldl Path.join folder) <;>
          cases hxml : isXml (names.foldl Path.join folder) <;>
          cases hmade : names.any outputFolders.contains <;>
          simp only [if_true, if_false, Bool.false_eq_true, Option.bind_some, Option.filter_some,
            husable, hxml, hmade] <;> rfl

/-- What is found is an XML file to keep and in no output folder, under the names on the way to
it. -/
theorem found?_eq_some_iff : found? folder place keep entry = some path ↔ ∃ names : List String,
    entry.1 = place ++ names.toArray ∧ names ≠ [] ∧ (∃ content, entry.2 = .file content) ∧
      Path.isUsable (names.dropLast.foldl Path.join folder) = true ∧ isXml path = true ∧
      (∀ name ∈ names, name ∉ outputFolders) ∧ keep path = true ∧
      path = names.foldl Path.join folder := by
  constructor
  · intro h
    simp only [found?] at h
    split at h
    case isTrue hcond =>
      simp only [Bool.and_eq_true] at hcond
      obtain ⟨⟨⟨⟨⟨hwithin, hne⟩, hfile⟩, husable⟩, hxml⟩, hmade⟩ := hcond
      obtain ⟨hpath, hkeep⟩ := Option.filter_eq_some_iff.mp h
      obtain rfl := Option.some.inj hpath
      have hplace : entry.1 = place ++ (entry.1.toList.drop place.size).toArray := by
        obtain ⟨more, hmore⟩ := List.isPrefixOf_iff_prefix.mp hwithin
        rw [← Array.toList_inj, Array.toList_append, ← hmore, ← Array.length_toList, List.drop_left]
      refine ⟨_, hplace, fun hnil ↦ ?_, ?_, husable, hxml, by simpa using hmade, hkeep, rfl⟩
      · rw [hnil, Array.append_empty] at hplace
        exact absurd hplace (by simpa using hne)
      · cases hitem : entry.2 with
        | file content => exact ⟨content, rfl⟩
        | folder =>
          rw [hitem] at hfile
          exact absurd hfile (by simp)
    case isFalse => exact absurd h (by simp)
  · rintro ⟨names, hplace, hne, ⟨content, hitem⟩, husable, hxml, hmade, hkeep, rfl⟩
    have hdrop : entry.1.toList.drop place.size = names := by
      rw [hplace, Array.toList_append, ← Array.length_toList, List.drop_left]
    have hwithin : isWithin place entry.1 = true := by
      rw [isWithin, hplace, Array.toList_append]
      exact List.isPrefixOf_iff_prefix.mpr (List.prefix_append _ _)
    have hapart : (entry.1 != place) = true := by
      rw [hplace]
      simpa using hne
    have hfile : (entry.2 != .folder) = true := by
      rw [hitem]
      simp
    have hnone : (!names.any outputFolders.contains) = true := by
      simpa using hmade
    simp only [found?, hdrop, hwithin, hapart, hfile, husable, hxml, hnone, Bool.and_self, if_true]
    exact Option.filter_eq_some_iff.mpr ⟨rfl, hkeep⟩

theorem of_found? (h : found? folder place keep entry = some path) : ∃ names : List String,
    entry.1 = place ++ names.toArray ∧ names ≠ [] ∧ path = names.foldl Path.join folder ∧
      isXml path = true ∧ ∃ content, entry.2 = .file content := by
  obtain ⟨names, hplace, hne, hfile, -, hxml, -, -, hpath⟩ := found?_eq_some_iff.mp h
  exact ⟨names, hplace, hne, hpath, hxml, hfile⟩

theorem found?_folder (folder : String) (place : Location) (keep : String → Bool)
    (other : Location) : found? folder place keep (other, .folder) = none := by
  simp [found?]

/-- What is in a file does not matter. -/
theorem found?_file (folder : String) (place : Location) (keep : String → Bool) (other : Location)
    (content content' : Bytes) :
    found? folder place keep (other, .file content) =
      found? folder place keep (other, .file content') := by
  have hkind : ∀ c : Bytes, (Item.file c != Item.folder) = true := by simp
  simp only [found?, hkind]

/-! ### The order of the sources -/

theorem mem_of_mem_dropRepeated {paths : List String} (h : path ∈ dropRepeated paths) :
    path ∈ paths := by
  induction paths with
  | nil => exact h
  | cons first rest ih =>
    rw [dropRepeated] at h
    split at h
    case h_1 => exact List.mem_cons.mpr (Or.inl (List.mem_singleton.mp h))
    case h_2 next others hrest =>
      rw [hrest] at ih
      split at h
      all_goals rcases List.mem_cons.mp h with rfl | hother
      · exact List.mem_cons_self
      · exact List.mem_cons_of_mem _ (ih (List.mem_cons_of_mem _ hother))
      · exact List.mem_cons_self
      · exact List.mem_cons_of_mem _ (ih hother)

theorem exists_mem_dropRepeated {paths : List String} (h : path ∈ paths) :
    ∃ other ∈ dropRepeated paths, Path.same path other = true := by
  induction paths with
  | nil => exact absurd h List.not_mem_nil
  | cons first rest ih =>
    have hself : Path.same path path = true := beq_self_eq_true _
    rw [dropRepeated]
    split
    case h_1 hnil =>
      rcases List.mem_cons.mp h with rfl | hrest
      · exact ⟨path, List.mem_singleton_self path, hself⟩
      · obtain ⟨other, hother, -⟩ := ih hrest
        rw [hnil] at hother
        exact absurd hother List.not_mem_nil
    case h_2 next others hrest =>
      rw [hrest] at ih
      split
      case isTrue hsame =>
        rcases List.mem_cons.mp h with rfl | hin
        · exact ⟨path, List.mem_cons_self, hself⟩
        · obtain ⟨other, hother, hpath⟩ := ih hin
          rcases List.mem_cons.mp hother with rfl | hother
          · refine ⟨first, List.mem_cons_self, ?_⟩
            rw [Path.same, beq_iff_eq] at hpath hsame ⊢
            rw [hpath, hsame]
          · exact ⟨other, List.mem_cons_of_mem _ hother, hpath⟩
      case isFalse =>
        rcases List.mem_cons.mp h with rfl | hin
        · exact ⟨path, List.mem_cons_self, hself⟩
        · obtain ⟨other, hother, hpath⟩ := ih hin
          exact ⟨other, List.mem_cons_of_mem _ hother, hpath⟩

theorem mem_of_mem_arrange {paths : List String} (h : path ∈ arrange paths) : path ∈ paths :=
  List.mem_mergeSort.mp (mem_of_mem_dropRepeated h)

theorem exists_mem_arrange {paths : List String} (h : path ∈ paths) :
    ∃ other ∈ arrange paths, Path.same path other = true :=
  exists_mem_dropRepeated (List.mem_mergeSort.mpr h)

/-! ### What a scan finds afterwards -/

variable {made : Disk} {documents : Documents} {paths : OutputPaths} {output : String}

/-- On a sound disk what is found is where its path leads, if the path can lead anywhere. -/
theorem names_of_found? (hsound : d.Sound) (hentry : entry ∈ d.items)
    {names : List String} (hnames : entry.1 = place ++ names.toArray) :
    (∀ n ∈ names, Path.isEntryName n = true) ∧ d.follow? place names = some entry.1 := by
  have hthere := isSome_get?_of_mem hentry
  rw [hnames] at hthere ⊢
  exact hsound.follow? hthere

theorem isUsable_of_contents? {content : Bytes} (h : d.contents? path = some content) :
    Path.isUsable path = true := by
  obtain ⟨place, hplace, -⟩ := contents?_eq_some_iff.mp h
  obtain ⟨_, hparent, -⟩ := Option.map_eq_some_iff.mp hplace
  exact (parentOf?_eq_some_iff.mp hparent).1

theorem ne_empty_of_locate? (h : d.locate? folder = some place) : folder ≠ "" := by
  rintro rfl
  exact absurd h (by simp [locate?, Path.isUsable])

/-- Nothing is found at a place where a document is staged. -/
theorem found?_staging {around : Location} {staged : String}
    (hstaging : entry.1 = around.push (stagingName staged)) :
    found? folder place keep entry = none := by
  refine Option.eq_none_iff_forall_ne_some.mpr fun path hfound ↦ ?_
  obtain ⟨names, hnames, hne, rfl, hxml, -⟩ := of_found? hfound
  obtain ⟨first, last, rfl⟩ := (List.eq_nil_or_concat' names).resolve_left hne
  have hpush : place ++ (first ++ [last]).toArray = (place ++ first.toArray).push last := by simp
  have hlast : last = stagingName staged :=
    (Array.push_eq_push.mp (hpush.symm.trans (hnames.symm.trans hstaging))).1
  rw [List.foldl_append, List.foldl_cons, List.foldl_nil, hlast, isXml_stagingName
    (Path.fileName?_join _ (isEntryName_stagingName staged))] at hxml
  exact Bool.noConfusion hxml

/-- Nor at a place that no source leads to. -/
theorem found?_eq_none_of_beside (hsound : d.Sound) (hfolder : d.locate? folder = some place)
    (hbeside : ∀ source ∈ arrange (d.items.filterMap (found? folder place keep)),
      (d.contents? source).isSome = true ∧ d.locate? source ≠ d.locate? output)
    (hentry : entry ∈ d.items) (houtput : d.placeOf? output = some entry.1) :
    found? folder place keep entry = none := by
  refine Option.eq_none_iff_forall_ne_some.mpr fun path hfound ↦ ?_
  have hne := ne_empty_of_locate? hfolder
  obtain ⟨other, hother, hsame⟩ := exists_mem_arrange (List.mem_filterMap.mpr ⟨entry, hentry, hfound⟩)
  obtain ⟨entry', hentry', hfound'⟩ := List.mem_filterMap.mp (mem_of_mem_arrange hother)
  obtain ⟨names, hnames, -, rfl, -⟩ := of_found? hfound
  obtain ⟨names', hnames', -, rfl, -⟩ := of_found? hfound'
  obtain ⟨hvalid, hfollow⟩ := names_of_found? hsound hentry hnames
  obtain ⟨hvalid', -⟩ := names_of_found? hsound hentry' hnames'
  obtain rfl := Path.eq_of_same_foldl_join hne hvalid hvalid' hsame
  obtain ⟨hread, hapart⟩ := hbeside _ hother
  obtain ⟨content, hcontent⟩ := Option.isSome_iff_exists.mp hread
  refine hapart ?_
  rw [locate?_of_placeOf? houtput (isSome_get?_of_mem hentry),
    locate?_foldl_join hne hvalid (isUsable_of_contents? hcontent), hfolder, Option.bind_some,
    hfollow]

/-- A file that a run leaves at an output is where no source leads to, so nothing is found there,
whatever the file was before. -/
theorem found?_eq_none_of_output (hwrites : made.Writes documents paths d') (hsound : d'.Sound)
    (hfolder : d'.locate? folder = some place)
    (hbeside : ∀ source ∈ arrange (d'.items.filterMap (found? folder place keep)),
      (d'.contents? source).isSome = true ∧
        ∀ output ∈ paths.all, d'.locate? source ≠ d'.locate? output)
    (houtput : output ∈ paths.all) (hat : made.placeOf? output = some entry.1) :
    found? folder place keep entry = none := by
  refine Option.eq_none_iff_forall_ne_some.mpr fun path hfound ↦ ?_
  have hgone : ∀ content, d'.get? entry.1 ≠ some (.file content) := by
    intro content hthere
    have hfile : d'.isFolder entry.1 = false := by rw [isFolder, hthere]; rfl
    have hnone : found? folder place keep (entry.1, .file content) = none :=
      found?_eq_none_of_beside hsound hfolder
        (fun source hsource ↦ ⟨(hbeside source hsource).1, (hbeside source hsource).2 output houtput⟩)
        (mem_items_of_get? hthere (ne_root_of_isFolder_eq_false hfile))
        ((hwrites.edited.folders.placeOf?_eq output).trans hat)
    obtain ⟨_, -, -, -, -, content', hcontent⟩ := of_found? hfound
    rw [show entry = (entry.1, .file content') from Prod.ext rfl hcontent,
      found?_file folder place keep entry.1 content' content, hnone] at hfound
    exact absurd hfound (by simp)
  rcases hwrites.get?_output ⟨output, houtput, hat⟩ with ⟨-, hstaging⟩ | hthere | hthere
  · obtain ⟨around, staged, hpush⟩ := exists_push_stagingName hstaging
    rw [found?_staging hpush] at hfound
    exact absurd hfound (by simp)
  · exact hgone _ hthere
  · exact hgone _ hthere

/-- A scan after a run that finds neither output finds what it found before. -/
theorem filter_scan_eq (hmade : d.makeFolders path = (true, made))
    (hwrites : made.Writes documents paths d') (hsound : d.Sound)
    (hfolder : d'.locate? folder = d.locate? folder)
    (hbeside : ∀ source ∈ arrange ((scan d' folder).filter keep),
      (d'.contents? source).isSome = true ∧
        ∀ output ∈ paths.all, d'.locate? source ≠ d'.locate? output) :
    (scan d' folder).filter keep = (scan d folder).filter keep := by
  have hsoundAfter := hwrites.sound (hsound.of_makeFolders hmade)
  rw [filter_scan] at hbeside
  rw [filter_scan, filter_scan, ← hfolder]
  cases hplace : d'.locate? folder with
  | none => rfl
  | some place =>
    simp only [hplace] at hbeside ⊢
    -- the run writes and moves files at four places only, and none of them shows in a scan
    have hunseen : ∀ at' item, made.Names (paths.all ++ paths.stagings) at' →
        found? folder place keep (at', item) = none := by
      rintro at' item ⟨output, hpath, hat⟩
      rcases List.mem_append.mp hpath with houtput | hstaging
      · exact found?_eq_none_of_output hwrites hsoundAfter hplace hbeside houtput hat
      · obtain ⟨around, staged, hpush⟩ := exists_push_stagingName ⟨output, hstaging, hat⟩
        exact found?_staging hpush
    have hfolders := filterMap_makeFolders (found?_folder folder place keep) path d
    rw [hmade] at hfolders
    exact (hwrites.filterMap_items hunseen).trans hfolders

/-! ### The sources of a project -/

theorem eq_of_includeItem {item : String} {found : List String} (hplain : hasWildcard item = false)
    (h : includeItem d folder item = .ok found) : found = [Path.join folder item] := by
  simp only [includeItem, hplain, Bool.false_eq_true, if_false] at h
  split at h
  case isTrue => exact (Except.ok.inj h).symm
  case isFalse => exact absurd h (by simp)

theorem eq_of_mapM_includeItem {included : List String} {found : List (List String)}
    (hplain : ∀ item ∈ included, hasWildcard item = false)
    (h : included.mapM (includeItem d folder) = .ok found) :
    found = included.map fun item ↦ [Path.join folder item] := by
  have hall := map_eq_map_of_mapM (p := fun item ↦ [Path.join folder item]) (q := id) h
    fun item hitem y hy ↦ eq_of_includeItem (hplain item hitem) hy
  rwa [List.map_id] at hall

/-- A project without wildcards that finds neither output among its sources after a run finds the
sources that it found before. -/
theorem sourcesOf_eq {included removed sources sources' : List String}
    (hmade : d.makeFolders path = (true, made)) (hwrites : made.Writes documents paths d')
    (hsound : d.Sound) (hfolder : d'.locate? folder = d.locate? folder)
    (hplain : ∀ item ∈ included, hasWildcard item = false)
    (hbefore : sourcesOf d folder included removed = .ok sources)
    (hafter : sourcesOf d' folder included removed = .ok sources')
    (hbeside : ∀ source ∈ sources', (d'.contents? source).isSome = true ∧
      ∀ output ∈ paths.all, d'.locate? source ≠ d'.locate? output) : sources' = sources := by
  rw [sourcesOf] at hbefore hafter
  by_cases hscan : included.isEmpty = true
  · simp only [hscan, if_true, pure_bind] at hbefore hafter
    obtain rfl := Except.ok.inj hbefore
    obtain rfl := Except.ok.inj hafter
    exact congrArg arrange (filter_scan_eq hmade hwrites hsound hfolder hbeside)
  · simp only [hscan, Bool.false_eq_true, if_false] at hbefore hafter
    obtain ⟨found, hfound, hsources⟩ := bind_eq_ok_iff.mp hbefore
    obtain ⟨found', hfound', hsources'⟩ := bind_eq_ok_iff.mp hafter
    rw [eq_of_mapM_includeItem hplain hfound] at hsources
    rw [eq_of_mapM_includeItem hplain hfound'] at hsources'
    exact Except.ok.inj (hsources'.symm.trans hsources)

/-- Without items a project has what a scan finds. -/
theorem sourcesOf_nil (d : Disk) (folder : String) :
    sourcesOf d folder [] [] = .ok (arrange (scan d folder)) := by
  simp only [sourcesOf, List.isEmpty_nil, if_true, pure_bind, List.any_nil, Bool.not_false,
    List.filter_true]
  rfl

/-- No item of a project file that includes files has a wildcard. -/
def IncludesPlainly (d : Disk) (path : String) : Prop :=
  ∀ root, readRoot d path = .ok root → ∀ item ∈ sourceItems root "Include", hasWildcard item = false

theorem exists_root_of_read {p : Project} (h : Project.read d path = .ok p) :
    ∃ root, readRoot d path = .ok root ∧ ofRoot d path root = .ok p := by
  obtain ⟨root, hroot, hproject⟩ := bind_eq_ok_iff.mp h
  split at hproject
  case h_1 project hof =>
    obtain rfl := pure_eq_ok_iff.mp hproject
    exact ⟨root, hroot, hof⟩
  case h_2 => exact absurd hproject (by simp [throw, throwThe, MonadExceptOf.throw])

theorem isSome_contents?_of_readRoot {root : Xml.Node} (h : readRoot d path = .ok root) :
    (d.contents? path).isSome = true := by
  cases hcontent : d.contents? path with
  | some content => rfl
  | none =>
    rw [readRoot, hcontent] at h
    exact absurd h (by simp)

theorem readRoot_congr (h : d'.contents? path = d.contents? path) :
    readRoot d' path = readRoot d path := by
  rw [readRoot, readRoot, h]

theorem sourcesOf_of_ofRoot {root : Xml.Node} {p : Project} (h : ofRoot d path root = .ok p) :
    sourcesOf d ((Path.parent? path).getD ".") (sourceItems root "Include")
      (sourceItems root "Remove") = .ok p.sources := by
  simp only [ofRoot] at h
  split at h
  case isTrue => exact absurd h (by simp [throw, throwThe, MonadExceptOf.throw, bind, Except.bind])
  case isFalse =>
    obtain ⟨checks, -, hrest⟩ := bind_eq_ok_iff.mp h
    obtain ⟨sources, hsources, hproject⟩ := bind_eq_ok_iff.mp hrest
    obtain rfl := pure_eq_ok_iff.mp hproject
    exact hsources

/-- From two disks, a project is read from the same document with the same values but for its
sources. -/
theorem eq_of_ofRoot {root : Xml.Node} {p p' : Project} (h : ofRoot d path root = .ok p)
    (h' : ofRoot d' path root = .ok p') : p' = { p with sources := p'.sources } := by
  simp only [ofRoot] at h h'
  split at h
  case isTrue => exact absurd h (by simp [throw, throwThe, MonadExceptOf.throw, bind, Except.bind])
  case isFalse hname =>
    rw [if_neg hname] at h'
    obtain ⟨checks, hchecks, hrest⟩ := bind_eq_ok_iff.mp h
    obtain ⟨checks', hchecks', hrest'⟩ := bind_eq_ok_iff.mp h'
    obtain rfl := Except.ok.inj (hchecks.symm.trans hchecks')
    obtain ⟨sources, -, hproject⟩ := bind_eq_ok_iff.mp hrest
    obtain ⟨sources', -, hproject'⟩ := bind_eq_ok_iff.mp hrest'
    rw [← pure_eq_ok_iff.mp hproject, ← pure_eq_ok_iff.mp hproject']

/-- What a scan finds is a source of a project that lists no files and removes none, in this or in
another way to write it. -/
theorem exists_source_of_scan {root : Xml.Node} {p : Project} {source : String}
    (hread : Project.read d path = .ok p) (hroot : readRoot d path = .ok root)
    (hincluded : sourceItems root "Include" = []) (hremoved : sourceItems root "Remove" = [])
    (hsource : source ∈ scan d ((Path.parent? path).getD ".")) :
    ∃ other ∈ p.sources, other ∈ scan d ((Path.parent? path).getD ".") ∧
      Path.same source other = true := by
  obtain ⟨root', hroot', hof⟩ := exists_root_of_read hread
  obtain rfl := Except.ok.inj (hroot.symm.trans hroot')
  have hsources := sourcesOf_of_ofRoot hof
  rw [hincluded, hremoved, sourcesOf_nil] at hsources
  rw [← Except.ok.inj hsources]
  obtain ⟨other, hother, hsame⟩ := exists_mem_arrange hsource
  exact ⟨other, hother, mem_of_mem_arrange hother, hsame⟩

/-- The folder of a project file that is read is where it was. -/
theorem locate?_parent_eq (h : d.KeepsFolders d') (hread : (d.contents? path).isSome = true) :
    d'.locate? ((Path.parent? path).getD ".") = d.locate? ((Path.parent? path).getD ".") := by
  obtain ⟨folder, hparent⟩ := exists_parent?_of_contents? hread
  rw [hparent, Option.getD_some]
  by_cases hempty : folder = ""
  · rw [hempty]
    rfl
  · obtain ⟨content, hcontent⟩ := Option.isSome_iff_exists.mp hread
    obtain ⟨last, hlast, hfile⟩ := contents?_eq_some_iff.mp hcontent
    have hlocate := locate?_of_placeOf? hlast (by rw [hfile]; rfl)
    obtain ⟨place, hplace, hfolder⟩ := exists_folder_of_parent? hlocate hparent hempty
    have hkept := isFolder_iff.mp (h.isFolder place hfolder)
    rw [hplace]
    exact locate?_of_placeOf? (h.placeOf? (placeOf?_of_locate? hplace)) (by rw [hkept]; rfl)

/-- After a run that leaves its file as it was, a project is read from the same document, and from
the folder where it was. -/
theorem exists_root_of_writes {p p' : Project} {folder : String}
    (hmade : d.makeFolders folder = (true, made)) (hwrites : made.Writes documents paths d')
    (hbefore : Project.read d path = .ok p) (hafter : Project.read d' path = .ok p')
    (hsame : d'.contents? path = d.contents? path) :
    ∃ root, readRoot d path = .ok root ∧ ofRoot d path root = .ok p ∧ ofRoot d' path root = .ok p' ∧
      d'.locate? ((Path.parent? path).getD ".") = d.locate? ((Path.parent? path).getD ".") := by
  obtain ⟨root, hroot, hof⟩ := exists_root_of_read hbefore
  obtain ⟨root', hroot', hof'⟩ := exists_root_of_read hafter
  rw [readRoot_congr hsame, hroot] at hroot'
  obtain rfl := Except.ok.inj hroot'
  have hkept : d.KeepsFolders d' :=
    (grows_of_makeFolders hmade).keepsFolders.trans hwrites.edited.folders.kept
  exact ⟨root, hroot, hof, hof', locate?_parent_eq hkept (isSome_contents?_of_readRoot hroot)⟩

/-- After a run, a project without wildcards whose file is as it was, and that finds neither output
among its sources, is read as before. -/
theorem read_eq_of_beside {p p' : Project} {folder : String}
    (hmade : d.makeFolders folder = (true, made)) (hwrites : made.Writes documents paths d')
    (hsound : d.Sound) (hplain : IncludesPlainly d path)
    (hbefore : Project.read d path = .ok p) (hafter : Project.read d' path = .ok p')
    (hsame : d'.contents? path = d.contents? path)
    (hbeside : ∀ source ∈ p'.sources, (d'.contents? source).isSome = true ∧
      ∀ output ∈ paths.all, d'.locate? source ≠ d'.locate? output) : p' = p := by
  obtain ⟨root, hroot, hof, hof', hfolder⟩ :=
    exists_root_of_writes hmade hwrites hbefore hafter hsame
  have hsources := sourcesOf_of_ofRoot hof
  have hsources' := sourcesOf_of_ofRoot hof'
  have heq := sourcesOf_eq hmade hwrites hsound hfolder (hplain root hroot) hsources hsources'
    hbeside
  rw [eq_of_ofRoot hof hof', heq]

end Project

end ClassMap
