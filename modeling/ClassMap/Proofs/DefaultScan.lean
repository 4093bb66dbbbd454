import ClassMap.Proofs.Files.Around
import ClassMap.Proofs.Files.Order
import ClassMap.Proofs.Output.Sources

/-!
The sources of a project that includes no files and removes none. A scan finds the XML files below
the folder that it starts from, but for those in output folders, and arranging them loses none. So a
project has all the XML files below it for its sources if there is a slash in the path that it is
read from. A bare file name has an empty parent, which leads nowhere, and its project has no sources
(`lists_xml_files_iff`).
-/

set_option autoImplicit false
set_option relaxedAutoImplicit false

namespace ClassMap

open Traversal

/-! ### The XML files below a folder -/

/-- A name with something before its last dot and an XML ending after it. -/
def Path.IsXmlName (name : String) : Prop :=
  ∃ stem ending, name = stem ++ "." ++ ending ∧ stem ≠ "" ∧ Text.sameName ending "xml" = true

namespace Disk

/-- Everything is in a folder and has a place of its own. -/
structure IsTree (d : Disk) : Prop where
  sound : d.Sound
  distinct : (d.items.map (·.1)).Nodup

/-- The names on the way from a folder to an XML file, none of them that of an output folder. -/
structure IsXmlBelow (d : Disk) (place : Location) (names : List String) : Prop where
  isFile : ∃ content, d.get? (place ++ names.toArray) = some (.file content)
  isXml : ∃ name, names.getLast? = some name ∧ Path.IsXmlName name
  unmade : ∀ name ∈ names, name ∉ Project.outputFolders

/-- The XML files below a folder, each once, in the order of their paths. -/
structure ListsXmlFiles (d : Disk) (place : Location) (folder : String) (sources : List String) :
    Prop where
  mem_iff : ∀ source, source ∈ sources ↔
    ∃ names, d.IsXmlBelow place names ∧ source = names.foldl Path.join folder
  ordered : sources.Pairwise fun a b ↦ Path.le a b = true ∧ Path.same a b = false

variable {d : Disk} {place : Location} {names : List String} {entry : Location × Item}

theorem IsTree.get?_of_mem (h : d.IsTree) (hentry : entry ∈ d.items) :
    d.get? entry.1 = some entry.2 := by
  obtain ⟨folder, name, hpush, -, -⟩ := sound_iff.mp h.sound entry hentry
  obtain ⟨before, after, hitems⟩ := List.append_of_mem hentry
  have hdistinct := h.distinct
  rw [hitems, List.map_append, List.map_cons] at hdistinct
  have hbefore := (List.nodup_append.mp hdistinct).2.2
  rw [get?, if_neg (by simp [hpush]), hitems, List.lookup_eq_some_iff]
  refine ⟨before, after, rfl, fun other hother ↦ ?_⟩
  simpa using Ne.symm
    (hbefore other.1 (List.mem_map_of_mem hother) entry.1 List.mem_cons_self)

theorem IsXmlBelow.ne_nil (h : d.IsXmlBelow place names) : names ≠ [] := by
  rintro rfl
  obtain ⟨name, hlast, -⟩ := h.isXml
  exact absurd hlast (by simp)

theorem IsXmlBelow.isEntryName (hsound : d.Sound) (h : d.IsXmlBelow place names) :
    ∀ name ∈ names, Path.isEntryName name = true := by
  obtain ⟨content, hthere⟩ := h.isFile
  exact (hsound.follow? (by rw [hthere]; rfl)).1

/-- Where some of the files are listed, all of them are if none has been left out. -/
theorem listsXmlFiles_iff {folder : String} {sources : List String} {listed : List String → Prop}
    (hsound : d.Sound) (hfolder : ∀ names, listed names → folder ≠ "")
    (hmem : ∀ source, source ∈ sources ↔ ∃ names, d.IsXmlBelow place names ∧ listed names ∧
      source = names.foldl Path.join folder)
    (hordered : sources.Pairwise fun a b ↦ Path.le a b = true ∧ Path.same a b = false) :
    d.ListsXmlFiles place folder sources ↔ ∀ names, d.IsXmlBelow place names → listed names := by
  constructor
  · intro hlists names hbelow
    obtain ⟨names', hbelow', hlisted, heq⟩ :=
      (hmem _).mp ((hlists.mem_iff _).mpr ⟨names, hbelow, rfl⟩)
    have hsame := Path.same_iff.mpr (congrArg Path.components heq)
    rwa [Path.eq_of_same_foldl_join (hfolder names' hlisted) (hbelow.isEntryName hsound)
      (hbelow'.isEntryName hsound) hsame]
  · refine fun hall ↦ ⟨fun source ↦ ?_, hordered⟩
    rw [hmem]
    refine exists_congr fun names ↦ and_congr_right fun hbelow ↦ ?_
    exact and_iff_right (hall names hbelow)

end Disk

/-! ### XML names -/

theorem Text.sameName_iff_map_toLower {a b : String} :
    sameName a b = true ↔ a.toList.map Char.toLower = b.toList.map Char.toLower := by
  rw [sameName_iff, foldLatin, foldLatin, ← String.toList_inj, String.toList_map,
    String.toList_map]

namespace Path

variable {base name ending : String}

theorem cutName_eq_some_iff : (cutName name).2 = some ending ↔
    ∃ stem, name = stem ++ "." ++ ending ∧ stem ≠ "" ∧ '.' ∉ ending.toList := by
  constructor
  · intro h
    rw [cutName] at h
    split at h
    case h_1 after before hcut =>
      obtain ⟨hchars, hdot⟩ := Text.cut?_eq_some_iff.mp hcut
      split at h
      case isTrue => exact absurd h (by simp)
      case isFalse hbefore =>
        obtain rfl := Option.some.inj h
        refine ⟨String.ofList before.reverse, ?_, by simpa using hbefore, by simpa using hdot⟩
        rw [← String.toList_inj, ← List.reverse_inj, hchars]
        simp
    case h_2 => exact absurd h (by simp)
  · rintro ⟨stem, rfl, hstem, hdot⟩
    have hcut : Text.cut? '.' (stem ++ "." ++ ending).toList.reverse =
        some (ending.toList.reverse, stem.toList.reverse) :=
      Text.cut?_eq_some_iff.mpr ⟨by simp, by simpa using hdot⟩
    rw [cutName, hcut]
    simp [hstem]

theorem dot_notMem_of_sameName (h : Text.sameName ending "xml" = true) : '.' ∉ ending.toList := by
  intro hdot
  have hmem : Char.toLower '.' ∈ ending.toList.map Char.toLower := List.mem_map_of_mem hdot
  rw [Text.sameName_iff_map_toLower.mp h] at hmem
  exact absurd hmem (by decide)

theorem isXml_join_iff (hname : isEntryName name = true) :
    Project.isXml (join base name) = true ↔ IsXmlName name := by
  have hextension : extension? (join base name) = (cutName name).2 := by
    rw [extension?, fileName?_join base hname, Option.bind_some]
  rw [Project.isXml, hextension]
  constructor
  · intro h
    split at h
    case h_1 ending hcut =>
      obtain ⟨stem, hstem, hne, -⟩ := cutName_eq_some_iff.mp hcut
      exact ⟨stem, ending, hstem, hne, h⟩
    case h_2 => exact absurd h (by simp)
  · rintro ⟨stem, ending, hstem, hne, hxml⟩
    rw [cutName_eq_some_iff.mpr ⟨stem, hstem, hne, dot_notMem_of_sameName hxml⟩]
    exact hxml

end Path

namespace Project

open Disk

variable {d : Disk} {place : Location} {folder path source : String} {names : List String}

theorem isXml_foldl_join_iff (hnames : ∀ n ∈ names, Path.isEntryName n = true) (hne : names ≠ []) :
    isXml (names.foldl Path.join folder) = true ↔
      ∃ name, names.getLast? = some name ∧ Path.IsXmlName name := by
  obtain ⟨folders, last, rfl⟩ := (List.eq_nil_or_concat' names).resolve_left hne
  have hlast := hnames last (List.mem_append_right _ (List.mem_singleton_self last))
  rw [List.foldl_append, List.foldl_cons, List.foldl_nil, Path.isXml_join_iff hlast,
    List.getLast?_concat]
  simp

/-! ### Scanning -/

/-- A scan finds the XML files below its folder, as far as the paths to their folders can be
followed. -/
theorem mem_scan_iff (htree : d.IsTree) (hfolder : d.locate? folder = some place) :
    source ∈ scan d folder ↔ ∃ names, d.IsXmlBelow place names ∧
      Path.isUsable (names.dropLast.foldl Path.join folder) = true ∧
      source = names.foldl Path.join folder := by
  have hscan := filter_scan d folder fun _ ↦ true
  rw [List.filter_true, hfolder] at hscan
  rw [hscan, List.mem_filterMap]
  constructor
  · rintro ⟨entry, hentry, hfound⟩
    obtain ⟨names, hplace, hne, ⟨content, hfile⟩, husable, hxml, hunmade, -, rfl⟩ :=
      found?_eq_some_iff.mp hfound
    obtain ⟨hnames, -⟩ := names_of_found? htree.sound hentry hplace
    have hthere := htree.get?_of_mem hentry
    rw [hplace, hfile] at hthere
    exact ⟨names, ⟨⟨content, hthere⟩, (isXml_foldl_join_iff hnames hne).mp hxml, hunmade⟩,
      husable, rfl⟩
  · rintro ⟨names, hbelow, husable, rfl⟩
    obtain ⟨content, hthere⟩ := hbelow.isFile
    have hne := hbelow.ne_nil
    have hxml : isXml (names.foldl Path.join folder) = true :=
      (isXml_foldl_join_iff (hbelow.isEntryName htree.sound) hne).mpr hbelow.isXml
    exact ⟨_, mem_items_of_get? hthere (by simp [hne]), found?_eq_some_iff.mpr
      ⟨names, rfl, hne, ⟨content, rfl⟩, husable, hxml, hbelow.unmade, rfl, rfl⟩⟩

theorem scan_empty (d : Disk) : scan d "" = [] := by
  have hscan := filter_scan d "" fun _ ↦ true
  rwa [List.filter_true] at hscan

/-! ### Arranging -/

theorem pairwise_dropRepeated {paths : List String}
    (h : paths.Pairwise fun a b ↦ Path.le a b = true) :
    (dropRepeated paths).Pairwise fun a b ↦ Path.le a b = true ∧ Path.same a b = false := by
  induction paths with
  | nil => exact List.Pairwise.nil
  | cons first rest ih =>
    obtain ⟨hfirst, hrest⟩ := List.pairwise_cons.mp h
    have hbefore : ∀ other ∈ dropRepeated rest, Path.le first other = true :=
      fun other hother ↦ hfirst other (mem_of_mem_dropRepeated hother)
    have hdropped := ih hrest
    rw [dropRepeated]
    split
    case h_1 => exact List.pairwise_singleton _ _
    case h_2 next others heq =>
      rw [heq] at hbefore hdropped
      obtain ⟨hnext, hothers⟩ := List.pairwise_cons.mp hdropped
      split
      case isTrue hsame =>
        refine List.pairwise_cons.mpr ⟨fun other hother ↦ ?_, hothers⟩
        rw [Path.le_congr hsame, Path.same_congr hsame]
        exact hnext other hother
      case isFalse hsame =>
        refine List.pairwise_cons.mpr ⟨fun other hother ↦ ⟨hbefore other hother, ?_⟩, hdropped⟩
        rcases List.mem_cons.mp hother with rfl | hother
        · exact Bool.eq_false_iff.mpr hsame
        · -- a later path that is the first one would put the next one between them
          refine Bool.eq_false_iff.mpr fun hlater ↦ ?_
          obtain ⟨hle, hdiffers⟩ := hnext other hother
          have hback : Path.le other next = true :=
            (Path.le_congr hlater).symm.trans (hbefore next List.mem_cons_self)
          exact Bool.noConfusion ((Path.same_of_le hle hback).symm.trans hdiffers)

theorem pairwise_arrange (paths : List String) :
    (arrange paths).Pairwise fun a b ↦ Path.le a b = true ∧ Path.same a b = false := by
  have htrans : ∀ a b c : String, Path.le a b = true → Path.le b c = true → Path.le a c = true :=
    fun _ _ _ ↦ Path.le_trans
  have htotal : ∀ a b : String, (Path.le a b || Path.le b a) = true :=
    fun a b ↦ Bool.or_eq_true_iff.mpr (Path.le_total a b)
  exact pairwise_dropRepeated (List.pairwise_mergeSort htrans htotal paths)

/-- Arranging loses no path of those that a scan finds. -/
theorem mem_arrange_scan_iff (htree : d.IsTree) (hfolder : d.locate? folder = some place) :
    source ∈ arrange (scan d folder) ↔ source ∈ scan d folder := by
  refine ⟨mem_of_mem_arrange, fun hsource ↦ ?_⟩
  obtain ⟨other, hother, hsame⟩ := exists_mem_arrange hsource
  obtain ⟨names, hbelow, -, rfl⟩ := (mem_scan_iff htree hfolder).mp hsource
  obtain ⟨names', hbelow', -, rfl⟩ := (mem_scan_iff htree hfolder).mp (mem_of_mem_arrange hother)
  rwa [Path.eq_of_same_foldl_join (ne_empty_of_locate? hfolder)
    (hbelow.isEntryName htree.sound) (hbelow'.isEntryName htree.sound) hsame]

/-! ### Reading -/

/-- A project without source items has what a scan from its folder finds for its sources. -/
theorem exists_read_of_no_items {root : Xml.Node} {checks : ChecksMode}
    (hroot : readRoot d path = .ok root) (hname : root.name = "Project")
    (hchecks : checksOf root = .ok checks) (hincluded : sourceItems root "Include" = [])
    (hremoved : sourceItems root "Remove" = []) :
    ∃ p, Project.read d path = .ok p ∧ p.folder = (Path.parent? path).getD "." ∧
      p.sources = arrange (scan d p.folder) := by
  have hnamed : (root.name != "Project") = false := by rw [hname]; rfl
  obtain ⟨p, hof, hfolder, hlist⟩ : ∃ p, ofRoot d path root = .ok p ∧
      p.folder = (Path.parent? path).getD "." ∧
      p.sources = arrange (scan d ((Path.parent? path).getD ".")) := by
    simp only [ofRoot, hnamed, hchecks, hincluded, hremoved, sourcesOf_nil]
    exact ⟨_, rfl, rfl, rfl⟩
  refine ⟨p, ?_, hfolder, hfolder ▸ hlist⟩
  rw [Project.read, hroot]
  simp only [bind, Except.bind, hof]
  rfl

/-- A project that can be read is in a file, and its path has a parent. -/
theorem exists_place_of_readRoot {root : Xml.Node} (hroot : readRoot d path = .ok root) :
    ∃ place, d.locate? path = some place ∧ d.isFolder place = false ∧
      Path.parent? path = some ((Path.parent? path).getD ".") := by
  have hcontents := isSome_contents?_of_readRoot hroot
  obtain ⟨content, hcontent⟩ := Option.isSome_iff_exists.mp hcontents
  obtain ⟨place, hplace, hget⟩ := contents?_eq_some_iff.mp hcontent
  obtain ⟨folder, hparent⟩ := exists_parent?_of_contents? hcontents
  refine ⟨place, locate?_of_placeOf? hplace (by rw [hget]; rfl), by rw [isFolder, hget]; rfl, ?_⟩
  rw [hparent, Option.getD_some]

/-- The sources are the XML files below the folder of the project file if there is a slash in the
path to it, and else there are none. -/
theorem mem_arrange_scan_parent_iff (htree : d.IsTree) (hplace : d.locate? path = some place)
    (hfile : d.isFolder place = false) (hparent : Path.parent? path = some folder)
    (source : String) : source ∈ arrange (scan d folder) ↔ ∃ names, d.IsXmlBelow place.pop names ∧
      ('/' ∈ path.toList ∧ Path.isUsable (names.dropLast.foldl Path.join folder) = true) ∧
      source = names.foldl Path.join folder := by
  have hslash := parent_eq_empty_iff hplace hfile hparent
  by_cases hempty : folder = ""
  · refine iff_of_false (fun hsource ↦ ?_) fun hsource ↦ ?_
    · have hfound := mem_of_mem_arrange hsource
      rw [hempty, scan_empty] at hfound
      exact absurd hfound List.not_mem_nil
    · obtain ⟨-, -, ⟨hmem, -⟩, -⟩ := hsource
      exact hslash.mp hempty hmem
  · have hfolder := htree.sound.locate?_parent hplace hfile hparent hempty
    have hmem : '/' ∈ path.toList := not_not.mp (mt hslash.mpr hempty)
    rw [mem_arrange_scan_iff htree hfolder, mem_scan_iff htree hfolder]
    simp only [hmem, true_and]

end Project

/-! ### All XML files -/

/-- A readable project without source items has no sources if there is no slash in the path that it
is read from. It has all the XML files below its folder, each once and in order, exactly when there
is a slash, or else no such file, and the path to the folder of each of them is not too long. -/
theorem lists_xml_files_iff {d : Disk} {path : String} {root : Xml.Node} {checks : ChecksMode}
    (htree : d.IsTree) (hroot : Project.readRoot d path = .ok root) (hname : root.name = "Project")
    (hchecks : Project.checksOf root = .ok checks)
    (hincluded : Project.sourceItems root "Include" = [])
    (hremoved : Project.sourceItems root "Remove" = []) :
    ∃ p place, Project.read d path = .ok p ∧ d.locate? path = some place ∧
      ('/' ∉ path.toList → p.sources = []) ∧
      (d.ListsXmlFiles place.pop p.folder p.sources ↔
        ∀ names, d.IsXmlBelow place.pop names → '/' ∈ path.toList ∧
          Path.isUsable (names.dropLast.foldl Path.join p.folder) = true) := by
  obtain ⟨p, hread, hfolder, hsources⟩ :=
    Project.exists_read_of_no_items hroot hname hchecks hincluded hremoved
  obtain ⟨place, hplace, hfile, hparent⟩ := Project.exists_place_of_readRoot hroot
  rw [← hfolder] at hparent
  have hslash := Disk.parent_eq_empty_iff hplace hfile hparent
  have hmem := Project.mem_arrange_scan_parent_iff htree hplace hfile hparent
  have hordered := Project.pairwise_arrange (Project.scan d p.folder)
  rw [← hsources] at hmem hordered
  refine ⟨p, place, hread, hplace, fun hbare ↦ ?_, ?_⟩
  · refine List.eq_nil_iff_forall_not_mem.mpr fun source hsource ↦ ?_
    obtain ⟨-, -, ⟨hthere, -⟩, -⟩ := (hmem source).mp hsource
    exact hbare hthere
  · exact Disk.listsXmlFiles_iff htree.sound
      (fun _ hlisted hempty ↦ hslash.mp hempty hlisted.1) hmem hordered

/-- A project beside an XML file, with another one in a folder and one in an output folder. -/
def scannedShop : Disk where
  items := [(#["Shop.ormproj"], .file (Text.encode "<Project/>")),
    (#["b.XML"], .file (Text.encode "<declarations/>")), (#["a"], .folder),
    (#["a", "c.xml"], .file (Text.encode "<declarations/>")),
    (#["a", "note.txt"], .file (Text.encode "later")), (#["bin"], .folder),
    (#["bin", "d.xml"], .file (Text.encode "<declarations/>"))]

theorem isTree_scannedShop : scannedShop.IsTree :=
  ⟨by decide +kernel, by decide +kernel⟩

theorem lists_xml_files_iff_scannedShop :
    ∃ root p place, Project.readRoot scannedShop "./Shop.ormproj" = .ok root ∧
      Project.sourceItems root "Include" = [] ∧ Project.sourceItems root "Remove" = [] ∧
      Project.read scannedShop "./Shop.ormproj" = .ok p ∧
      scannedShop.locate? "./Shop.ormproj" = some place ∧
      scannedShop.ListsXmlFiles place.pop p.folder p.sources := by
  have hplain : (Project.readRoot scannedShop "./Shop.ormproj").map (fun root ↦
      (root.name, Project.checksOf root, Project.sourceItems root "Include",
        Project.sourceItems root "Remove")) = .ok ("Project", .ok .strict, [], []) := by
    decide +kernel
  have hfolder : (Project.read scannedShop "./Shop.ormproj").map (·.folder) = .ok "." := by
    decide +kernel
  have hlocate : scannedShop.locate? "./Shop.ormproj" = some #["Shop.ormproj"] := by
    decide +kernel
  have husable : ∀ entry ∈ scannedShop.items,
      Path.isUsable (entry.1.toList.dropLast.foldl Path.join ".") = true := by
    decide +kernel
  obtain ⟨root, hroot, hvalues⟩ := exists_eq_ok_of_map hplain
  simp only [Prod.mk.injEq] at hvalues
  obtain ⟨hname, hchecks, hincluded, hremoved⟩ := hvalues
  obtain ⟨p, place, hread, hplace, -, hlists⟩ :=
    lists_xml_files_iff isTree_scannedShop hroot hname hchecks hincluded hremoved
  obtain rfl := Option.some.inj (hlocate.symm.trans hplace)
  rw [hread] at hfolder
  refine ⟨root, p, _, hroot, hincluded, hremoved, hread, hplace,
    hlists.mpr fun names hbelow ↦ ⟨by decide, ?_⟩⟩
  obtain ⟨content, hthere⟩ := hbelow.isFile
  have hmem := Disk.mem_items_of_get? hthere (by simp [hbelow.ne_nil])
  rw [show p.folder = "." from Except.ok.inj hfolder]
  simpa using husable _ hmem

theorem isXmlBelow_scannedShop : scannedShop.IsXmlBelow #[] ["b.XML"] :=
  ⟨⟨Text.encode "<declarations/>", by decide +kernel⟩,
    ⟨"b.XML", rfl, "b", "XML", by decide +kernel, by decide,
      Text.sameName_iff_map_toLower.mpr (by decide +kernel)⟩,
    by simp [Project.outputFolders]⟩

/-- Read by its bare file name, the same project has no sources, although the same files are below
it. -/
theorem not_lists_xml_files_scannedShop :
    scannedShop.IsTree ∧
      ∃ root p place, Project.readRoot scannedShop "Shop.ormproj" = .ok root ∧
        Project.sourceItems root "Include" = [] ∧ Project.sourceItems root "Remove" = [] ∧
        Project.read scannedShop "Shop.ormproj" = .ok p ∧
        scannedShop.locate? "Shop.ormproj" = some place ∧ p.sources = [] ∧
        scannedShop.IsXmlBelow place.pop ["b.XML"] ∧
        ¬ scannedShop.ListsXmlFiles place.pop p.folder p.sources := by
  have hitems : (Project.readRoot scannedShop "Shop.ormproj").map (fun root ↦
      (Project.sourceItems root "Include", Project.sourceItems root "Remove")) = .ok ([], []) := by
    decide +kernel
  have hsources : (Project.read scannedShop "Shop.ormproj").map (·.sources) = .ok [] := by
    decide +kernel
  have hlocate : scannedShop.locate? "Shop.ormproj" = some #["Shop.ormproj"] := by
    decide +kernel
  obtain ⟨root, hroot, hnone⟩ := exists_eq_ok_of_map hitems
  obtain ⟨hincluded, hremoved⟩ := Prod.mk.inj hnone
  obtain ⟨p, hread, hempty⟩ := exists_eq_ok_of_map hsources
  refine ⟨isTree_scannedShop, root, p, #["Shop.ormproj"], hroot, hincluded, hremoved, hread,
    hlocate, hempty, isXmlBelow_scannedShop, fun hlists ↦ ?_⟩
  have hsource := (hlists.mem_iff _).mpr ⟨_, isXmlBelow_scannedShop, rfl⟩
  rw [hempty] at hsource
  exact absurd hsource List.not_mem_nil

end ClassMap
