import ClassMap.Proofs.Files.Selected

/-!
What a pattern finds on two disks. The way to a path goes through folders that the path itself
names one after the other, so on any other disk where the path leads somewhere they are there as
well (`Leads.folder_on`), and the components of a pattern can be gone along there as they can on the
first one (`Leads.exists_on`). So a pattern selects the same files on both disks, of those that are
on both of them (`selects_iff`).
-/

set_option autoImplicit false
set_option relaxedAutoImplicit false

namespace ClassMap

open Traversal

/-! ### Components without slashes -/

/-- None of the components stands for a text with a slash only. -/
def Pattern.SlashFree (patterns : List Pattern) : Prop :=
  ∀ p ∈ patterns, ∀ name, p.literal? = some name → '/' ∉ name.toList

namespace Pattern.SlashFree

variable {p q : Pattern} {patterns rest others : List Pattern} {body : String}

theorem tail (h : SlashFree (p :: rest)) : SlashFree rest :=
  fun r hr ↦ h r (List.mem_cons_of_mem p hr)

theorem folders (h : SlashFree (p :: rest)) : SlashFree (.folders :: rest) := by
  refine List.forall_mem_cons.mpr ⟨fun name hname ↦ ?_, h.tail⟩
  exact absurd hname (by simp [literal?, Pattern.folders, Token.char?])

theorem of_dropWhile (h : SlashFree patterns)
    (hnext : patterns.dropWhile Pattern.isRecursive = q :: others) : SlashFree others := by
  refine fun r hr ↦ h r ((List.dropWhile_sublist Pattern.isRecursive).subset ?_)
  rw [hnext]
  exact List.mem_cons_of_mem q hr

theorem of_patternComponents
    (h : (Disk.patternComponents body).mapM Pattern.parse = .ok patterns) : SlashFree patterns := by
  intro p hp name hname
  obtain ⟨part, hpart, hparse⟩ := exists_of_mem_mapM h hp
  have hsegment : part ∈ Path.segments body := by
    rw [Disk.patternComponents] at hpart
    split at hpart
    · exact (List.dropLast_sublist _).subset hpart
    · exact hpart
  exact slash_notMem_of_parse hparse (Path.slash_notMem_of_mem_segments hsegment) hname

end Pattern.SlashFree

namespace Disk

variable {d e : Disk} {v v' w c : Visit} {p : Pattern} {patterns : List Pattern}
  {place : Location} {folder path text name : String}

/-! ### One step back -/

theorem isFolderAt_iff : d.isFolderAt path = true ↔
    ∃ place, d.locate? path = some place ∧ d.isFolder place = true := by
  rw [isFolderAt, itemAt?, beq_iff_eq, Option.bind_eq_some_iff]
  simp only [isFolder_iff]

theorem isUsable_of_locate? (h : d.locate? path = some place) : Path.isUsable path = true := by
  rw [locate?] at h
  split at h
  case isTrue husable => exact husable
  case isFalse => exact absurd h (by simp)

theorem not_isAbsolute_of_here (hhere : Path.components path = [.here]) :
    Path.isAbsolute path = false := by
  obtain ⟨hlead, -⟩ := Path.components_eq_here_iff.mp hhere
  refine Bool.eq_false_iff.mpr fun habsolute ↦ ?_
  obtain ⟨rest, hrest⟩ := List.head?_eq_some_iff.mp (eq_of_beq habsolute)
  rw [Path.lead, hrest] at hlead
  exact absurd hlead (by simp)

/-- A path that is not absolute can only be followed from a folder. -/
theorem isFolder_current (h : d.locate? path = some place) (hpath : Path.isAbsolute path = false) :
    d.isFolder d.current = true := by
  have hstart := isFolder_start h
  rwa [start, hpath, if_neg (by simp)] at hstart

/-- A path of dots leads to the current folder, if it is not too long. -/
theorem isFolderAt_of_here (hhere : Path.components path = [.here])
    (husable : Path.isUsable path = true) (hcurrent : d.isFolder d.current = true) :
    d.isFolderAt path = true := by
  have halong : d.along? (Path.components path) = some d.current := by
    rw [hhere]
    rfl
  exact isFolderAt_iff.mpr ⟨_, locate?_of_along? halong hcurrent husable, hcurrent⟩

theorem isFolderAt_of_join (hfolder : folder ≠ "") (hname : '/' ∉ name.toList)
    (h : d.locate? (Path.join folder name) = some place) : d.isFolderAt folder = true := by
  rw [locate?_join hfolder hname (isUsable_of_locate? h)] at h
  obtain ⟨around, haround, hstep⟩ := Option.bind_eq_some_iff.mp h
  exact isFolderAt_iff.mpr ⟨around, haround, (step?_eq_some_iff.mp hstep).1⟩

/-- A path below a folder leads through the folder. The dots that the path goes without could be too
many. -/
theorem isFolderAt_of_childPath (hfolder : folder ≠ "") (hname : '/' ∉ name.toList)
    (husable : Path.components folder = [.here] → Path.isUsable folder = true)
    (h : d.locate? (childPath folder name) = some place) : d.isFolderAt folder = true := by
  rw [childPath] at h
  split at h
  case isTrue hhere =>
    exact isFolderAt_of_here hhere (husable hhere) (isFolder_current h (Path.not_isAbsolute hname))
  case isFalse => exact isFolderAt_of_join hfolder hname h

theorem isUsable_childPath_of_here (hfolder : folder ≠ "") (hname : '/' ∉ name.toList)
    (hhere : Path.components (childPath folder name) = [.here]) :
    Path.isUsable (childPath folder name) = true := by
  have hdot : Path.components folder = [.here] ∧ name = "." := by
    by_contra hnot
    exact components_childPath_ne_here hfolder hname (fun h hdot ↦ hnot ⟨h, hdot⟩) hhere
  rw [childPath, if_pos hdot.1, hdot.2]
  decide

theorem isAbsolute_childPath (hfolder : folder ≠ "") (hname : '/' ∉ name.toList) :
    Path.isAbsolute (childPath folder name) = Path.isAbsolute folder := by
  rw [childPath]
  split
  case isTrue hhere => rw [not_isAbsolute_of_here hhere, Path.not_isAbsolute hname]
  case isFalse => exact Path.isAbsolute_join hfolder hname

/-! ### What is known of a visit -/

/-- A visit says of its path whether it leads to a folder, if it leads somewhere. -/
structure Visit.Holds (d : Disk) (v : Visit) : Prop where
  ne_empty : v.path ≠ ""
  isFolder_eq : ∀ place, d.locate? v.path = some place → v.isFolder = d.isFolder place
  here : v.isFolder = true → Path.components v.path = [.here] → Path.isUsable v.path = true

theorem Visit.Holds.isFolder_iff (hv : v.Holds d) (h : d.locate? v.path = some place) :
    v.isFolder = true ↔ d.isFolderAt v.path = true := by
  rw [hv.isFolder_eq place h, isFolderAt_iff, h]
  simp

theorem path_visit (d : Disk) (path : String) : (d.visit path).path = path := rfl

theorem holds_visit (hpath : path ≠ "") : (d.visit path).Holds d := by
  refine ⟨hpath, fun place hplace ↦ ?_, fun hfolder _ ↦ ?_⟩
  · have hitem : d.itemAt? path = d.get? place := by
      rw [itemAt?, show d.locate? path = some place from hplace, Option.bind_some]
    rw [visit, isFolderAt, hitem, isFolder]
  · obtain ⟨place, hplace, -⟩ := isFolderAt_iff.mp hfolder
    exact isUsable_of_locate? hplace

theorem IsChild.holds (hsound : d.Sound) (hv : v.path ≠ "") (hc : d.IsChild v c) : c.Holds d := by
  obtain ⟨name, hpath, hslash, hne, hdot, -⟩ := hc.exists_step hsound
  refine ⟨hpath ▸ childPath_ne_empty hv hslash hne, fun inner hinner ↦ ?_, fun _ hhere ↦ ?_⟩
  · obtain ⟨place, name, hplace, hname, -, rfl⟩ := hc.exists_name hsound
    rw [locate?_childPath hname hplace hinner]
  · rw [hpath] at hhere
    exact absurd hhere (components_childPath_ne_here hv hslash fun _ ↦ hdot)

/-- What is known for a folder is no file. -/
theorem Visit.Holds.not_file (hv : v.Holds d) (hfolder : v.isFolder = true) :
    ¬ (d.contents? v.path).isSome = true := by
  rw [Option.isSome_iff_exists]
  rintro ⟨content, hcontent⟩
  obtain ⟨place, hplace, hitem⟩ := contents?_eq_some_iff.mp hcontent
  have hlocate := locate?_of_placeOf? hplace (by rw [hitem]; rfl)
  rw [hv.isFolder_eq place hlocate, Disk.isFolder, hitem] at hfolder
  exact absurd hfolder (by simp)

theorem IsChild.components_ne_here (hsound : d.Sound) (hv : v.path ≠ "") (hc : d.IsChild v c) :
    Path.components c.path ≠ [.here] := by
  obtain ⟨name, hpath, hslash, -, hdot, -⟩ := hc.exists_step hsound
  exact hpath ▸ components_childPath_ne_here hv hslash fun _ ↦ hdot

/-- No way goes on to the empty path. -/
theorem CanGo.childPath_ne_empty (hgo : d.CanGo v name) (hv : v.path ≠ "")
    (hname : '/' ∉ name.toList) : childPath v.path name ≠ "" := by
  by_cases hne : name = ""
  · rw [CanGo, hne, if_neg (by simp), exists?, Option.isSome_iff_exists] at hgo
    obtain ⟨item, hitem⟩ := hgo
    obtain ⟨place, hplace, -⟩ := Option.bind_eq_some_iff.mp hitem
    rw [hne]
    rintro hempty
    rw [hempty] at hplace
    exact absurd (isUsable_of_locate? hplace) (by decide)
  · exact Disk.childPath_ne_empty hv hname hne

/-- What is known of a visit is known of those that it leads to, and all their paths are absolute or
none is. -/
theorem Leads.holds (hsound : d.Sound) (h : d.Leads v patterns w)
    (hparts : Pattern.SlashFree patterns) (hv : v.Holds d) :
    w.Holds d ∧ Path.isAbsolute w.path = Path.isAbsolute v.path := by
  have hchild : ∀ {v c : Visit}, v.Holds d → d.IsChild v c →
      c.Holds d ∧ Path.isAbsolute c.path = Path.isAbsolute v.path := by
    intro v c hv hc
    obtain ⟨name, hpath, hslash, -⟩ := hc.exists_step hsound
    exact ⟨hc.holds hsound hv.ne_empty, hpath ▸ isAbsolute_childPath hv.ne_empty hslash⟩
  induction h with
  | here v => exact ⟨hv, rfl⟩
  | @named v w p rest name hname hgo h ih =>
    have hslash := hparts p List.mem_cons_self name hname
    obtain ⟨hw, hpath⟩ := ih hparts.tail (holds_visit (hgo.childPath_ne_empty hv.ne_empty hslash))
    exact ⟨hw, hpath.trans (isAbsolute_childPath hv.ne_empty hslash)⟩
  | @dotted v w p rest name hp hfolder hname hdot hmatch h ih =>
    have hslash : '/' ∉ name.toList := by rcases hname with rfl | rfl <;> decide
    obtain ⟨hw, hpath⟩ := ih hparts.tail (holds_visit (Path.join_ne_empty hv.ne_empty hslash))
    exact ⟨hw, hpath.trans (Path.isAbsolute_join hv.ne_empty hslash)⟩
  | child hp hc hnext hname hmatch h ih =>
    obtain ⟨hcHolds, hcPath⟩ := hchild hv hc
    obtain ⟨hw, hpath⟩ := ih (hparts.of_dropWhile hnext) hcHolds
    exact ⟨hw, hpath.trans hcPath⟩
  | deeper hp hc hrecursive hfolder h ih =>
    obtain ⟨hcHolds, hcPath⟩ := hchild hv hc
    obtain ⟨hw, hpath⟩ := ih hparts.folders hcHolds
    exact ⟨hw, hpath.trans hcPath⟩
  | folder hp hc hend hfolder => exact hchild hv hc

/-! ### Another disk -/

/-- The folder of a child is a folder on every disk where the path of the child leads somewhere. -/
theorem IsChild.folder_on (hsound : d.Sound) (hv : v.path ≠ "") (hc : d.IsChild v c)
    (h : e.locate? c.path = some place) : e.isFolderAt v.path = true := by
  obtain ⟨name, hpath, hslash, -⟩ := hc.exists_step hsound
  obtain ⟨around, haround, -⟩ := isFolderAt_iff.mp hc.folder
  rw [hpath] at h
  exact isFolderAt_of_childPath hv hslash (fun _ ↦ isUsable_of_locate? haround) h

/-- A way that leads somewhere on another disk leads there through folders, up to its end. -/
theorem Leads.folder_on (hsound : d.Sound) (h : d.Leads v patterns w)
    (hparts : Pattern.SlashFree patterns) (hv : v.Holds d)
    (husable : Path.components v.path = [.here] → Path.isUsable v.path = true)
    (hw : e.locate? w.path = some place) :
    (∃ place, e.locate? v.path = some place) ∧ (patterns ≠ [] → e.isFolderAt v.path = true) := by
  have hfolder : ∀ {patterns : List Pattern} {path : String}, e.isFolderAt path = true →
      (∃ place, e.locate? path = some place) ∧ (patterns ≠ [] → e.isFolderAt path = true) :=
    fun h ↦ ⟨(isFolderAt_iff.mp h).imp fun _ ↦ And.left, fun _ ↦ h⟩
  induction h with
  | here v => exact ⟨⟨place, hw⟩, fun hne ↦ absurd rfl hne⟩
  | @named v w p rest name hname hgo h ih =>
    have hslash := hparts p List.mem_cons_self name hname
    obtain ⟨⟨next, hnext⟩, -⟩ := ih hparts.tail
      (holds_visit (hgo.childPath_ne_empty hv.ne_empty hslash))
      (isUsable_childPath_of_here hv.ne_empty hslash) hw
    exact hfolder (isFolderAt_of_childPath hv.ne_empty hslash husable hnext)
  | @dotted v w p rest name hp hin hname hdot hmatch h ih =>
    have hslash : '/' ∉ name.toList := by rcases hname with rfl | rfl <;> decide
    have hnext := holds_visit (d := d) (Path.join_ne_empty hv.ne_empty hslash)
    by_cases hhere : Path.components v.path = [.here]
    · -- the dots may have become too many, but then the path is relative to the end
      obtain ⟨-, hpath⟩ := h.holds hsound hparts.tail hnext
      have hrelative : Path.isAbsolute w.path = false := by
        rw [hpath, visit, Path.isAbsolute_join hv.ne_empty hslash, not_isAbsolute_of_here hhere]
      exact hfolder (isFolderAt_of_here hhere (husable hhere) (isFolder_current hw hrelative))
    · obtain ⟨⟨next, hnext⟩, -⟩ := ih hparts.tail hnext
        (fun h ↦ absurd h (Path.components_join_ne_here hv.ne_empty hslash hhere)) hw
      exact hfolder (isFolderAt_of_join hv.ne_empty hslash hnext)
  | child hp hc hnext hname hmatch h ih =>
    obtain ⟨⟨inner, hinner⟩, -⟩ := ih (hparts.of_dropWhile hnext) (hc.holds hsound hv.ne_empty)
      (fun h ↦ absurd h (hc.components_ne_here hsound hv.ne_empty)) hw
    exact hfolder (hc.folder_on hsound hv.ne_empty hinner)
  | deeper hp hc hrecursive hin h ih =>
    obtain ⟨⟨inner, hinner⟩, -⟩ := ih hparts.folders (hc.holds hsound hv.ne_empty)
      (fun h ↦ absurd h (hc.components_ne_here hsound hv.ne_empty)) hw
    exact hfolder (hc.folder_on hsound hv.ne_empty hinner)
  | folder hp hc hend hin => exact hfolder (hc.folder_on hsound hv.ne_empty hw)

/-- A child is a child on every disk where its path leads somewhere. -/
theorem IsChild.exists_on (hd : d.Sound) (he : e.Sound) (hv : v.path ≠ "") (hc : d.IsChild v c)
    (h : e.locate? c.path = some place) (hpath : v'.path = v.path) :
    ∃ c', e.IsChild v' c' ∧ c'.path = c.path := by
  have hin := hc.folder_on hd hv h
  obtain ⟨_, name, -, hname, -, rfl⟩ := hc.exists_name hd
  obtain ⟨around, haround, -⟩ := isFolderAt_iff.mp hin
  have hplace := locate?_childPath hname haround h
  have hthere := he.isSome_get?_of_locate? h
  obtain ⟨item, hitem⟩ := Option.isSome_iff_exists.mp hthere
  have hne : place ≠ #[] := by
    rw [hplace]
    simp
  have hlisted : name ∈ e.namesIn around :=
    mem_namesIn_iff.mpr ⟨_, mem_items_of_get? hitem hne, hplace⟩
  refine ⟨⟨childPath v.path name, e.isFolder (around.push name)⟩, ⟨hpath ▸ hin, ?_⟩, rfl⟩
  rw [hpath, visitsIn, haround]
  exact List.mem_map_of_mem hlisted

/-- The components that lead to a file lead to it on every disk where its path leads somewhere. -/
theorem Leads.exists_on (hd : d.Sound) (he : e.Sound) (h : d.Leads v patterns w)
    (hparts : Pattern.SlashFree patterns) (hv : v.Holds d)
    (hfile : (d.contents? w.path).isSome = true) (hw : e.locate? w.path = some place)
    (hpath : v'.path = v.path) (hv' : v'.Holds e) :
    ∃ w', e.Leads v' patterns w' ∧ w'.path = w.path := by
  induction h generalizing v' with
  | here v => exact ⟨v', .here v', hpath⟩
  | @named v w p rest name hname hgo h ih =>
    have hslash := hparts p List.mem_cons_self name hname
    have hne := hgo.childPath_ne_empty hv.ne_empty hslash
    obtain ⟨⟨next, hnext⟩, -⟩ := h.folder_on hd hparts.tail (holds_visit hne)
      (isUsable_childPath_of_here hv.ne_empty hslash) hw
    have hgo' : e.CanGo v' name := by
      rw [CanGo] at hgo ⊢
      split
      case isTrue hspecial =>
        rw [if_pos hspecial] at hgo
        have hin := isFolderAt_of_childPath hv.ne_empty hslash (hv.here hgo) hnext
        obtain ⟨around, haround, -⟩ := isFolderAt_iff.mp hin
        rw [← hpath] at hin haround
        exact (hv'.isFolder_iff haround).mpr hin
      case isFalse =>
        rw [hpath, exists?, itemAt?, show e.locate? (childPath v.path name) = _ from hnext]
        exact he.isSome_get?_of_locate? hnext
    obtain ⟨w', hleads, hw'⟩ :=
      ih hparts.tail (holds_visit hne) hfile hw (path_visit e _) (holds_visit hne)
    exact ⟨w', .named hname hgo' (hpath ▸ hleads), hw'⟩
  | @dotted v w p rest name hp hin hname hdot hmatch h ih =>
    have hslash : '/' ∉ name.toList := by rcases hname with rfl | rfl <;> decide
    have hne := Path.join_ne_empty hv.ne_empty hslash
    obtain ⟨around, haround, -⟩ := isFolderAt_iff.mp hin
    obtain ⟨-, hin'⟩ := (Leads.dotted hp hin hname hdot hmatch h).folder_on hd hparts hv
      (fun _ ↦ isUsable_of_locate? haround) hw
    obtain ⟨w', hleads, hw'⟩ :=
      ih hparts.tail (holds_visit hne) hfile hw (path_visit e _) (holds_visit hne)
    exact ⟨w', .dotted hp (hpath ▸ hin' (List.cons_ne_nil _ _)) hname hdot hmatch
      (hpath ▸ hleads), hw'⟩
  | child hp hc hnext hname hmatch h ih =>
    have hcHolds := hc.holds hd hv.ne_empty
    obtain ⟨⟨inner, hinner⟩, -⟩ := h.folder_on hd (hparts.of_dropWhile hnext) hcHolds
      (fun hhere ↦ absurd hhere (hc.components_ne_here hd hv.ne_empty)) hw
    obtain ⟨c', hc', hsame⟩ := hc.exists_on hd he hv.ne_empty hinner hpath
    obtain ⟨w', hleads, hw'⟩ := ih (hparts.of_dropWhile hnext) hcHolds hfile hw hsame
      (hc'.holds he hv'.ne_empty)
    exact ⟨w', .child hp hc' hnext (hsame ▸ hname) hmatch hleads, hw'⟩
  | deeper hp hc hrecursive hin h ih =>
    have hcHolds := hc.holds hd hv.ne_empty
    obtain ⟨⟨inner, hinner⟩, hin'⟩ := h.folder_on hd hparts.folders hcHolds
      (fun hhere ↦ absurd hhere (hc.components_ne_here hd hv.ne_empty)) hw
    obtain ⟨c', hc', hsame⟩ := hc.exists_on hd he hv.ne_empty hinner hpath
    have hc'Holds := hc'.holds he hv'.ne_empty
    obtain ⟨w', hleads, hw'⟩ := ih hparts.folders hcHolds hfile hw hsame hc'Holds
    have hfolder : c'.isFolder = true := by
      refine (hc'Holds.isFolder_iff (hsame ▸ hinner)).mpr ?_
      rw [hsame]
      exact hin' (List.cons_ne_nil _ _)
    exact ⟨w', .deeper hp hc' hrecursive hfolder hleads, hw'⟩
  | folder hp hc hend hin =>
    exact absurd hfile ((hc.holds hd hv.ne_empty).not_file hin)

/-! ### Patterns -/

/-- A pattern that selects a file selects it on every disk where its path leads to a file. -/
theorem Selects.on (hd : d.Sound) (he : e.Sound) (h : d.Selects text path)
    (hfile : (d.contents? path).isSome = true) (hfile' : (e.contents? path).isSome = true) :
    e.Selects text path := by
  obtain ⟨patterns, hpatterns, w, hleads, rfl, hfolder⟩ := h
  have hroot : rootOf text ≠ "" := by
    rw [rootOf]
    split <;> simp
  have hparts := Pattern.SlashFree.of_patternComponents hpatterns
  obtain ⟨content, hcontent⟩ := Option.isSome_iff_exists.mp hfile'
  obtain ⟨place, hplace, hitem⟩ := contents?_eq_some_iff.mp hcontent
  have hw := locate?_of_placeOf? hplace (by rw [hitem]; rfl)
  obtain ⟨w', hleads', hw'⟩ := hleads.exists_on hd he hparts (holds_visit hroot) hfile hw
    (path_visit e _) (holds_visit hroot)
  refine ⟨patterns, hpatterns, w', hleads', hw', fun hslash ↦ ?_⟩
  obtain ⟨hwHolds, -⟩ := hleads.holds hd hparts (holds_visit hroot)
  exact absurd hfile (hwHolds.not_file (hfolder hslash))

/-- Of the files that are on two disks, a pattern selects the same on both. -/
theorem selects_iff (hd : d.Sound) (he : e.Sound) (hfile : (d.contents? path).isSome = true)
    (hfile' : (e.contents? path).isSome = true) : d.Selects text path ↔ e.Selects text path :=
  ⟨fun h ↦ h.on hd he hfile hfile', fun h ↦ h.on he hd hfile' hfile⟩

end Disk

end ClassMap
