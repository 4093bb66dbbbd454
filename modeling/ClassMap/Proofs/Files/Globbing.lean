import Mathlib.Data.List.Perm.Subperm
import ClassMap.Files.Search
import ClassMap.Proofs.Files.Around
import ClassMap.Proofs.Files.Patterns
import ClassMap.Proofs.Traversal

/-!
What a pattern finds. `Leads` says what the components of a pattern lead to, each one step from a
folder to something in it, and a recursive one any number of steps down. A search goes the same way,
from pending path to pending path (`exists_mem_expand_iff`), and on a disk where everything is in a
folder it has steps enough to come to the end of each way: either it goes down, and no folder is
deeper than there are items (`need_lt_of_folders`), or a component is done with
(`need_lt_of_dropWhile`). So a search finds exactly what the pattern leads to (`mem_glob_iff`).
-/

set_option autoImplicit false
set_option relaxedAutoImplicit false

namespace ClassMap

open Traversal

namespace Disk

variable {d : Disk} {v w c : Visit} {p q : Pattern} {rest others patterns : List Pattern}
  {place : Location} {folder path text name : String}

/-! ### Where patterns lead -/

/-- A visit to something in the folder that another visit is to. -/
structure IsChild (d : Disk) (v c : Visit) : Prop where
  folder : d.isFolderAt v.path = true
  mem : c ∈ d.visitsIn v.path

/-- Whether a component without special characters can be gone along: a way on or back from a
folder, and a name to something that is there. -/
def CanGo (d : Disk) (v : Visit) (name : String) : Prop :=
  if name = "." ∨ name = ".." then v.isFolder = true
  else d.exists? (childPath v.path name) = true

/-- What components lead to from a visit. -/
inductive Leads (d : Disk) : Visit → List Pattern → Visit → Prop where
  | here (v : Visit) : Leads d v [] v
  | named {v w : Visit} {p : Pattern} {rest : List Pattern} {name : String}
      (hname : p.literal? = some name) (hgo : d.CanGo v name)
      (h : Leads d (d.visit (childPath v.path name)) rest w) : Leads d v (p :: rest) w
  /-- The ways on and back have to be asked for by their dot. -/
  | dotted {v w : Visit} {p : Pattern} {rest : List Pattern} {name : String}
      (hp : p.literal? = none) (hfolder : d.isFolderAt v.path = true)
      (hname : name = "." ∨ name = "..") (hdot : startsWithDot p = true)
      (hmatch : p.isMatch name = true)
      (h : Leads d (d.visit (Path.join v.path name)) rest w) : Leads d v (p :: rest) w
  /-- Recursive components may stand for no folder at all. -/
  | child {v w c : Visit} {p q : Pattern} {rest others : List Pattern} {name : String}
      (hp : p.literal? = none) (hc : d.IsChild v c)
      (hnext : (p :: rest).dropWhile Pattern.isRecursive = q :: others)
      (hname : Path.fileName? c.path = some name) (hmatch : q.isMatch name = true)
      (h : Leads d c others w) : Leads d v (p :: rest) w
  | deeper {v w c : Visit} {p : Pattern} {rest : List Pattern} (hp : p.literal? = none)
      (hc : d.IsChild v c) (hrecursive : p.isRecursive = true) (hfolder : c.isFolder = true)
      (h : Leads d c (.folders :: rest) w) : Leads d v (p :: rest) w
  /-- At the end, recursive components stand for folders. -/
  | folder {v c : Visit} {p : Pattern} {rest : List Pattern} (hp : p.literal? = none)
      (hc : d.IsChild v c) (hend : (p :: rest).dropWhile Pattern.isRecursive = [])
      (hfolder : c.isFolder = true) : Leads d v (p :: rest) c

theorem Leads.of_dropWhile
    (hsame : rest.dropWhile Pattern.isRecursive = others.dropWhile Pattern.isRecursive)
    (h : d.Leads v (.folders :: rest) w) : d.Leads v (.folders :: others) w := by
  generalize hpatterns : Pattern.folders :: rest = patterns at h
  have hdrop : ∀ rs : List Pattern, (Pattern.folders :: rs).dropWhile Pattern.isRecursive =
      rs.dropWhile Pattern.isRecursive := fun _ ↦ rfl
  -- a path that starts with folders goes on by a child only, which reads past them
  induction h with
  | here v => exact absurd hpatterns (List.cons_ne_nil _ _)
  | named hname _ _ _ =>
    obtain ⟨rfl, -⟩ := List.cons.inj hpatterns
    exact absurd hname (by simp [Pattern.literal?, Pattern.folders, Token.char?])
  | dotted _ _ _ hdot _ _ _ =>
    obtain ⟨rfl, -⟩ := List.cons.inj hpatterns
    exact absurd hdot (by decide)
  | child hp hc hnext hname hmatch h _ =>
    obtain ⟨rfl, rfl⟩ := List.cons.inj hpatterns
    rw [hdrop, hsame, ← hdrop] at hnext
    exact .child hp hc hnext hname hmatch h
  | deeper hp hc hrecursive hfolder _ ih =>
    obtain ⟨rfl, rfl⟩ := List.cons.inj hpatterns
    exact .deeper hp hc hrecursive hfolder (ih rfl)
  | folder hp hc hend hfolder =>
    obtain ⟨rfl, rfl⟩ := List.cons.inj hpatterns
    rw [hdrop, hsame, ← hdrop] at hend
    exact .folder hp hc hend hfolder

/-! ### Pending paths -/

/-- What a path that has been come upon leads to, from the recursive components on that it is
matched with next. -/
inductive Opens (d : Disk) (c : Visit) (patterns : List Pattern) (w : Visit) : Prop where
  | child {q : Pattern} {others : List Pattern} {name : String}
      (hnext : patterns.dropWhile Pattern.isRecursive = q :: others)
      (hname : Path.fileName? c.path = some name) (hmatch : q.isMatch name = true)
      (h : d.Leads c others w)
  | deeper {p : Pattern} {rest : List Pattern} (hpatterns : patterns = p :: rest)
      (hrecursive : p.isRecursive = true) (hfolder : c.isFolder = true)
      (h : d.Leads c (.folders :: rest) w)
  | folder (hend : patterns.dropWhile Pattern.isRecursive = []) (hfolder : c.isFolder = true)
      (heq : w = c)

def Pending.LeadsTo (d : Disk) (w : Visit) : Pending → Prop
  | .found v => w = v
  | .open c patterns => d.Opens c patterns w

theorem canGo_iff : ((name == "." || name == "..") && v.isFolder ||
    !(name == "." || name == "..") && d.exists? (childPath v.path name)) = true ↔
      d.CanGo v name := by
  rw [CanGo]
  split
  case isTrue h => rcases h with rfl | rfl <;> simp
  case isFalse h =>
    obtain ⟨hhere, hup⟩ := not_or.mp h
    simp [hhere, hup]

theorem leads_cons_iff_of_literal?_eq_some (hp : p.literal? = some name) :
    d.Leads v (p :: rest) w ↔
      d.CanGo v name ∧ d.Leads (d.visit (childPath v.path name)) rest w := by
  constructor
  · intro h
    cases h with
    | named hname hgo h =>
      obtain rfl := Option.some.inj (hp.symm.trans hname)
      exact ⟨hgo, h⟩
    | dotted hnone => exact absurd (hp.symm.trans hnone) (by simp)
    | child hnone => exact absurd (hp.symm.trans hnone) (by simp)
    | deeper hnone => exact absurd (hp.symm.trans hnone) (by simp)
    | folder hnone => exact absurd (hp.symm.trans hnone) (by simp)
  · rintro ⟨hgo, h⟩
    exact .named hp hgo h

/-- Going on with a component for which all that is in the folder is looked at. -/
theorem leads_cons_iff_of_literal?_eq_none (hp : p.literal? = none) :
    d.Leads v (p :: rest) w ↔
      (∃ name, (name = "." ∨ name = "..") ∧ d.isFolderAt v.path = true ∧ startsWithDot p = true ∧
        p.isMatch name = true ∧ d.Leads (d.visit (Path.join v.path name)) rest w) ∨
      ∃ c, d.IsChild v c ∧ d.Opens c (p :: rest) w := by
  constructor
  · intro h
    cases h with
    | named hname => exact absurd (hname.symm.trans hp) (by simp)
    | dotted _ hfolder hname hdot hmatch h => exact .inl ⟨_, hname, hfolder, hdot, hmatch, h⟩
    | child _ hc hnext hname hmatch h => exact .inr ⟨_, hc, .child hnext hname hmatch h⟩
    | deeper _ hc hrecursive hfolder h => exact .inr ⟨_, hc, .deeper rfl hrecursive hfolder h⟩
    | folder _ hc hend hfolder => exact .inr ⟨_, hc, .folder hend hfolder rfl⟩
  · rintro (⟨name, hname, hfolder, hdot, hmatch, h⟩ | ⟨c, hc, hopens⟩)
    · exact .dotted hp hfolder hname hdot hmatch h
    · cases hopens with
      | child hnext hname hmatch h => exact .child hp hc hnext hname hmatch h
      | deeper hpatterns hrecursive hfolder h =>
        obtain ⟨rfl, rfl⟩ := List.cons.inj hpatterns
        exact .deeper hp hc hrecursive hfolder h
      | folder hend hfolder heq =>
        subst heq
        exact .folder hp hc hend hfolder

/-- Going on with components comes upon pending paths that lead where the components lead. -/
theorem exists_mem_expand_iff :
    (∃ pending ∈ d.expand patterns v, pending.LeadsTo d w) ↔ d.Leads v patterns w := by
  induction patterns generalizing v with
  | nil =>
    simp only [expand, List.mem_singleton, exists_eq_left, Pending.LeadsTo]
    constructor
    · rintro rfl
      exact .here w
    · intro h
      cases h
      rfl
  | cons p rest ih =>
    rw [expand]
    cases hp : p.literal? with
    | some name =>
      dsimp only
      rw [leads_cons_iff_of_literal?_eq_some hp, ← ih]
      by_cases hgo : d.CanGo v name
      · rw [if_pos (canGo_iff.mpr hgo), and_iff_right hgo]
      · rw [if_neg (mt canGo_iff.mp hgo)]
        exact iff_of_false (by simp) fun h ↦ hgo h.1
    | none =>
      rw [leads_cons_iff_of_literal?_eq_none hp]
      by_cases hfolder : d.isFolderAt v.path = true
      · rw [if_pos hfolder]
        -- the folder itself and its parent are gone into at once, the children are left for later
        refine (exists_congr fun _ ↦ by rw [List.mem_append, or_and_right]).trans
          (exists_or.trans (or_congr ?_ ?_))
        · simp only [List.mem_flatMap, List.mem_reverse, List.mem_filter, List.mem_cons,
            List.not_mem_nil, or_false, Bool.and_eq_true]
          constructor
          · rintro ⟨pending, ⟨name, ⟨hname, hdot, hmatch⟩, hmem⟩, hleads⟩
            exact ⟨name, hname, hfolder, hdot, hmatch, ih.mp ⟨pending, hmem, hleads⟩⟩
          · rintro ⟨name, hname, -, hdot, hmatch, h⟩
            obtain ⟨pending, hmem, hleads⟩ := ih.mpr h
            exact ⟨pending, ⟨name, ⟨hname, hdot, hmatch⟩, hmem⟩, hleads⟩
        · constructor
          · rintro ⟨_, hmem, hopens⟩
            obtain ⟨c, hc, rfl⟩ := List.mem_map.mp hmem
            exact ⟨c, ⟨hfolder, hc⟩, hopens⟩
          · rintro ⟨c, hc, hopens⟩
            exact ⟨_, List.mem_map_of_mem hc.mem, hopens⟩
      · rw [if_neg hfolder]
        refine iff_of_false (by simp) ?_
        rintro (⟨_, _, hin, _⟩ | ⟨c, hc, _⟩)
        · exact hfolder hin
        · exact hfolder hc.folder

/-! ### Children -/

theorem mem_namesIn_iff :
    name ∈ d.namesIn place ↔ ∃ entry ∈ d.items, entry.1 = place.push name := by
  rw [namesIn, List.mem_mergeSort, List.mem_filterMap]
  refine exists_congr fun entry ↦ and_congr_right fun _ ↦ ?_
  constructor
  · intro h
    split at h
    case isTrue hin =>
      obtain ⟨hsize, hwithin⟩ := Bool.and_eq_true_iff.mp hin
      obtain ⟨folder, hpush⟩ := Array.back?_eq_some_iff.mp h
      obtain ⟨more, hmore⟩ := List.isPrefixOf_iff_prefix.mp hwithin
      rw [hpush, Array.size_push, beq_iff_eq, Nat.add_right_cancel_iff] at hsize
      rw [hpush, Array.toList_push] at hmore
      rw [hpush, ← Array.toList_inj.mp (List.append_inj_left hmore (by simpa using hsize.symm))]
    case isFalse => exact absurd h (by simp)
  · intro hpush
    rw [hpush, if_pos, Array.back?_push]
    simp [isWithin]

/-- On a disk where everything is in a folder, a child has a name, and its path is that of the
folder and the name. -/
theorem IsChild.exists_name (hsound : d.Sound) (h : d.IsChild v c) :
    ∃ place name, d.locate? v.path = some place ∧ Path.isEntryName name = true ∧
      (d.get? (place.push name)).isSome = true ∧
        c = ⟨childPath v.path name, d.isFolder (place.push name)⟩ := by
  have hmem := h.mem
  rw [visitsIn] at hmem
  split at hmem
  case h_1 place hplace =>
    obtain ⟨name, hname, rfl⟩ := List.mem_map.mp hmem
    obtain ⟨entry, hentry, hpush⟩ := mem_namesIn_iff.mp hname
    obtain ⟨folder, name', hpush', -, hentryName⟩ := sound_iff.mp hsound entry hentry
    obtain ⟨rfl, -⟩ := Array.push_eq_push.mp (hpush.symm.trans hpush')
    exact ⟨place, name, hplace, hentryName, hpush ▸ isSome_get?_of_mem hentry, rfl⟩
  case h_2 => exact absurd hmem List.not_mem_nil

theorem components_childPath (hname : Path.isEntryName name = true) :
    Path.components (childPath folder name) =
      if Path.components folder = [.here] then [.name name]
      else Path.components folder ++ [.name name] := by
  rw [childPath]
  split
  · have hjoin := Path.components_join "" hname
    rwa [Path.join_empty] at hjoin
  · exact Path.components_join folder hname

theorem fileName?_childPath (hname : Path.isEntryName name = true) :
    Path.fileName? (childPath folder name) = some name := by
  have hlast : (Path.components (childPath folder name)).getLast? = some (.name name) := by
    rw [components_childPath hname]
    split
    · rfl
    · exact List.getLast?_concat
  rw [Path.fileName?, hlast]

/-- The path of a child leads to its place, if it can be followed. -/
theorem locate?_childPath (hname : Path.isEntryName name = true) {inner : Location}
    (hfolder : d.locate? folder = some place)
    (h : d.locate? (childPath folder name) = some inner) : inner = place.push name := by
  have hfrom := along?_of_locate? hfolder
  have hto := along?_of_locate? h
  have henter : d.enter? place (.name name) = some inner := by
    rw [components_childPath hname] at hto
    split at hto
    case isTrue hhere =>
      rw [hhere] at hfrom
      obtain rfl := Option.some.inj hfrom
      simpa [along?] using hto
    case isFalse =>
      rw [along?, List.foldlM_append] at hto
      obtain ⟨middle, hmiddle, hlast⟩ := Option.bind_eq_some_iff.mp hto
      obtain rfl := Option.some.inj (hmiddle.symm.trans hfrom)
      simpa using hlast
  obtain ⟨-, hstep, -⟩ := step?_eq_some_iff.mp henter
  rw [← hstep, stepPlace_of_isName _ (Path.isName_of_isEntryName hname)]

/-! ### Enough steps -/

/-- As many items are on the way to a place as it is deep, the place included: their depth tells
them apart. -/
theorem Sound.exists_way (hsound : d.Sound) (hthere : (d.get? place).isSome = true) :
    ∃ way : List Location, way.length = place.size ∧ way.Nodup ∧
      ∀ other ∈ way, other ∈ d.items.map (·.1) ∧ other.size ≤ place.size := by
  generalize hsize : place.size = size
  induction size generalizing place with
  | zero => exact ⟨[], rfl, List.nodup_nil, fun _ h ↦ absurd h List.not_mem_nil⟩
  | succ size ih =>
    have hne : place ≠ #[] := by
      rintro rfl
      exact absurd hsize (by simp)
    obtain ⟨folder, name, rfl, hfolder, -⟩ := hsound.exists_push hthere hne
    obtain ⟨item, hitem⟩ := Option.isSome_iff_exists.mp hthere
    have hmem := List.mem_map_of_mem (f := (·.1)) (mem_items_of_get? hitem hne)
    obtain ⟨way, hlength, hnodup, hway⟩ :=
      ih (by rw [isFolder_iff.mp hfolder]; rfl) (by simpa using hsize)
    refine ⟨folder.push name :: way, by simp [hlength],
      List.nodup_cons.mpr ⟨fun hin ↦ ?_, hnodup⟩,
      List.forall_mem_cons.mpr ⟨⟨hmem, hsize.le⟩, fun other hother ↦ ?_⟩⟩
    · have := (hway _ hin).2
      omega
    · exact (hway other hother).imp_right Nat.le_succ_of_le

/-- No place is deeper than there are items, as each folder on the way to it is one. -/
theorem Sound.size_le (hsound : d.Sound) (hthere : (d.get? place).isSome = true) :
    place.size ≤ d.items.length := by
  obtain ⟨way, hlength, hnodup, hway⟩ := hsound.exists_way hthere
  have hsub := (List.subperm_of_subset hnodup fun other hother ↦ (hway other hother).1).length_le
  simpa [hlength] using hsub

/-- How many folders a visit is below the root. What no path leads to is deeper than all else. -/
def depth (d : Disk) (v : Visit) : Nat :=
  match d.locate? v.path with
  | some place => place.size
  | none => d.items.length + 1

theorem IsChild.depth_lt (hsound : d.Sound) (h : d.IsChild v c) :
    d.depth v < d.depth c ∧ d.depth v < d.items.length := by
  obtain ⟨place, name, hplace, hname, hthere, rfl⟩ := h.exists_name hsound
  have hsize := hsound.size_le hthere
  rw [Array.size_push] at hsize
  rw [depth, depth, hplace]
  refine ⟨?_, hsize⟩
  cases hinner : d.locate? (childPath v.path name) with
  | none => exact Nat.lt_succ_of_lt hsize
  | some inner => simp [locate?_childPath hname hplace hinner]

/-- A path leads to something. -/
theorem Sound.isSome_get?_of_locate? (hsound : d.Sound) (h : d.locate? path = some place) :
    (d.get? place).isSome = true := by
  have hthere : ∀ {other}, d.isFolder other = true → (d.get? other).isSome = true := by
    intro other hother
    rw [isFolder_iff.mp hother]
    rfl
  obtain ⟨folder, segment, -, hstep⟩ := locate?_eq_some_iff.mp h
  obtain ⟨hfolder, hplace, hnamed⟩ := step?_eq_some_iff.mp hstep
  cases hname : isName segment with
  | true => exact hnamed hname
  | false =>
    rw [stepPlace] at hplace
    split at hplace
    case isTrue => exact hplace ▸ hthere hfolder
    case isFalse hstay =>
      split at hplace
      case isTrue => exact hplace ▸ hthere (hsound.isFolder_pop hfolder)
      case isFalse hup =>
        simp only [Bool.or_eq_true, beq_iff_eq, not_or] at hstay hup
        simp [isName, hstay, hup] at hname

theorem Sound.depth_le (hsound : d.Sound) (v : Visit) : d.depth v ≤ d.items.length + 1 := by
  rw [depth]
  cases hplace : d.locate? v.path with
  | none => exact le_rfl
  | some place => exact Nat.le_succ_of_le (hsound.size_le (hsound.isSome_get?_of_locate? hplace))

/-- How many steps a search goes from a pending path at most. -/
def need (d : Disk) : Pending → Nat
  | .found _ => 1
  | .open c patterns =>
    (patterns.dropWhile Pattern.isRecursive).length * (d.items.length + 2) +
      (d.items.length + 2 - d.depth c)

theorem need_pos (hsound : d.Sound) (pending : Pending) : 0 < d.need pending := by
  rcases pending with v | ⟨c, patterns⟩
  · exact Nat.one_pos
  · have := hsound.depth_le c
    rw [need]
    omega

theorem need_le_of_mem_expand (hsound : d.Sound) {pending : Pending}
    (h : pending ∈ d.expand patterns v) :
    d.need pending ≤ patterns.length * (d.items.length + 2) + (d.items.length + 1) := by
  induction patterns generalizing v with
  | nil =>
    obtain rfl := List.mem_singleton.mp h
    simp [need]
  | cons p rest ih =>
    have hrest : ∀ v', pending ∈ d.expand rest v' →
        d.need pending ≤ (rest.length + 1) * (d.items.length + 2) + (d.items.length + 1) := by
      intro v' hmem
      have := ih hmem
      rw [Nat.add_one_mul]
      omega
    rw [List.length_cons]
    rw [expand] at h
    split at h
    case h_1 name hname =>
      dsimp only at h
      split at h
      case isTrue => exact hrest _ h
      case isFalse => exact absurd h List.not_mem_nil
    case h_2 =>
      split at h
      case isTrue hfolder =>
        rcases List.mem_append.mp h with hspecial | hchild
        · obtain ⟨name, -, hmem⟩ := List.mem_flatMap.mp hspecial
          exact hrest _ hmem
        · obtain ⟨c, hc, rfl⟩ := List.mem_map.mp hchild
          have hdepth := (IsChild.depth_lt hsound ⟨hfolder, hc⟩).1
          have hlength : ((p :: rest).dropWhile Pattern.isRecursive).length ≤ rest.length + 1 :=
            (List.dropWhile_sublist _).length_le
          have := Nat.mul_le_mul_right (d.items.length + 2) hlength
          rw [need]
          omega
      case isFalse => exact absurd h List.not_mem_nil

/-- Each step of a search leaves fewer to go: it is done with a component, or further down. -/
theorem need_lt_of_dropWhile (hsound : d.Sound) {pending : Pending}
    (hnext : patterns.dropWhile Pattern.isRecursive = q :: others)
    (h : pending ∈ d.expand others c) : d.need pending < d.need (.open c patterns) := by
  have := need_le_of_mem_expand hsound h
  rw [need, hnext, List.length_cons, Nat.add_one_mul]
  omega

theorem mem_expand_folders_iff {pending : Pending} :
    pending ∈ d.expand (.folders :: rest) c ↔
      ∃ inner, d.IsChild c inner ∧ pending = .open inner (.folders :: rest) := by
  have hnone : Pattern.folders.literal? = none := rfl
  have hspecials : ([".", ".."].filter fun name ↦
      startsWithDot .folders && Pattern.folders.isMatch name) = [] := rfl
  rw [expand, hnone]
  dsimp only
  rw [hspecials]
  by_cases hfolder : d.isFolderAt c.path = true
  · rw [if_pos hfolder, List.reverse_nil, List.flatMap_nil, List.nil_append, List.mem_map]
    constructor
    · rintro ⟨inner, hmem, rfl⟩
      exact ⟨inner, ⟨hfolder, hmem⟩, rfl⟩
    · rintro ⟨inner, hinner, rfl⟩
      exact ⟨inner, hinner.mem, rfl⟩
  · rw [if_neg hfolder]
    refine iff_of_false List.not_mem_nil ?_
    rintro ⟨inner, hinner, -⟩
    exact hfolder hinner.folder

theorem need_lt_of_folders (hsound : d.Sound) {pending : Pending}
    (h : pending ∈ d.expand (.folders :: patterns.dropWhile Pattern.isRecursive) c) :
    d.need pending < d.need (.open c patterns) := by
  obtain ⟨inner, hinner, rfl⟩ := mem_expand_folders_iff.mp h
  obtain ⟨hdeeper, hdepth⟩ := hinner.depth_lt hsound
  have hdrop : (Pattern.folders :: patterns.dropWhile Pattern.isRecursive).dropWhile
      Pattern.isRecursive = patterns.dropWhile Pattern.isRecursive :=
    List.dropWhile_idempotent _ patterns
  rw [need, need, hdrop]
  omega

/-! ### Searches -/

/-- What is found from a pending path is asked for, or found from a path that comes next. -/
theorem mem_results_open_iff {foldersOnly : Bool} {depth : Nat} :
    path ∈ d.results foldersOnly (depth + 1) (.open c patterns) ↔
      (patterns.dropWhile Pattern.isRecursive = [] ∧ c.isFolder = true ∧ path = c.path) ∨
      (∃ q others name, patterns.dropWhile Pattern.isRecursive = q :: others ∧
        Path.fileName? c.path = some name ∧ q.isMatch name = true ∧
        (others = [] ∧ path = c.path ∧ (foldersOnly = true → c.isFolder = true) ∨
          others ≠ [] ∧
            ∃ pending ∈ d.expand others c, path ∈ d.results foldersOnly depth pending)) ∨
      ((∃ p rest, patterns = p :: rest ∧ p.isRecursive = true) ∧ c.isFolder = true ∧
        ∃ pending ∈ d.expand (.folders :: patterns.dropWhile Pattern.isRecursive) c,
          path ∈ d.results foldersOnly depth pending) := by
  have hfirst : (patterns.dropWhile Pattern.isRecursive).length < patterns.length ↔
      ∃ p rest, patterns = p :: rest ∧ p.isRecursive = true := by
    cases patterns with
    | nil => simp
    | cons p rest =>
      have hlength := (List.dropWhile_sublist (l := rest) Pattern.isRecursive).length_le
      cases hp : p.isRecursive with
      | true => simpa [hp] using Nat.lt_succ_of_le hlength
      | false => simp [hp]
  rw [results, List.mem_append, List.mem_flatMap, ← or_assoc]
  refine or_congr ?_ ?_
  · cases hdrop : patterns.dropWhile Pattern.isRecursive with
    | nil =>
      dsimp only
      rw [List.mem_ite_nil_right, List.mem_singleton]
      simp
    | cons q others =>
      dsimp only
      cases hname : Path.fileName? c.path with
      | none => simp
      | some name =>
        dsimp only
        rw [List.mem_ite_nil_right]
        cases others with
        | nil => simp [and_comm]
        | cons => simp
  · rw [← hfirst]
    by_cases hin : (patterns.dropWhile Pattern.isRecursive).length < patterns.length ∧
        c.isFolder = true
    · rw [if_pos (by simpa using hin)]
      simp [hin, Pattern.folders]
    · rw [if_neg (by simpa using hin)]
      exact iff_of_false (by simp) fun h ↦ hin ⟨h.1, h.2.1⟩

/-- What a search is to find under a path. -/
def Shows (foldersOnly : Bool) (path : String) (w : Visit) : Prop :=
  w.path = path ∧ (foldersOnly = true → w.isFolder = true)

/-- Going on with components, a search finds what they lead to if it does so from each pending path
that it comes upon. -/
theorem exists_mem_results_iff {foldersOnly : Bool} {depth : Nat}
    (hresults : ∀ pending ∈ d.expand patterns v, path ∈ d.results foldersOnly depth pending ↔
      ∃ w, pending.LeadsTo d w ∧ Shows foldersOnly path w) :
    (∃ pending ∈ d.expand patterns v, path ∈ d.results foldersOnly depth pending) ↔
      ∃ w, d.Leads v patterns w ∧ Shows foldersOnly path w := by
  constructor
  · rintro ⟨pending, hmem, hpath⟩
    obtain ⟨w, hleads, hshows⟩ := (hresults pending hmem).mp hpath
    exact ⟨w, exists_mem_expand_iff.mp ⟨pending, hmem, hleads⟩, hshows⟩
  · rintro ⟨w, hleads, hshows⟩
    obtain ⟨pending, hmem, hpending⟩ := exists_mem_expand_iff.mpr hleads
    exact ⟨pending, hmem, (hresults pending hmem).mpr ⟨w, hpending, hshows⟩⟩

/-- With steps enough, a search finds what a pending path leads to. -/
theorem mem_results_iff (hsound : d.Sound) {foldersOnly : Bool} {depth : Nat} {pending : Pending}
    (hneed : d.need pending ≤ depth) :
    path ∈ d.results foldersOnly depth pending ↔
      ∃ w, pending.LeadsTo d w ∧ Shows foldersOnly path w := by
  induction depth generalizing pending with
  | zero => exact absurd hneed (Nat.not_le_of_gt (need_pos hsound pending))
  | succ depth ih =>
    rcases pending with v | ⟨c, patterns⟩
    · simp only [results, Pending.LeadsTo, exists_eq_left, Shows]
      cases foldersOnly <;> cases v.isFolder <;> simp [eq_comm]
    -- every path that comes next needs fewer steps, so the induction is there for all of them
    · have hsmaller : ∀ {ps : List Pattern},
          (∀ pending ∈ d.expand ps c, d.need pending < d.need (.open c patterns)) →
          ((∃ pending ∈ d.expand ps c, path ∈ d.results foldersOnly depth pending) ↔
            ∃ w, d.Leads c ps w ∧ Shows foldersOnly path w) :=
        fun hlt ↦ exists_mem_results_iff fun pending hmem ↦
          ih (Nat.le_of_lt_succ ((hlt pending hmem).trans_le hneed))
      rw [mem_results_open_iff, hsmaller fun _ ↦ need_lt_of_folders hsound]
      constructor
      · rintro (⟨hend, hfolder, rfl⟩ | ⟨q, others, name, hnext, hname, hmatch, hrest⟩ |
          ⟨⟨p, rest, rfl, hrecursive⟩, hfolder, w, hleads, hshows⟩)
        · exact ⟨c, .folder hend hfolder rfl, rfl, fun _ ↦ hfolder⟩
        · rcases hrest with ⟨rfl, rfl, hfolder⟩ | ⟨-, hrest⟩
          · exact ⟨c, .child hnext hname hmatch (.here c), rfl, hfolder⟩
          · rw [hsmaller fun _ ↦ need_lt_of_dropWhile hsound hnext] at hrest
            obtain ⟨w, hleads, hshows⟩ := hrest
            exact ⟨w, .child hnext hname hmatch hleads, hshows⟩
        · refine ⟨w, .deeper rfl hrecursive hfolder (hleads.of_dropWhile ?_), hshows⟩
          rw [List.dropWhile_idempotent, List.dropWhile_cons_of_pos hrecursive]
      · rintro ⟨w, hopens, hshows⟩
        cases hopens with
        | @child q others name hnext hname hmatch h =>
          refine .inr (.inl ⟨q, others, name, hnext, hname, hmatch, ?_⟩)
          rw [hsmaller fun _ ↦ need_lt_of_dropWhile hsound hnext]
          by_cases hempty : others = []
          · subst hempty
            cases h
            exact .inl ⟨rfl, hshows.1.symm, hshows.2⟩
          · exact .inr ⟨hempty, w, h, hshows⟩
        | @deeper p rest hpatterns hrecursive hfolder h =>
          subst hpatterns
          refine .inr (.inr ⟨⟨p, rest, rfl, hrecursive⟩, hfolder, w, h.of_dropWhile ?_, hshows⟩)
          rw [List.dropWhile_idempotent, List.dropWhile_cons_of_pos hrecursive]
        | folder hend hfolder heq =>
          subst heq
          exact .inl ⟨hend, hfolder, hshows.1.symm⟩

/-- Where a search for a text begins. -/
def rootOf (text : String) : String :=
  if Path.isAbsolute text then "/" else "."

/-- A text that is searched for, without the slash it may begin with. -/
def bodyOf (text : String) : String :=
  if Path.isAbsolute text then String.ofList text.toList.tail else text

/-- What a text selects as a pattern: a path that its components lead to one after the other, and a
folder if it ends with a slash. -/
def Selects (d : Disk) (text path : String) : Prop :=
  ∃ patterns, (patternComponents (bodyOf text)).mapM Pattern.parse = .ok patterns ∧
    ∃ w, d.Leads (d.visit (rootOf text)) patterns w ∧
      Shows (text.toList.getLast? == some '/') path w

theorem glob_eq (d : Disk) (text : String) : d.glob text = (do
    discard (Pattern.parse text)
    let patterns ← (patternComponents (bodyOf text)).mapM Pattern.parse
    return (d.expand patterns (d.visit (rootOf text))).flatMap
      (d.results (text.toList.getLast? == some '/')
        ((d.items.length + 2) * (patterns.length + 2)))) := by
  rw [glob, bodyOf, rootOf, Path.isAbsolute]
  split
  case h_1 root body heq =>
    split at heq
    case h_1 rest hchars =>
      obtain ⟨rfl, rfl⟩ := Prod.mk.inj heq
      rw [hchars]
      rfl
    case h_2 hroot =>
      obtain ⟨rfl, rfl⟩ := Prod.mk.inj heq
      have hhead : (text.toList.head? == some '/') = false := by
        rw [beq_eq_false_iff_ne]
        intro hslash
        obtain ⟨rest, hrest⟩ := List.head?_eq_some_iff.mp hslash
        exact hroot rest hrest
      rw [hhead]
      rfl

/-- A search for a pattern finds what the pattern selects. -/
theorem mem_glob_iff (hsound : d.Sound) {found : List String} (h : d.glob text = .ok found) :
    path ∈ found ↔ d.Selects text path := by
  rw [glob_eq] at h
  obtain ⟨_, -, h⟩ := bind_eq_ok_iff.mp h
  obtain ⟨patterns, hpatterns, h⟩ := bind_eq_ok_iff.mp h
  rw [← pure_eq_ok_iff.mp h, List.mem_flatMap, exists_mem_results_iff fun pending hmem ↦
    mem_results_iff hsound ((need_le_of_mem_expand hsound hmem).trans ?_)]
  · constructor
    · exact fun hleads ↦ ⟨patterns, hpatterns, hleads⟩
    · rintro ⟨patterns', hpatterns', hleads⟩
      obtain rfl := Except.ok.inj (hpatterns.symm.trans hpatterns')
      exact hleads
  · rw [Nat.mul_add (d.items.length + 2), Nat.mul_comm patterns.length]
    omega

end Disk

end ClassMap
