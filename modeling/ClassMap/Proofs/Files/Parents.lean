import ClassMap.Proofs.Files.Joined

/-!
The path without its last component. Written out, a path goes on with a slash where its parent ends,
but for the empty path and the root (`parent?_cases`); component by component it has one more than
its parent (`components_of_parent?`). Where a path leads is a matter of its components alone, as far
as it can lead anywhere (`along?_of_locate?`, `locate?_of_along?`), so it leads one component further
than its parent.
-/

set_option autoImplicit false
set_option relaxedAutoImplicit false

namespace ClassMap

namespace Path

variable {path folder last : String} {others reversed : List String} {body more : List Char}

/-- The components between the slashes of a text. -/
def counted (body : List Char) : List Component :=
  ((Text.pieces '/' body).map String.ofList).filterMap ofSegment?

theorem components_eq (path : String) :
    components path = (lead path).toList ++ counted path.toList := rfl

theorem counted_append (first last : List Char) :
    counted (first ++ '/' :: last) = counted first ++ counted last := by
  rw [counted, Text.pieces_append, List.map_append, List.filterMap_append]
  rfl

/-! ### Segments that do not count -/

theorem exists_trimReversed (reversed : List String) :
    ∃ dropped, reversed = dropped ++ trimReversed reversed ∧
      ∀ segment ∈ dropped, ofSegment? segment = none := by
  refine ⟨_, List.takeWhile_append_dropWhile.symm, fun segment hsegment ↦ ?_⟩
  have hnone := List.mem_takeWhile_imp hsegment
  exact Option.isNone_iff_eq_none.mp hnone

theorem exists_component_of_trimReversed (h : trimReversed reversed = last :: others) :
    ∃ c, ofSegment? last = some c := by
  have hfirst := List.head?_dropWhile_not (fun segment ↦ (ofSegment? segment).isNone) reversed
  rw [trimReversed] at h
  rw [h] at hfirst
  exact Option.isSome_iff_exists.mp (by simpa using hfirst)

theorem counted_of_trimReversed_eq_nil
    (h : trimReversed ((Text.pieces '/' body).map String.ofList).reverse = []) :
    counted body = [] := by
  refine List.filterMap_eq_nil_iff.mpr fun segment hsegment ↦ ?_
  exact Option.isNone_iff_eq_none.mp
    (List.dropWhile_eq_nil_iff.mp h segment (List.mem_reverse.mpr hsegment))

/-- What is left of a text goes on with a slash where its trimmed beginning ends, and one component
is left. -/
theorem exists_of_trimReversed
    (h : trimReversed ((Text.pieces '/' body).map String.ofList).reverse = last :: others) :
    ∃ c, (trimReversed others = [] ∧ counted body = [c]) ∨
      ∃ more, body = ("/".intercalate (trimReversed others).reverse).toList ++ '/' :: more ∧
        counted more = [c] := by
  obtain ⟨dropped, hdropped, hafter⟩ :=
    exists_trimReversed ((Text.pieces '/' body).map String.ofList).reverse
  obtain ⟨trimmed, htrimmed, hbetween⟩ := exists_trimReversed others
  obtain ⟨c, hc⟩ := exists_component_of_trimReversed h
  have hall : (Text.pieces '/' body).map String.ofList =
      (trimReversed others).reverse ++ (dropped ++ last :: trimmed).reverse := by
    rw [← List.reverse_append, List.append_assoc, List.cons_append, ← htrimmed, ← h, ← hdropped,
      List.reverse_reverse]
  have hcount : (dropped ++ last :: trimmed).reverse.filterMap ofSegment? = [c] := by
    rw [List.filterMap_reverse, List.filterMap_append, List.filterMap_cons, hc,
      List.filterMap_eq_nil_iff.mpr hafter, List.filterMap_eq_nil_iff.mpr hbetween]
    rfl
  refine ⟨c, ?_⟩
  by_cases hnil : trimReversed others = []
  · rw [hnil] at hall
    exact Or.inl ⟨hnil, (congrArg (List.filterMap ofSegment?) hall).trans hcount⟩
  have hpieces : Text.pieces '/' body = (trimReversed others).reverse.map String.toList ++
      (dropped ++ last :: trimmed).reverse.map String.toList := by
    have hback := congrArg (List.map String.toList) hall
    have hid : String.toList ∘ String.ofList = id := funext fun _ ↦ String.toList_ofList
    rwa [List.map_append, List.map_map, hid, List.map_id] at hback
  have hslash : ∀ piece ∈ (dropped ++ last :: trimmed).reverse.map String.toList, '/' ∉ piece :=
    fun piece hpiece ↦ Text.notMem_of_mem_pieces (hpieces ▸ List.mem_append_right _ hpiece)
  refine Or.inr ⟨['/'].intercalate ((dropped ++ last :: trimmed).reverse.map String.toList), ?_, ?_⟩
  · have hbody : body = ['/'].intercalate (Text.pieces '/' body) := by
      rw [Text.pieces_eq_splitOn, List.intercalate_splitOn]
    rw [hbody, hpieces, String.toList_intercalate]
    exact Text.intercalate_append (by simpa using hnil) (by simp)
  · have hid : String.ofList ∘ String.toList = id := funext fun _ ↦ String.ofList_toList
    rw [counted, Text.pieces_eq_splitOn, List.splitOn_intercalate '/' hslash (by simp),
      List.map_map, hid, List.map_id, hcount]

/-! ### The path without its last component -/

/-- A path is what it starts with besides its segments and the rest. -/
theorem exists_lead (path : String) : ∃ start body, path.toList = start.toList ++ body ∧
    ((start = "" ∧ lead path = none) ∨ (start = "/" ∧ lead path = some .root) ∨
      (start = "." ∧ lead path = some .here ∧ (body = [] ∨ ∃ more, body = '/' :: more))) ∧
    parent? path =
      match trimReversed ((Text.pieces '/' body).map String.ofList).reverse with
      | _ :: others => some (start ++ "/".intercalate (trimReversed others).reverse)
      | [] => if start == "." then some "" else none := by
  rw [parent?]
  cases hpath : path.toList with
  | nil =>
    have hlead : lead path = none := by rw [lead, hpath]
    exact ⟨"", [], by simp, Or.inl ⟨rfl, hlead⟩, rfl⟩
  | cons c rest =>
    cases hlead : lead path with
    | none => exact ⟨"", c :: rest, by simp, Or.inl ⟨rfl, rfl⟩, rfl⟩
    | some component =>
      rw [lead, hpath] at hlead
      split at hlead
      case h_1 heq =>
        obtain ⟨rfl, rfl⟩ := List.cons.inj heq
        obtain rfl := Option.some.inj hlead
        exact ⟨"/", rest, rfl, Or.inr (Or.inl ⟨rfl, rfl⟩), rfl⟩
      case h_2 heq =>
        obtain ⟨rfl, rfl⟩ := List.cons.inj heq
        obtain rfl := Option.some.inj hlead
        exact ⟨".", [], rfl, Or.inr (Or.inr ⟨rfl, rfl, Or.inl rfl⟩), rfl⟩
      case h_3 more heq =>
        obtain ⟨rfl, rfl⟩ := List.cons.inj heq
        obtain rfl := Option.some.inj hlead
        exact ⟨".", '/' :: more, rfl, Or.inr (Or.inr ⟨rfl, rfl, Or.inr ⟨more, rfl⟩⟩), rfl⟩
      case h_4 => exact absurd hlead (by simp)

/-- What a path starts with does not count, nor does a slash after it. -/
theorem counted_lead {start : String} (hpath : path.toList = start.toList ++ body)
    (hstart : start = "" ∨ start = "/" ∨ (start = "." ∧ (body = [] ∨ ∃ more, body = '/' :: more))) :
    counted path.toList = counted body := by
  rw [hpath]
  rcases hstart with rfl | rfl | ⟨rfl, rfl | ⟨more, rfl⟩⟩
  · rfl
  · exact counted_append [] body
  · decide
  · exact (counted_append ['.'] more).trans (counted_append [] more).symm

theorem lead_of_append (hfolder : folder ≠ "") (h : path.toList = folder.toList ++ '/' :: more) :
    lead path = lead folder := by
  rw [lead, lead, h]
  rcases hchars : folder.toList with _ | ⟨c, _ | ⟨c', rest⟩⟩
  · exact absurd (String.toList_eq_nil_iff.mp hchars) hfolder
  · by_cases hroot : c = '/'
    · rw [hroot]; rfl
    · by_cases hhere : c = '.'
      · rw [hhere]; rfl
      · simp [hroot, hhere]
  · simp only [List.cons_append]
    split <;> simp_all

/-- A path goes on with a slash and one component where its parent ends, but for the empty one and
the root. -/
theorem parent?_cases (h : parent? path = some folder) : ∃ c,
    (folder = "" ∧ components path = [c]) ∨ (folder = "/" ∧ components path = [.root, c]) ∨
      (folder ≠ "" ∧ ∃ more, path.toList = folder.toList ++ '/' :: more ∧ counted more = [c]) := by
  obtain ⟨start, body, hpath, hstart, hparent⟩ := exists_lead path
  have hcounted : counted path.toList = counted body :=
    counted_lead hpath (hstart.imp And.left (.imp And.left fun h ↦ ⟨h.1, h.2.2⟩))
  rw [hparent] at h
  split at h
  case h_1 last others htrim =>
    obtain rfl := Option.some.inj h
    obtain ⟨c, ⟨hnil, hcount⟩ | ⟨more, hmore, hcount⟩⟩ := exists_of_trimReversed htrim
    · refine ⟨c, ?_⟩
      rw [hnil, List.reverse_nil, String.intercalate_nil, String.append_empty, components_eq,
        hcounted, hcount]
      rcases hstart with ⟨rfl, hlead⟩ | ⟨rfl, hlead⟩ | ⟨rfl, hlead, rfl | ⟨more, rfl⟩⟩
      · rw [hlead]
        exact Or.inl ⟨rfl, rfl⟩
      · rw [hlead]
        exact Or.inr (Or.inl ⟨rfl, rfl⟩)
      · have hempty : counted [] = [] := by decide
        exact absurd (hempty.symm.trans hcount) (by simp)
      · have hmore := counted_append [] more
        exact Or.inr (Or.inr ⟨by decide, more, hpath, hmore.symm.trans hcount⟩)
    · have hwhole : path.toList =
          (start ++ "/".intercalate (trimReversed others).reverse).toList ++ '/' :: more := by
        rw [hpath, hmore, String.toList_append, List.append_assoc]
      refine ⟨c, Or.inr (Or.inr ⟨fun hempty ↦ ?_, more, hwhole, hcount⟩)⟩
      rw [hempty] at hwhole
      have hroot : lead path = some .root := by rw [lead, hwhole]; rfl
      rcases hstart with ⟨rfl, hlead⟩ | ⟨rfl, -⟩ | ⟨rfl, -⟩
      · exact absurd (hlead.symm.trans hroot) (by simp)
      · exact absurd (String.append_eq_empty_iff.mp hempty).1 (by decide)
      · exact absurd (String.append_eq_empty_iff.mp hempty).1 (by decide)
  case h_2 htrim =>
    split at h
    case isTrue hdot =>
      refine ⟨.here, Or.inl ⟨(Option.some.inj h).symm, ?_⟩⟩
      rw [components_eq, hcounted, counted_of_trimReversed_eq_nil htrim]
      rcases hstart with ⟨rfl, -⟩ | ⟨rfl, -⟩ | ⟨-, hlead, -⟩
      · exact absurd hdot (by decide)
      · exact absurd hdot (by decide)
      · rw [hlead]
        rfl
    case isFalse => exact absurd h (by simp)

/-- A path has one component more than its parent. -/
theorem components_of_parent? (h : parent? path = some folder) :
    ∃ c, components path = components folder ++ [c] := by
  obtain ⟨c, ⟨rfl, hc⟩ | ⟨rfl, hc⟩ | ⟨hfolder, more, hmore, hc⟩⟩ := parent?_cases h
  · exact ⟨c, hc⟩
  · exact ⟨c, hc⟩
  · refine ⟨c, ?_⟩
    rw [components_eq, components_eq, lead_of_append hfolder hmore, hmore, counted_append, hc,
      List.append_assoc]

/-- A path without a parent has no segment that counts. -/
theorem counted_of_parent?_eq_none (h : parent? path = none) : counted path.toList = [] := by
  obtain ⟨start, body, hpath, hstart, hparent⟩ := exists_lead path
  rw [hparent] at h
  split at h
  case h_1 => exact absurd h (by simp)
  case h_2 htrim =>
    rw [counted_lead hpath (hstart.imp And.left (.imp And.left fun h ↦ ⟨h.1, h.2.2⟩))]
    exact counted_of_trimReversed_eq_nil htrim

end Path

namespace Disk

variable {d : Disk} {path folder : String} {place last next : Location} {segments : List String}
  {component : Path.Component}

/-! ### Component by component -/

/-- Where a component leads from a place. -/
def enter? (d : Disk) (place : Location) : Path.Component → Option Location
  | .root => some #[]
  | .here => some place
  | .up => d.step? place ".."
  | .name text => d.step? place text

/-- Where components lead, one after the other. -/
def along? (d : Disk) (components : List Path.Component) : Option Location :=
  components.foldlM d.enter? d.current

theorem enter?_of_ofSegment? {segment : String} (h : Path.ofSegment? segment = some component)
    (place : Location) : d.enter? place component = d.step? place segment := by
  rw [Path.ofSegment?] at h
  split at h
  case isTrue => exact absurd h (by simp)
  case isFalse =>
    split at h
    case isTrue hup =>
      obtain rfl := Option.some.inj h
      rw [eq_of_beq hup]
      rfl
    case isFalse =>
      obtain rfl := Option.some.inj h
      rfl

/-- A segment that does not count stays in the folder that it starts from. -/
theorem step?_of_ofSegment?_eq_none {segment : String} (h : Path.ofSegment? segment = none)
    (place : Location) : d.step? place segment = if d.isFolder place then some place else none := by
  rw [Path.ofSegment?] at h
  split at h
  case isTrue hstay =>
    rw [step?, hstay]
    cases d.isFolder place <;> rfl
  case isFalse => split at h <;> exact absurd h (by simp)

theorem foldlM_enter?_of_follow? (h : d.follow? place segments = some last) :
    (segments.filterMap Path.ofSegment?).foldlM d.enter? place = some last := by
  induction segments generalizing place with
  | nil => exact h
  | cons segment rest ih =>
    obtain ⟨next, hstep, hrest⟩ := Option.bind_eq_some_iff.mp h
    cases hsegment : Path.ofSegment? segment with
    | none =>
      rw [List.filterMap_cons_none hsegment]
      rw [step?_of_ofSegment?_eq_none hsegment] at hstep
      split at hstep
      case isTrue => exact ih ((Option.some.inj hstep).symm ▸ hrest)
      case isFalse => exact absurd hstep (by simp)
    | some component =>
      rw [List.filterMap_cons_some hsegment]
      exact Option.bind_eq_some_iff.mpr
        ⟨next, (enter?_of_ofSegment? hsegment place).trans hstep, ih hrest⟩

/-- Segments that do not count need a folder to stay in, so the way has to end in one. -/
theorem follow?_of_foldlM_enter?
    (h : (segments.filterMap Path.ofSegment?).foldlM d.enter? place = some last)
    (hlast : d.isFolder last = true) : d.follow? place segments = some last := by
  induction segments generalizing place with
  | nil => exact h
  | cons segment rest ih =>
    cases hsegment : Path.ofSegment? segment with
    | none =>
      rw [List.filterMap_cons_none hsegment] at h
      have hrest := ih h
      have hstep := step?_of_ofSegment?_eq_none (d := d) hsegment place
      rw [isFolder_of_follow? hrest hlast, if_pos rfl] at hstep
      exact Option.bind_eq_some_iff.mpr ⟨place, hstep, hrest⟩
    | some component =>
      rw [List.filterMap_cons_some hsegment] at h
      obtain ⟨next, henter, hrest⟩ := Option.bind_eq_some_iff.mp h
      exact Option.bind_eq_some_iff.mpr
        ⟨next, (enter?_of_ofSegment? hsegment place).symm.trans henter, ih hrest⟩

theorem along?_components (d : Disk) (path : String) : d.along? (Path.components path) =
    ((Path.segments path).filterMap Path.ofSegment?).foldlM d.enter? (d.start path) := by
  have hlead : (Path.lead path).toList.foldlM d.enter? d.current = some (d.start path) := by
    rw [start, Path.isAbsolute, Path.lead]
    split
    case h_1 heq => rw [heq]; rfl
    case h_2 heq => rw [heq]; rfl
    case h_3 heq => rw [heq]; rfl
    case h_4 hroot _ _ =>
      have hhead : (path.toList.head? == some '/') = false := by
        rw [beq_eq_false_iff_ne]
        intro hslash
        obtain ⟨rest, hrest⟩ := List.head?_eq_some_iff.mp hslash
        exact hroot rest hrest
      rw [hhead]
      rfl
  rw [along?, Path.components, List.foldlM_append, hlead]
  rfl

/-- A path leads where its components lead. -/
theorem along?_of_locate? (h : d.locate? path = some place) :
    d.along? (Path.components path) = some place := by
  rw [locate?] at h
  split at h
  case isTrue =>
    rw [along?_components]
    exact foldlM_enter?_of_follow? h
  case isFalse => exact absurd h (by simp)

/-- Where the components of a path lead to a folder, the path leads there if it can lead anywhere. -/
theorem locate?_of_along? (h : d.along? (Path.components path) = some place)
    (hfolder : d.isFolder place = true) (husable : Path.isUsable path = true) :
    d.locate? path = some place := by
  rw [along?_components] at h
  rw [locate?, if_pos husable]
  exact follow?_of_foldlM_enter? h hfolder

/-- Two ways to write a path read the same, if both can be followed. -/
theorem contents?_eq_of_components {other : String} {content content' : Bytes}
    (hsame : Path.components path = Path.components other)
    (hpath : d.contents? path = some content) (hother : d.contents? other = some content') :
    content = content' := by
  obtain ⟨last, hlast, hfile⟩ := contents?_eq_some_iff.mp hpath
  obtain ⟨last', hlast', hfile'⟩ := contents?_eq_some_iff.mp hother
  have halong := along?_of_locate? (locate?_of_placeOf? hlast (by rw [hfile]; rfl))
  have halong' := along?_of_locate? (locate?_of_placeOf? hlast' (by rw [hfile']; rfl))
  obtain rfl : last = last' := Option.some.inj (halong.symm.trans (hsame ▸ halong'))
  exact Item.file.inj (Option.some.inj (hfile.symm.trans hfile'))

/-! ### Paths and their parents -/

/-- A path leads one component further than its parent. -/
theorem exists_enter?_of_parent? (hpath : d.locate? path = some place)
    (hparent : Path.parent? path = some folder) :
    ∃ around component, d.along? (Path.components folder) = some around ∧
      d.enter? around component = some place := by
  obtain ⟨c, hc⟩ := Path.components_of_parent? hparent
  have halong := along?_of_locate? hpath
  rw [along?, hc, List.foldlM_append] at halong
  obtain ⟨around, haround, henter⟩ := Option.bind_eq_some_iff.mp halong
  obtain ⟨next, hnext, hend⟩ := Option.bind_eq_some_iff.mp henter
  exact ⟨around, c, haround, Option.some.inj hend ▸ hnext⟩

/-- Where a path leads somewhere, its parent is a folder, if it is given at all. -/
theorem exists_folder_of_parent? (hpath : d.locate? path = some last)
    (hparent : Path.parent? path = some folder) (hfolder : folder ≠ "") :
    ∃ place, d.locate? folder = some place ∧ d.isFolder place = true := by
  obtain ⟨-, ⟨rfl, -⟩ | ⟨rfl, -⟩ | ⟨-, more, hmore, -⟩⟩ := Path.parent?_cases hparent
  · exact absurd rfl hfolder
  · exact ⟨#[], rfl, isFolder_iff.mpr d.get?_root⟩
  · rw [locate?] at hpath
    split at hpath
    case isTrue husable =>
      have hmorePath : path = folder ++ String.ofList ('/' :: more) := by
        rw [← String.toList_inj, hmore, String.toList_append, String.toList_ofList]
      have hstart : d.start path = d.start folder := by
        obtain ⟨c, rest, hc⟩ := List.exists_cons_of_ne_nil
          fun hnil ↦ hfolder (String.toList_eq_nil_iff.mp hnil)
        rw [start, start, Path.isAbsolute, Path.isAbsolute, hmore, hc]
        rfl
      rw [Path.segments_eq_of_toList hmore, hstart, follow?, List.foldlM_append] at hpath
      obtain ⟨place, hplace, hrest⟩ := Option.bind_eq_some_iff.mp hpath
      refine ⟨place, ?_, ?_⟩
      · rw [locate?, if_pos (Path.isUsable_of_append hfolder (hmorePath ▸ husable))]
        exact hplace
      · obtain ⟨piece, others, hpieces⟩ := List.exists_cons_of_ne_nil (Text.pieces_ne_nil '/' more)
        rw [hpieces] at hrest
        obtain ⟨next, hstep, -⟩ := Option.bind_eq_some_iff.mp hrest
        exact (step?_eq_some_iff.mp hstep).1
    case isFalse => exact absurd hpath (by simp)

/-- A path that leads somewhere starts in a folder. -/
theorem isFolder_start (h : d.locate? path = some place) : d.isFolder (d.start path) = true := by
  rw [locate?] at h
  split at h
  case isTrue =>
    obtain ⟨segment, rest, hsegments⟩ := List.exists_cons_of_ne_nil (Path.segments_ne_nil path)
    rw [hsegments] at h
    obtain ⟨next, hstep, -⟩ := Option.bind_eq_some_iff.mp h
    exact (step?_eq_some_iff.mp hstep).1
  case isFalse => exact absurd h (by simp)

/-- What is read is below a folder that its path has for a parent. -/
theorem exists_parent?_of_contents? (h : (d.contents? path).isSome = true) :
    ∃ folder, Path.parent? path = some folder := by
  obtain ⟨content, hcontent⟩ := Option.isSome_iff_exists.mp h
  obtain ⟨place, hplace, hfile⟩ := contents?_eq_some_iff.mp hcontent
  have hlocate := locate?_of_placeOf? hplace (by rw [hfile]; rfl)
  have halong := along?_of_locate? hlocate
  by_contra hnone
  have hparent : Path.parent? path = none :=
    Option.eq_none_iff_forall_ne_some.mpr fun folder hfolder ↦ hnone ⟨folder, hfolder⟩
  have hcounted : (Path.segments path).filterMap Path.ofSegment? = [] :=
    Path.counted_of_parent?_eq_none hparent
  rw [along?_components, hcounted] at halong
  have hfolder := isFolder_iff.mp (isFolder_start hlocate)
  rw [Option.some.inj halong, hfile] at hfolder
  exact absurd hfolder (by simp)

end Disk

end ClassMap
