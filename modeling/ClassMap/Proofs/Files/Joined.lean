import ClassMap.Proofs.Files.Places
import ClassMap.Proofs.Text.Entries

/-!
Paths that are joined from names. A name put behind a path is its last segment and its last
component, whether or not the path ends in a slash, and it leads one step further from where the path
leads.
-/

set_option autoImplicit false
set_option relaxedAutoImplicit false

namespace ClassMap

namespace Text

variable {separator : Char} {cs : List Char}

theorem pieces_of_notMem (h : separator ∉ cs) : pieces separator cs = [cs] := by
  induction cs with
  | nil => rfl
  | cons c rest ih =>
    obtain ⟨hc, hrest⟩ := not_or.mp (List.mem_cons.not.mp h)
    rw [pieces, if_neg (by simpa using Ne.symm hc), ih hrest]

theorem pieces_ne_nil (separator : Char) (cs : List Char) : pieces separator cs ≠ [] := by
  intro hnil
  have hlength := length_pieces separator cs
  simp [hnil] at hlength

theorem pieces_append (cs ds : List Char) :
    pieces separator (cs ++ separator :: ds) = pieces separator cs ++ pieces separator ds := by
  induction cs with
  | nil => simp [pieces]
  | cons c rest ih =>
    rw [List.cons_append, pieces, pieces, ih]
    split
    · rfl
    · obtain ⟨piece, others, hpieces⟩ := List.exists_cons_of_ne_nil (pieces_ne_nil separator rest)
      rw [hpieces]
      rfl

theorem intercalate_append {css dss : List (List Char)} (hcss : css ≠ []) (hdss : dss ≠ []) :
    [separator].intercalate (css ++ dss) =
      [separator].intercalate css ++ separator :: [separator].intercalate dss := by
  induction css with
  | nil => exact absurd rfl hcss
  | cons cs rest ih =>
    cases rest with
    | nil =>
      obtain ⟨ds, others, rfl⟩ := List.exists_cons_of_ne_nil hdss
      simp [List.intercalate_cons_cons]
    | cons cs' others =>
      rw [List.cons_append, List.cons_append, List.intercalate_cons_cons,
        List.intercalate_cons_cons, List.append_assoc, List.append_assoc]
      have hrest := ih (by simp)
      rw [List.cons_append] at hrest
      rw [hrest]
      simp

end Text

namespace Path

variable {base name path : String}

/-- A segment that can be the name of something in a folder. -/
def isEntryName (name : String) : Bool :=
  Disk.isName name && !name.toList.contains '/'

theorem slash_notMem (h : isEntryName name = true) : '/' ∉ name.toList := by
  simpa using (Bool.and_eq_true_iff.mp h).2

theorem isName_of_isEntryName (h : isEntryName name = true) : Disk.isName name = true :=
  (Bool.and_eq_true_iff.mp h).1

theorem not_isAbsolute (h : '/' ∉ name.toList) : isAbsolute name = false := by
  rw [isAbsolute, beq_eq_false_iff_ne]
  exact fun hhead ↦ h (List.mem_of_head? hhead)

/-- What a path looks like, and what it does when something is put behind it. -/
theorem exists_stem (hbase : base ≠ "") : ∃ first,
    (base.toList = first ∨ base.toList = first ++ ['/']) ∧
      ∀ part, isAbsolute part = false → (join base part).toList = first ++ '/' :: part.toList := by
  have hempty : base.isEmpty = false := by simpa using hbase
  by_cases hslash : base.toList.getLast? = some '/'
  · obtain ⟨first, hfirst⟩ := List.getLast?_eq_some_iff.mp hslash
    refine ⟨first, Or.inr hfirst, fun part hpart ↦ ?_⟩
    rw [join, hpart, hempty, if_neg (by simp), if_pos (by simpa using hslash),
      String.toList_append, hfirst]
    simp
  · refine ⟨base.toList, Or.inl rfl, fun part hpart ↦ ?_⟩
    rw [join, hpart, hempty, if_neg (by simp), if_neg (by simpa using hslash)]
    simp

/-- What a path joined with a name looks like, and the path itself. -/
theorem exists_toList_join (hbase : base ≠ "") (hname : '/' ∉ name.toList) :
    ∃ first, (base.toList = first ∨ base.toList = first ++ ['/']) ∧
      (join base name).toList = first ++ '/' :: name.toList := by
  obtain ⟨first, hfirst, hjoin⟩ := exists_stem hbase
  exact ⟨first, hfirst, hjoin name (not_isAbsolute hname)⟩

theorem segments_eq_of_toList {first last : List Char} (h : path.toList = first ++ '/' :: last) :
    segments path = (Text.pieces '/' first).map String.ofList ++
      (Text.pieces '/' last).map String.ofList := by
  rw [segments, h, Text.pieces_append, List.map_append]

/-- A name put behind a path is one more segment; an empty one at the end of the path goes. -/
theorem segments_join (hbase : base ≠ "") (hname : '/' ∉ name.toList) :
    ∃ first, (segments base = first ∨ segments base = first ++ [""]) ∧
      segments (join base name) = first ++ [name] := by
  obtain ⟨first, hfirst, hjoin⟩ := exists_toList_join hbase hname
  refine ⟨(Text.pieces '/' first).map String.ofList, ?_, ?_⟩
  · rcases hfirst with hfirst | hfirst
    · exact Or.inl (by rw [segments, hfirst])
    · exact Or.inr (segments_eq_of_toList hfirst)
  · rw [segments_eq_of_toList hjoin, Text.pieces_of_notMem hname, List.map_singleton,
      String.ofList_toList]

theorem lead_join (hbase : base ≠ "") (hname : '/' ∉ name.toList) :
    lead (join base name) = lead base := by
  obtain ⟨first, hfirst, hjoin⟩ := exists_toList_join hbase hname
  rw [lead, lead, hjoin]
  rcases first with _ | ⟨c, _ | ⟨c', rest⟩⟩
  · rcases hfirst with hfirst | hfirst
    · exact absurd (String.toList_eq_nil_iff.mp hfirst) hbase
    · rw [hfirst]
      rfl
  · by_cases hroot : c = '/'
    · rcases hfirst with hfirst | hfirst <;> rw [hfirst, hroot] <;> rfl
    · by_cases hhere : c = '.'
      · rcases hfirst with hfirst | hfirst <;> rw [hfirst, hhere] <;> rfl
      · rcases hfirst with hfirst | hfirst <;> rw [hfirst] <;> simp [hroot, hhere]
  · rcases hfirst with hfirst | hfirst <;> rw [hfirst] <;> simp only [List.cons_append] <;>
      split <;> simp_all

theorem ofSegment?_of_isEntryName (hname : isEntryName name = true) :
    ofSegment? name = some (.name name) := by
  have hisName := isName_of_isEntryName hname
  simp only [Disk.isName, bne_iff_ne, Bool.and_eq_true, ne_eq] at hisName
  simp [ofSegment?, hisName]

theorem lead_of_isEntryName (hname : isEntryName name = true) : lead name = none := by
  have hslash := slash_notMem hname
  have hisName := isName_of_isEntryName hname
  simp only [Disk.isName, bne_iff_ne, Bool.and_eq_true, ne_eq] at hisName
  rw [lead]
  split
  case h_1 heq => exact absurd (heq ▸ List.mem_cons_self) hslash
  case h_2 heq => exact absurd (String.toList_inj.mp (heq.trans (by decide))) hisName.1.2
  case h_3 heq => exact absurd (heq ▸ List.mem_cons_of_mem _ List.mem_cons_self) hslash
  case h_4 => rfl

theorem segments_of_isEntryName (hname : isEntryName name = true) : segments name = [name] := by
  rw [segments, Text.pieces_of_notMem (slash_notMem hname), List.map_singleton,
    String.ofList_toList]

theorem join_empty (name : String) : join "" name = name := by
  rw [join, if_pos (by simp)]

/-- A name put behind a path, be it the empty one, is one more component. -/
theorem components_join (base : String) (hname : isEntryName name = true) :
    components (join base name) = components base ++ [.name name] := by
  by_cases hbase : base = ""
  · rw [hbase, join_empty, components, lead_of_isEntryName hname,
      segments_of_isEntryName hname, List.filterMap_cons_some (ofSegment?_of_isEntryName hname)]
    rfl
  · have hslash := slash_notMem hname
    obtain ⟨first, hfirst, hjoin⟩ := segments_join hbase hslash
    have hsegments : (segments base).filterMap ofSegment? = first.filterMap ofSegment? := by
      rcases hfirst with hfirst | hfirst
      · rw [hfirst]
      · rw [hfirst, List.filterMap_append]
        exact List.append_nil _
    rw [components, components, lead_join hbase hslash, hjoin, hsegments, List.filterMap_append,
      List.append_assoc, List.filterMap_cons, ofSegment?_of_isEntryName hname, List.filterMap_nil]

theorem fileName?_join (base : String) (hname : isEntryName name = true) :
    fileName? (join base name) = some name := by
  rw [fileName?, components_join base hname, List.getLast?_concat]

theorem isAbsolute_join (hbase : base ≠ "") (hname : '/' ∉ name.toList) :
    isAbsolute (join base name) = isAbsolute base := by
  obtain ⟨first, hfirst, hjoin⟩ := exists_toList_join hbase hname
  rw [isAbsolute, isAbsolute, hjoin]
  cases first with
  | nil =>
    rcases hfirst with hfirst | hfirst
    · exact absurd (String.toList_eq_nil_iff.mp hfirst) hbase
    · rw [hfirst]; rfl
  | cons c rest => rcases hfirst with hfirst | hfirst <;> rw [hfirst] <;> rfl

theorem join_ne_empty (hbase : base ≠ "") (hname : '/' ∉ name.toList) : join base name ≠ "" := by
  obtain ⟨first, -, hjoin⟩ := exists_toList_join hbase hname
  intro hempty
  rw [hempty] at hjoin
  simp at hjoin

/-- What a path begins with is no longer than the path. -/
theorem isUsable_of_append {more : String} (hbase : base ≠ "")
    (h : isUsable (base ++ more) = true) : isUsable base = true := by
  simp only [isUsable, String.utf8ByteSize_append, String.toList_append, Bool.and_eq_true,
    decide_eq_true_eq] at h
  obtain ⟨⟨-, hbytes⟩, hplain⟩ := h
  have hends : base.toList.contains (Char.ofNat 0) = false := by
    rw [Bool.not_eq_true', List.contains_eq_mem, decide_eq_false_iff_not, List.mem_append] at hplain
    simpa using fun hmem ↦ hplain (Or.inl hmem)
  have hempty : base.isEmpty = false := by simpa using hbase
  simp only [isUsable, hempty, hends, Bool.not_false, Bool.and_true, Bool.true_and,
    decide_eq_true_eq]
  omega

theorem isUsable_of_join (hbase : base ≠ "") (hname : '/' ∉ name.toList)
    (h : isUsable (join base name) = true) : isUsable base = true := by
  have hempty : base.isEmpty = false := by simpa using hbase
  rw [join, not_isAbsolute hname, hempty, if_neg (by simp)] at h
  split at h
  · exact isUsable_of_append hbase h
  · exact isUsable_of_append hbase (String.append_assoc ▸ h)

theorem components_foldl_join {names : List String} (hbase : base ≠ "")
    (hnames : ∀ n ∈ names, isEntryName n = true) :
    components (names.foldl join base) = components base ++ names.map .name := by
  induction names generalizing base with
  | nil => simp
  | cons n rest ih =>
    obtain ⟨hn, hrest⟩ := List.forall_mem_cons.mp hnames
    rw [List.foldl_cons, ih (join_ne_empty hbase (slash_notMem hn)) hrest, components_join base hn,
      List.append_assoc]
    rfl

/-- Paths that are the same have been joined from the same names. -/
theorem eq_of_same_foldl_join {names names' : List String} (hbase : base ≠ "")
    (hnames : ∀ n ∈ names, isEntryName n = true) (hnames' : ∀ n ∈ names', isEntryName n = true)
    (hsame : same (names.foldl join base) (names'.foldl join base) = true) : names = names' := by
  rw [same, beq_iff_eq, components_foldl_join hbase hnames, components_foldl_join hbase hnames']
    at hsame
  refine List.map_injective_iff.mpr (fun a b hab ↦ ?_) (List.append_cancel_left hsame)
  exact Component.name.inj hab

theorem isUsable_of_foldl_join {names : List String} (hbase : base ≠ "")
    (hnames : ∀ n ∈ names, isEntryName n = true)
    (h : isUsable (names.foldl join base) = true) : isUsable base = true := by
  induction names generalizing base with
  | nil => exact h
  | cons n rest ih =>
    obtain ⟨hn, hrest⟩ := List.forall_mem_cons.mp hnames
    have hslash := slash_notMem hn
    exact isUsable_of_join hbase hslash (ih (join_ne_empty hbase hslash) hrest h)

theorem slash_notMem_of_mem_segments {segment : String} (h : segment ∈ segments path) :
    '/' ∉ segment.toList := by
  obtain ⟨piece, hpiece, rfl⟩ := List.mem_map.mp h
  rw [String.toList_ofList]
  exact Text.notMem_of_mem_pieces hpiece

theorem lead_ne_name (path name : String) : lead path ≠ some (.name name) := by
  rw [lead]
  split <;> simp

theorem eq_of_ofSegment? {segment : String} (h : ofSegment? segment = some (.name name)) :
    segment = name := by
  rw [ofSegment?] at h
  split at h
  case isTrue => exact absurd h (by simp)
  case isFalse =>
    split at h
    case isTrue => exact absurd h (by simp)
    case isFalse => exact Component.name.inj (Option.some.inj h)

theorem fileName?_eq_some_iff :
    fileName? path = some name ↔ (components path).getLast? = some (.name name) := by
  rw [fileName?]
  split
  case h_1 text hlast => rw [hlast, Option.some.injEq, Option.some.injEq, Component.name.injEq]
  case h_2 hother => exact iff_of_false (by simp) (hother name)

/-- The last name of a path is one of its segments. -/
theorem ofSegment?_of_fileName? (h : fileName? path = some name) :
    name ∈ segments path ∧ ofSegment? name = some (.name name) := by
  have hmem := List.mem_of_getLast? (fileName?_eq_some_iff.mp h)
  rw [components, List.mem_append] at hmem
  rcases hmem with hlead | hsegment
  · exact absurd (Option.mem_toList.mp hlead) (lead_ne_name path name)
  · obtain ⟨segment, hin, hcomponent⟩ := List.mem_filterMap.mp hsegment
    obtain rfl := eq_of_ofSegment? hcomponent
    exact ⟨hin, hcomponent⟩

theorem slash_notMem_of_fileName? (h : fileName? path = some name) : '/' ∉ name.toList :=
  slash_notMem_of_mem_segments (ofSegment?_of_fileName? h).1

theorem isName_of_fileName? (h : fileName? path = some name) : Disk.isName name = true := by
  have hcomponent := (ofSegment?_of_fileName? h).2
  rw [ofSegment?] at hcomponent
  split at hcomponent
  case isTrue => exact absurd hcomponent (by simp)
  case isFalse hhere =>
    split at hcomponent
    case isTrue => exact absurd hcomponent (by simp)
    case isFalse hup =>
      simp only [Bool.or_eq_true, beq_iff_eq, not_or] at hhere hup
      simp [Disk.isName, hhere, hup]

theorem getLast?_segments_join (base : String) (hname : '/' ∉ name.toList) :
    (segments (join base name)).getLast? = some name := by
  by_cases hbase : base = ""
  · rw [hbase, join, if_pos (by simp), segments, Text.pieces_of_notMem hname]
    simp
  · obtain ⟨first, -, hjoin⟩ := segments_join hbase hname
    rw [hjoin, List.getLast?_concat]

end Path

namespace Disk

variable {d : Disk} {base name : String}

theorem step?_empty_bind (d : Disk) (place : Location) (segment : String) :
    (d.step? place "").bind (d.step? · segment) = d.step? place segment := by
  by_cases hfolder : d.isFolder place = true
  · simp [step?, hfolder]
  · simp [step?, hfolder]

/-- A name put behind a path leads one step further. -/
theorem locate?_join (hbase : base ≠ "") (hname : '/' ∉ name.toList)
    (husable : Path.isUsable (Path.join base name) = true) :
    d.locate? (Path.join base name) = (d.locate? base).bind (d.step? · name) := by
  obtain ⟨first, hfirst, hjoin⟩ := Path.segments_join hbase hname
  have hstart : d.start (Path.join base name) = d.start base := by
    rw [start, start, Path.isAbsolute_join hbase hname]
  have hstep : d.follow? (d.start base) (first ++ [name]) =
      (d.follow? (d.start base) first).bind (d.step? · name) := by
    simp [follow?, List.foldlM_append]
  rw [locate?, locate?, if_pos husable, if_pos (Path.isUsable_of_join hbase hname husable), hjoin,
    hstart, hstep]
  rcases hfirst with hfirst | hfirst
  · rw [hfirst]
  · have hlast : d.follow? (d.start base) (first ++ [""]) =
        (d.follow? (d.start base) first).bind (d.step? · "") := by
      simp [follow?, List.foldlM_append]
    rw [hfirst, hlast, Option.bind_assoc]
    simp only [step?_empty_bind]

/-- A name put behind a path that leads to a folder gives a place in that folder, whether anything
is there or not, and a name put behind another path gives none. -/
theorem placeOf?_join_eq_some_iff (hbase : base ≠ "") (hname : Path.isEntryName name = true)
    {place : Location} : d.placeOf? (Path.join base name) = some place ↔
      Path.isUsable (Path.join base name) = true ∧ ∃ folder, d.locate? base = some folder ∧
        d.isFolder folder = true ∧ place = folder.push name := by
  have hslash := Path.slash_notMem hname
  obtain ⟨first, hfirst, hjoin⟩ := Path.segments_join hbase hslash
  have hstart : d.start (Path.join base name) = d.start base := by
    rw [start, start, Path.isAbsolute_join hbase hslash]
  have hfollow : ∀ folder, d.isFolder folder = true →
      (d.follow? (d.start base) first = some folder ↔
        d.follow? (d.start base) (Path.segments base) = some folder) := by
    intro folder hfolder
    rcases hfirst with hfirst | hfirst
    · rw [hfirst]
    · rw [hfirst, follow?, follow?, List.foldlM_append]
      refine ⟨fun h ↦ ?_, fun h ↦ ?_⟩
      · exact Option.bind_eq_some_iff.mpr ⟨folder, h, by simp [step?, hfolder]⟩
      · obtain ⟨last, hlast, hstep⟩ := Option.bind_eq_some_iff.mp h
        obtain ⟨next, hnext, hend⟩ := Option.bind_eq_some_iff.mp hstep
        have hstay : last = next := (step?_eq_some_iff.mp hnext).2.1
        rw [hlast, hstay, Option.some.inj hend]
  rw [placeOf?, Option.map_eq_some_iff]
  constructor
  · rintro ⟨⟨folder, segment⟩, hparent, rfl⟩
    obtain ⟨husable, hbefore, hfolder, hlast⟩ := parentOf?_eq_some_iff.mp hparent
    rw [hjoin, List.dropLast_concat, hstart] at hbefore
    rw [hjoin, List.getLast?_concat, Option.getD_some] at hlast
    refine ⟨husable, folder, ?_, hfolder, ?_⟩
    · rw [locate?, if_pos (Path.isUsable_of_join hbase hslash husable)]
      exact (hfollow folder hfolder).mp hbefore
    · rw [← hlast]
      exact stepPlace_of_isName folder (Path.isName_of_isEntryName hname)
  · rintro ⟨husable, folder, hlocate, hfolder, rfl⟩
    rw [locate?, if_pos (Path.isUsable_of_join hbase hslash husable)] at hlocate
    refine ⟨(folder, name), parentOf?_eq_some_iff.mpr ⟨husable, ?_, hfolder, ?_⟩,
      stepPlace_of_isName folder (Path.isName_of_isEntryName hname)⟩
    · rw [hjoin, List.dropLast_concat, hstart]
      exact (hfollow folder hfolder).mpr hlocate
    · rw [hjoin, List.getLast?_concat, Option.getD_some]

theorem locate?_foldl_join {names : List String} (hbase : base ≠ "")
    (hnames : ∀ n ∈ names, Path.isEntryName n = true)
    (husable : Path.isUsable (names.foldl Path.join base) = true) :
    d.locate? (names.foldl Path.join base) = (d.locate? base).bind (d.follow? · names) := by
  induction names generalizing base with
  | nil => simp [follow?]
  | cons n rest ih =>
    obtain ⟨hn, hrest⟩ := List.forall_mem_cons.mp hnames
    have hslash := Path.slash_notMem hn
    have hnext := Path.join_ne_empty hbase hslash
    rw [List.foldl_cons, ih hnext hrest husable,
      locate?_join hbase hslash (Path.isUsable_of_foldl_join hnext hrest husable),
      Option.bind_assoc]
    rfl

end Disk

end ClassMap
