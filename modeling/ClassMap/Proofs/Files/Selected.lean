import ClassMap.Proofs.Files.Globbing

/-!
What a pattern selects is matched by it as a text. Where components are gone along one after the
other, the path spells a text that they stand for one after the other (`Leads.spells`), since a
component that stands for a name stands for the same characters in a longer text. This needs a
pattern whose text is spelled as the paths are: without empty components, and not from a dot that
the paths go without (`Selects.matchesText`).
-/

set_option autoImplicit false
set_option relaxedAutoImplicit false

namespace ClassMap

open Traversal

/-! ### Paths that go on -/

namespace Path

variable {base name rest : String}

theorem ofSegment?_ne_here (segment : String) : ofSegment? segment ≠ some .here := by
  rw [ofSegment?]
  split
  · simp
  · split <;> simp

/-- A path that goes nowhere from the current folder has a dot, and nothing else that counts. -/
theorem components_eq_here_iff : components base = [.here] ↔
    lead base = some .here ∧ (segments base).filterMap ofSegment? = [] := by
  rw [components]
  cases hlead : lead base with
  | none =>
    refine iff_of_false (fun heq ↦ ?_) (by simp)
    have hmem : Component.here ∈ (segments base).filterMap ofSegment? := by
      rw [← List.nil_append ((segments base).filterMap ofSegment?)]
      exact heq ▸ List.mem_singleton_self _
    obtain ⟨segment, -, hsegment⟩ := List.mem_filterMap.mp hmem
    exact ofSegment?_ne_here segment hsegment
  | some first => simp

/-- A name put behind a path does not start from the current folder anew. -/
theorem components_join_ne_here (hbase : base ≠ "") (hname : '/' ∉ name.toList)
    (hhere : components base ≠ [.here]) : components (join base name) ≠ [.here] := by
  intro heq
  obtain ⟨hlead, hnone⟩ := components_eq_here_iff.mp heq
  rw [lead_join hbase hname] at hlead
  obtain ⟨first, hfirst, hjoin⟩ := segments_join hbase hname
  rw [hjoin, List.filterMap_append, List.append_eq_nil_iff] at hnone
  refine hhere (components_eq_here_iff.mpr ⟨hlead, ?_⟩)
  rcases hfirst with hfirst | hfirst
  · rw [hfirst, hnone.1]
  · rw [hfirst, List.filterMap_append, hnone.1]
    rfl

theorem components_ne_here_of_notMem (hname : '/' ∉ name.toList) (hdot : name ≠ ".") :
    components name ≠ [.here] := by
  intro heq
  obtain ⟨hlead, -⟩ := components_eq_here_iff.mp heq
  rw [lead] at hlead
  split at hlead
  case h_1 => exact absurd hlead (by simp)
  case h_2 hchars => exact hdot (String.toList_inj.mp (hchars.trans (by decide)))
  case h_3 hchars => exact hname (hchars ▸ List.mem_cons_of_mem _ List.mem_cons_self)
  case h_4 => exact absurd hlead (by simp)

theorem join_of_notMem (hname : '/' ∉ name.toList) (hne : name ≠ "")
    (hrest : isAbsolute rest = false) : join name rest = name ++ "/" ++ rest := by
  have hempty : name.isEmpty = false := by simpa using hne
  have hlast : (name.toList.getLast? == some '/') = false := by
    rw [beq_eq_false_iff_ne]
    exact fun h ↦ hname (List.mem_of_getLast? h)
  rw [join, hrest, hempty, hlast]
  rfl

theorem not_isAbsolute_append (hname : '/' ∉ name.toList) (hne : name ≠ "") (rest : String) :
    isAbsolute (name ++ rest) = false := by
  obtain ⟨c, cs, hcs⟩ := List.exists_cons_of_ne_nil (mt String.toList_eq_nil_iff.mp hne)
  rw [hcs] at hname
  rw [isAbsolute, String.toList_append, hcs, List.cons_append, List.head?_cons]
  simpa using Ne.symm (List.ne_of_not_mem_cons hname)

theorem join_join (hbase : base ≠ "") (hname : '/' ∉ name.toList) (hne : name ≠ "")
    (hrest : isAbsolute rest = false) :
    join (join base name) rest = join base (name ++ "/" ++ rest) := by
  obtain ⟨first, -, hjoin⟩ := exists_stem hbase
  obtain ⟨first', hfirst', hjoin'⟩ := exists_stem (join_ne_empty hbase hname)
  have hmore : isAbsolute (name ++ "/" ++ rest) = false :=
    String.append_assoc ▸ not_isAbsolute_append hname hne ("/" ++ rest)
  rw [← String.toList_inj, hjoin' rest hrest, hjoin _ hmore]
  rw [hjoin name (not_isAbsolute hname)] at hfirst'
  rcases hfirst' with hfirst' | hfirst'
  · simp [← hfirst']
  · -- the name would end with a slash
    have hlast := congrArg List.getLast? hfirst'
    rw [List.getLast?_concat, List.getLast?_append_cons, List.getLast?_cons_of_ne_nil
      (mt String.toList_eq_nil_iff.mp hne)] at hlast
    exact absurd (List.mem_of_getLast? hlast) hname

end Path

namespace Disk

variable {d : Disk} {v w c : Visit} {p : Pattern} {patterns : List Pattern}
  {folder text path name rest : String}

theorem childPath_ne_empty (hfolder : folder ≠ "") (hname : '/' ∉ name.toList) (hne : name ≠ "") :
    childPath folder name ≠ "" := by
  rw [childPath]
  split
  · exact hne
  · exact Path.join_ne_empty hfolder hname

/-- Below a child, the current folder is left behind. -/
theorem components_childPath_ne_here (hfolder : folder ≠ "") (hname : '/' ∉ name.toList)
    (hdot : Path.components folder = [.here] → name ≠ ".") :
    Path.components (childPath folder name) ≠ [.here] := by
  rw [childPath]
  split
  case isTrue hhere => exact Path.components_ne_here_of_notMem hname (hdot hhere)
  case isFalse hhere => exact Path.components_join_ne_here hfolder hname hhere

theorem childPath_childPath (hfolder : folder ≠ "") (hname : '/' ∉ name.toList) (hne : name ≠ "")
    (hdot : Path.components folder = [.here] → name ≠ ".") (hrest : Path.isAbsolute rest = false) :
    childPath (childPath folder name) rest = childPath folder (name ++ "/" ++ rest) := by
  rw [childPath, if_neg (components_childPath_ne_here hfolder hname hdot), childPath, childPath]
  split
  · exact Path.join_of_notMem hname hne hrest
  · exact Path.join_join hfolder hname hne hrest

/-! ### The text of a path that is come upon -/

/-- Whether the path of a visit goes on from that of another one with a text that components stand
for. -/
def Spells (v : Visit) (patterns : List Pattern) (w : Visit) : Prop :=
  patterns = [] ∧ w = v ∨ patterns ≠ [] ∧ ∃ rest, Path.isAbsolute rest = false ∧
    w.path = childPath v.path rest ∧
      Pattern.matchesTokens (Pattern.joinTokens patterns) rest.toList = true

/-- One name further, the text of the path has one more component. -/
theorem Spells.cons (hv : v.path ≠ "") (hname : '/' ∉ name.toList) (hne : name ≠ "")
    (hdot : Path.components v.path = [.here] → name ≠ ".") (hc : c.path = childPath v.path name)
    (hp : p.isRecursive = false) (hmatch : p.isMatch name = true) (h : Spells c patterns w) :
    Spells v (p :: patterns) w := by
  refine .inr ⟨List.cons_ne_nil _ _, ?_⟩
  rcases h with ⟨rfl, rfl⟩ | ⟨hpatterns, rest, hrest, hw, hmatches⟩
  · exact ⟨name, Path.not_isAbsolute hname, hc, (Pattern.isMatch_eq p name).symm.trans hmatch⟩
  · rw [hc, childPath_childPath hv hname hne hdot hrest] at hw
    refine ⟨_, String.append_assoc ▸ Path.not_isAbsolute_append hname hne _, hw, ?_⟩
    have hcons := Pattern.matchesTokens_joinTokens_cons hp hmatch hpatterns hmatches
    simpa using hcons

/-- Whether a component can come first in a pattern whose paths begin as it does: with a dot, it has
to stand for a name. -/
def canBegin (p : Pattern) : Bool :=
  !startsWithDot p || p.literal?.any (· != ".")

theorem ne_dot_of_canBegin (hp : canBegin p = true) (hname : p.literal? = some name) :
    name ≠ "." := by
  rintro rfl
  simp [canBegin, startsWithDot, hname, Pattern.literal?_eq_some_iff.mp hname] at hp

theorem isRecursive_of_literal? (hname : p.literal? = some name) : p.isRecursive = false := by
  rw [Pattern.isRecursive, Pattern.literal?_eq_some_iff.mp hname]
  simp

theorem IsChild.exists_step (hsound : d.Sound) (hc : d.IsChild v c) :
    ∃ name, c.path = childPath v.path name ∧ '/' ∉ name.toList ∧ name ≠ "" ∧ name ≠ "." ∧
      Path.fileName? c.path = some name := by
  obtain ⟨place, name, -, hentry, -, rfl⟩ := hc.exists_name hsound
  have hname := Path.isName_of_isEntryName hentry
  simp only [isName, bne_iff_ne, Bool.and_eq_true, ne_eq] at hname
  exact ⟨name, rfl, Path.slash_notMem hentry, hname.1.1, hname.1.2, fileName?_childPath hentry⟩

/-- Paths go on with a text that the components stand for which they are come upon by. -/
theorem Leads.spells (hsound : d.Sound) (h : d.Leads v patterns w)
    (hparts : ∀ p ∈ patterns, p.IsPart) (hv : v.path ≠ "")
    (hfirst : Path.components v.path = [.here] → ∀ p ∈ patterns.head?, canBegin p = true) :
    Spells v patterns w := by
  induction h with
  | here v => exact .inl ⟨rfl, rfl⟩
  | @named v w p rest name hname hgo h ih =>
    obtain ⟨hpart, hrest⟩ := List.forall_mem_cons.mp hparts
    obtain ⟨hne, hslash⟩ := hpart.named name hname
    have hdot : Path.components v.path = [.here] → name ≠ "." :=
      fun hhere ↦ ne_dot_of_canBegin (hfirst hhere p rfl) hname
    have hnext := ih hrest (childPath_ne_empty hv hslash hne) fun hhere ↦
      absurd hhere (components_childPath_ne_here hv hslash hdot)
    exact hnext.cons hv hslash hne hdot rfl (isRecursive_of_literal? hname)
      (Pattern.isMatch_of_literal? hname)
  | @dotted v w p rest name hp hfolder hname hstart hmatch h ih =>
    obtain ⟨hpart, hrest⟩ := List.forall_mem_cons.mp hparts
    -- below the current folder no component comes first that only begins with a dot
    have hhere : Path.components v.path ≠ [.here] := by
      intro hhere
      have hbegin := hfirst hhere p rfl
      simp [canBegin, hstart, hp] at hbegin
    have hslash : '/' ∉ name.toList := by rcases hname with rfl | rfl <;> decide
    have hne : name ≠ "" := by rcases hname with rfl | rfl <;> decide
    have hpath : Path.join v.path name = childPath v.path name := by rw [childPath, if_neg hhere]
    have hplain : p.isRecursive = false := by
      refine Bool.eq_false_iff.mpr fun hrecursive ↦ ?_
      rw [hpart.recursive hrecursive] at hstart
      exact absurd hstart (by decide)
    have hdot : Path.components v.path = [.here] → name ≠ "." := fun h ↦ absurd h hhere
    rw [hpath] at ih
    have hnext := ih hrest (childPath_ne_empty hv hslash hne) fun hhere ↦
      absurd hhere (components_childPath_ne_here hv hslash hdot)
    exact hnext.cons hv hslash hne hdot rfl hplain hmatch
  | @child v w c p q rest others name hp hc hnext hname hmatch h ih =>
    obtain ⟨name', hpath, hslash, hne, hdot, hfile⟩ := hc.exists_step hsound
    obtain rfl := Option.some.inj (hname.symm.trans hfile)
    have hothers : ∀ r ∈ q :: others, r.IsPart := by
      intro r hr
      rw [← hnext] at hr
      exact hparts r ((List.dropWhile_sublist _).subset hr)
    have hplain := List.head?_dropWhile_not Pattern.isRecursive (p :: rest)
    rw [hnext] at hplain
    have hspells := ih (List.forall_mem_cons.mp hothers).2
      (hpath ▸ childPath_ne_empty hv hslash hne) fun hhere ↦
        absurd (hpath ▸ hhere) (components_childPath_ne_here hv hslash fun _ ↦ hdot)
    rcases hspells.cons hv hslash hne (fun _ ↦ hdot) hpath (by simpa using hplain) hmatch with
      ⟨hnil, -⟩ | ⟨-, more, hmore, hw, hmatches⟩
    · exact absurd hnil (List.cons_ne_nil _ _)
    · refine .inr ⟨List.cons_ne_nil _ _, more, hmore, hw, ?_⟩
      exact Pattern.matchesTokens_joinTokens_of_dropWhile hparts (hnext ▸ hmatches)
  | @deeper v w c p rest hp hc hrecursive hfolder h ih =>
    obtain ⟨name, hpath, hslash, hne, hdot, -⟩ := hc.exists_step hsound
    obtain rfl := (hparts p List.mem_cons_self).recursive hrecursive
    have hspells := ih hparts (hpath ▸ childPath_ne_empty hv hslash hne) fun hhere ↦
      absurd (hpath ▸ hhere) (components_childPath_ne_here hv hslash fun _ ↦ hdot)
    rcases hspells with ⟨hnil, -⟩ | ⟨-, more, hmore, hw, hmatches⟩
    · exact absurd hnil (List.cons_ne_nil _ _)
    · rw [hpath, childPath_childPath hv hslash hne (fun _ ↦ hdot) hmore] at hw
      refine .inr ⟨List.cons_ne_nil _ _, _,
        String.append_assoc ▸ Path.not_isAbsolute_append hslash hne _, hw, ?_⟩
      simpa using Pattern.matchesTokens_joinTokens_deeper hmatches name
  | @folder v c p rest hp hc hend hfolder =>
    obtain ⟨name, hpath, hslash, -⟩ := hc.exists_step hsound
    exact .inr ⟨List.cons_ne_nil _ _, name, Path.not_isAbsolute hslash, hpath,
      Pattern.matchesTokens_joinTokens_of_recursive hparts (List.cons_ne_nil _ _) hend⟩

/-! ### Whole patterns -/

theorem toList_eq_of_isAbsolute (h : Path.isAbsolute text = true) :
    text.toList = '/' :: (bodyOf text).toList := by
  rw [bodyOf, if_pos h]
  obtain ⟨rest, hrest⟩ := List.head?_eq_some_iff.mp (eq_of_beq h)
  simp [hrest]

/-- The tokens of a text with these components. -/
def wholeTokens (text : String) (patterns : List Pattern) : List Token :=
  if Path.isAbsolute text then .char '/' :: Pattern.joinTokens patterns
  else Pattern.joinTokens patterns

theorem parse_of_segments
    (h : (Path.segments (bodyOf text)).mapM Pattern.parse = .ok patterns) :
    Pattern.parse text = .ok ⟨wholeTokens text patterns⟩ := by
  rw [Pattern.parse_eq_ok_iff]
  cases habsolute : Path.isAbsolute text with
  | true =>
    rw [toList_eq_of_isAbsolute habsolute, wholeTokens, if_pos habsolute]
    exact .char (by decide) (Pattern.lexes_of_segments (.inr rfl) h)
  | false =>
    have hbody : bodyOf text = text := by rw [bodyOf, habsolute, if_neg (by simp)]
    rw [hbody] at h
    rw [wholeTokens, habsolute, if_neg (by simp)]
    exact Pattern.lexes_of_segments (.inl rfl) h

theorem mem_patternComponents_or_eq {part : String} (h : part ∈ Path.segments text) :
    part ∈ patternComponents text ∨ part = "" := by
  rw [patternComponents]
  split
  case isTrue hlast =>
    obtain ⟨first, hfirst⟩ := List.getLast?_eq_some_iff.mp (eq_of_beq hlast)
    rw [Path.segments, hfirst] at h
    rw [hfirst, List.dropLast_concat]
    exact (List.mem_append.mp h).imp_right List.mem_singleton.mp
  case isFalse => exact .inl h

/-- A text can be read as a pattern if its components can. -/
theorem exists_parse_of_components
    (h : (patternComponents (bodyOf text)).mapM Pattern.parse = .ok patterns) :
    ∃ pattern, Pattern.parse text = .ok pattern := by
  have hsegments : ∀ part ∈ Path.segments (bodyOf text), ∃ p, Pattern.parse part = .ok p := by
    intro part hpart
    rcases mem_patternComponents_or_eq hpart with hmem | rfl
    · obtain ⟨p, -, hp⟩ := exists_mapM_of_mem h hmem
      exact ⟨p, hp⟩
    · exact ⟨⟨[]⟩, rfl⟩
  obtain ⟨all, hall⟩ := exists_mapM hsegments
  exact ⟨_, parse_of_segments hall⟩

/-- A pattern that is spelled as the paths that it selects are: it has no empty components, and does
not begin with a dot that the paths go without. -/
structure IsPlain (text : String) : Prop where
  full : "" ∉ Path.segments (bodyOf text)
  first : Path.isAbsolute text = false →
    ∀ part ∈ (Path.segments text).head?, ∀ p, Pattern.parse part = .ok p → canBegin p = true

/-- Whether a text stands for a path as a pattern for a text: a slash is a character like any other
then. -/
def MatchesText (text path : String) : Prop :=
  ∃ pattern, Pattern.parse text = .ok pattern ∧
    Pattern.matchesTokens pattern.tokens path.toList = true

theorem patternComponents_of_full (h : "" ∉ Path.segments text) :
    patternComponents text = Path.segments text := by
  rw [patternComponents]
  exact if_neg fun hlast ↦ h (List.mem_of_getLast? (eq_of_beq hlast))

theorem not_isAbsolute_of_rootOf (h : Path.components (rootOf text) = [.here]) :
    Path.isAbsolute text = false := by
  refine Bool.eq_false_iff.mpr fun habsolute ↦ ?_
  rw [rootOf, if_pos habsolute] at h
  exact absurd h (by decide)

theorem matchesTokens_wholeTokens (hrest : Path.isAbsolute rest = false)
    (h : Pattern.matchesTokens (Pattern.joinTokens patterns) rest.toList = true) :
    Pattern.matchesTokens (wholeTokens text patterns)
      (childPath (rootOf text) rest).toList = true := by
  have hroot : Path.components "/" ≠ [.here] := by decide
  have hhere : Path.components "." = [.here] := by decide
  rw [wholeTokens, rootOf]
  split
  · rw [childPath, if_neg hroot, Path.join, hrest]
    exact (Pattern.matchesTokens_cons_iff (by simp) (by simp)).mpr
      ⟨'/', rest.toList, by simp, by decide, h⟩
  · rwa [childPath, if_pos hhere]

/-- A plain pattern stands for each path that it selects. -/
theorem Selects.matchesText (hsound : d.Sound) (hplain : IsPlain text) (h : d.Selects text path) :
    MatchesText text path := by
  obtain ⟨patterns, hpatterns, w, hleads, hshows⟩ := h
  rw [patternComponents_of_full hplain.full] at hpatterns
  refine ⟨_, parse_of_segments hpatterns, ?_⟩
  have hparts : ∀ p ∈ patterns, p.IsPart := by
    intro p hp
    obtain ⟨part, hpart, hparse⟩ := exists_of_mem_mapM hpatterns hp
    refine Pattern.isPart_of_parse hparse ?_ (Path.slash_notMem_of_mem_segments hpart)
    rintro rfl
    exact hplain.full hpart
  have hne : patterns ≠ [] := by
    rintro rfl
    exact Path.segments_ne_nil _ (List.forall₂_nil_right_iff.mp (mapM_eq_ok_iff.mp hpatterns))
  have hroot : rootOf text ≠ "" := by
    rw [rootOf]
    split <;> simp
  have hfirst : Path.components (rootOf text) = [.here] → ∀ p ∈ patterns.head?,
      canBegin p = true := by
    intro hhere p hp
    have hrelative := not_isAbsolute_of_rootOf hhere
    have hall := mapM_eq_ok_iff.mp hpatterns
    rw [bodyOf, hrelative, if_neg (by simp)] at hall
    obtain ⟨others, rfl⟩ := List.head?_eq_some_iff.mp hp
    obtain ⟨part, rest, hpart, -, hsegments⟩ := List.forall₂_cons_right_iff.mp hall
    exact hplain.first hrelative part (by rw [hsegments]; rfl) p hpart
  rcases hleads.spells hsound hparts hroot hfirst with ⟨hnil, -⟩ | ⟨-, rest, hrest, hw, hmatches⟩
  · exact absurd hnil hne
  · rw [← hshows.1, hw]
    exact matchesTokens_wholeTokens hrest hmatches

end Disk

end ClassMap
