import ClassMap.Proofs.Options

/-!
Lists in option values. An entry has no blanks at its ends, is not empty and has no comma in it;
entries of this kind that are joined by commas are read back as they are.
-/

set_option autoImplicit false
set_option relaxedAutoImplicit false

namespace ClassMap

namespace Text

/-- What the values of text options are like. -/
structure IsValue (value : String) : Prop where
  trimmed : Trimmed value
  nonempty : value ≠ ""

instance (value : String) : Decidable (IsValue value) :=
  decidable_of_iff (Trimmed value ∧ value ≠ "") ⟨fun h ↦ ⟨h.1, h.2⟩, fun h ↦ ⟨h.1, h.2⟩⟩

/-- What the entries of a comma-separated value are like. -/
structure IsEntry (entry : String) : Prop extends IsValue entry where
  noComma : ',' ∉ entry.toList

/-- A text that is not given, or one that a text option can have. -/
def IsValue? (value : Option String) : Prop :=
  ∀ v, value = some v → IsValue v

theorem isValue?_none : IsValue? none :=
  fun _ hv ↦ absurd hv (by simp)

theorem IsValue?.or {value other : Option String} (hvalue : IsValue? value)
    (hother : IsValue? other) : IsValue? (value.or other) := by
  intro v hv
  rcases Option.or_eq_some_iff.mp hv with hfirst | ⟨-, hsecond⟩
  · exact hvalue v hfirst
  · exact hother v hsecond

theorem isValue_of_trimmed? {s value : String} (h : trimmed? s = some value) : IsValue value :=
  ⟨trimmed_of_trimmed? h, (trimmed?_eq_some_iff.mp h).1⟩

theorem IsValue.trimmed?_eq {value : String} (h : IsValue value) : trimmed? value = some value :=
  trimmed?_eq_some_iff.mpr ⟨h.nonempty, (show trim value = value from h.trimmed).symm⟩

theorem pieces_eq_splitOn (separator : Char) (cs : List Char) :
    pieces separator cs = cs.splitOn separator := by
  induction cs with
  | nil => rfl
  | cons c rest ih =>
    rw [pieces, List.splitOn_cons_eq_if_modifyHead, ih]
    split
    · rfl
    · obtain ⟨piece, others, hsplit⟩ :=
        List.exists_cons_of_ne_nil (List.splitOnP_ne_nil (· == separator) rest)
      rw [show rest.splitOn separator = piece :: others from hsplit, List.modifyHead_cons]

/-- The entries of a text are what stands between its commas, blanks and empty entries aside. -/
theorem entries_eq_filter (s : String) : entries s =
    ((s.toList.splitOn ',').map fun piece ↦ trim (String.ofList piece)).filter (· ≠ "") := by
  have htrim : (fun piece ↦ trim (String.ofList piece)) = String.ofList ∘ trimBoth := by
    funext piece
    rw [trim, String.toList_ofList, Function.comp]
  rw [entries, pieces_eq_splitOn, htrim, ← List.map_map, List.filter_map (f := String.ofList)]
  refine congrArg _ (List.filter_congr fun piece _ ↦ ?_)
  cases piece <;> simp

theorem notMem_of_mem_pieces {separator : Char} {cs piece : List Char}
    (hpiece : piece ∈ pieces separator cs) : separator ∉ piece := by
  induction cs generalizing piece with
  | nil =>
    rw [List.mem_singleton.mp hpiece]
    exact List.not_mem_nil
  | cons c rest ih =>
    rw [pieces] at hpiece
    split at hpiece
    · rcases List.mem_cons.mp hpiece with rfl | hrest
      · exact List.not_mem_nil
      · exact ih hrest
    · rename_i hc
      have hne : separator ≠ c := fun h ↦ hc (beq_iff_eq.mpr h.symm)
      split at hpiece
      · rename_i first others hothers
        rw [hothers] at ih
        rcases List.mem_cons.mp hpiece with rfl | hrest
        · exact List.not_mem_cons_of_ne_of_not_mem hne (ih List.mem_cons_self)
        · exact ih (List.mem_cons_of_mem first hrest)
      · rw [List.mem_singleton.mp hpiece]
        exact List.not_mem_cons_of_ne_of_not_mem hne List.not_mem_nil

theorem cut?_eq_none_iff {separator : Char} {cs : List Char} :
    cut? separator cs = none ↔ separator ∉ cs := by
  induction cs with
  | nil => simp [cut?]
  | cons c rest ih =>
    rw [cut?]
    by_cases hc : c = separator
    · simp [hc]
    · rw [if_neg (by simpa using hc), Option.map_eq_none_iff, ih, List.mem_cons, not_or]
      exact ⟨fun hrest ↦ ⟨Ne.symm hc, hrest⟩, And.right⟩

theorem cut?_eq_some_iff {separator : Char} {cs before after : List Char} :
    cut? separator cs = some (before, after) ↔
      cs = before ++ separator :: after ∧ separator ∉ before := by
  induction cs generalizing before with
  | nil => simp [cut?]
  | cons c rest ih =>
    rw [cut?]
    by_cases hc : c = separator
    · subst hc
      rw [if_pos (beq_self_eq_true c)]
      cases before with
      | nil => simp
      | cons b others =>
        refine iff_of_false (by simp) fun hcut ↦ hcut.2 ?_
        rw [List.cons_append, List.cons.injEq] at hcut
        exact hcut.1.1 ▸ List.mem_cons_self
    · rw [if_neg (by simpa using hc), Option.map_eq_some_iff]
      cases before with
      | nil => simp [hc]
      | cons b others =>
        simp only [Prod.exists, Prod.mk.injEq, List.cons.injEq, List.cons_append, List.mem_cons,
          not_or]
        constructor
        · rintro ⟨others', after', hcut, ⟨rfl, rfl⟩, rfl⟩
          obtain ⟨hrest, hnone⟩ := ih.mp hcut
          exact ⟨⟨rfl, hrest⟩, Ne.symm hc, hnone⟩
        · rintro ⟨⟨rfl, hrest⟩, -, hnone⟩
          exact ⟨others, after, ih.mpr ⟨hrest, hnone⟩, ⟨rfl, rfl⟩, rfl⟩

theorem mem_of_mem_trimBoth {c : Char} {cs : List Char} (hc : c ∈ trimBoth cs) : c ∈ cs :=
  (List.dropWhile_sublist isBlank).mem ((List.rdropWhile_prefix isBlank _).sublist.mem hc)

theorem isEntry_of_mem_entries {s entry : String} (h : entry ∈ entries s) : IsEntry entry := by
  refine ⟨⟨trimmed_of_mem_entries h, ?_⟩, ?_⟩
  · obtain ⟨cs, hcs, rfl⟩ := List.mem_map.mp h
    have hne : cs ≠ [] := by simpa using (List.mem_filter.mp hcs).2
    simpa using hne
  · obtain ⟨cs, hcs, rfl⟩ := List.mem_map.mp h
    obtain ⟨piece, hpiece, rfl⟩ := List.mem_map.mp (List.mem_filter.mp hcs).1
    rw [String.toList_ofList]
    exact fun hmem ↦ notMem_of_mem_pieces hpiece (mem_of_mem_trimBoth hmem)

/-- Entries joined by commas are read back. -/
theorem entries_intercalate {es : List String} (hes : ∀ e ∈ es, IsEntry e) :
    entries (",".intercalate es) = es := by
  by_cases hnil : es = []
  · subst hnil
    decide
  have hpieces : pieces ',' (",".intercalate es).toList = es.map String.toList := by
    rw [String.toList_intercalate, pieces_eq_splitOn]
    refine List.splitOn_intercalate ',' (fun cs hcs ↦ ?_) (by simpa using hnil)
    obtain ⟨e, he, rfl⟩ := List.mem_map.mp hcs
    exact (hes e he).noComma
  have htrimmed : (es.map String.toList).map trimBoth = es.map String.toList := by
    rw [List.map_map]
    refine List.map_congr_left fun e he ↦ ?_
    rw [Function.comp, trimBoth_of_endsPlain (hes e he).trimmed.endsPlain]
  have hnonempty : (es.map String.toList).filter (!·.isEmpty) = es.map String.toList := by
    refine List.filter_eq_self.mpr fun cs hcs ↦ ?_
    obtain ⟨e, he, rfl⟩ := List.mem_map.mp hcs
    simpa using (hes e he).nonempty
  rw [entries, hpieces, htrimmed, hnonempty, List.map_map]
  simp [Function.comp_def]

theorem EndsPlain.append {cs ds : List Char} (hcs : EndsPlain cs) (hds : EndsPlain ds) :
    EndsPlain (cs ++ ds) := by
  refine ⟨fun c hc ↦ ?_, fun c hc ↦ ?_⟩
  · rw [List.head?_append] at hc
    rcases Option.or_eq_some_iff.mp hc with hfirst | ⟨-, hsecond⟩
    · exact hcs.1 c hfirst
    · exact hds.1 c hsecond
  · rw [List.getLast?_append] at hc
    rcases Option.or_eq_some_iff.mp hc with hsecond | ⟨-, hfirst⟩
    · exact hds.2 c hsecond
    · exact hcs.2 c hfirst

/-- Entries joined by commas have no blanks at their ends. -/
theorem endsPlain_intercalate {es : List String} (hes : ∀ e ∈ es, IsEntry e) :
    EndsPlain ([','].intercalate (es.map String.toList)) := by
  induction es with
  | nil => exact ⟨fun _ hc ↦ absurd hc (by simp), fun _ hc ↦ absurd hc (by simp)⟩
  | cons e rest ih =>
    obtain ⟨he, hrest⟩ := List.forall_mem_cons.mp hes
    cases rest with
    | nil =>
      rw [List.map_singleton, List.intercalate_singleton]
      exact he.trimmed.endsPlain
    | cons e' others =>
      have hcomma : EndsPlain [','] := endsPlain_of_all (by decide)
      rw [List.map_cons, List.map_cons, List.intercalate_cons_cons]
      exact (he.trimmed.endsPlain.append hcomma).append (ih hrest)

theorem trimmed?_intercalate {es : List String} (hes : ∀ e ∈ es, IsEntry e) (hne : es ≠ []) :
    trimmed? (",".intercalate es) = some (",".intercalate es) := by
  obtain ⟨e, rest, rfl⟩ := List.exists_cons_of_ne_nil hne
  have hlist : (",".intercalate (e :: rest)).toList =
      [','].intercalate ((e :: rest).map String.toList) := String.toList_intercalate
  refine IsValue.trimmed?_eq ⟨?_, fun hempty ↦ ?_⟩
  · rw [← String.ofList_toList (s := ",".intercalate (e :: rest)), hlist]
    exact trimmed_ofList_of_endsPlain (endsPlain_intercalate hes)
  · -- the first entry is part of the joined text
    rw [hempty, List.map_cons] at hlist
    have hfirst : e.toList ≠ [] := by simpa using (hes e List.mem_cons_self).nonempty
    cases rest with
    | nil => exact hfirst (by simpa using hlist.symm)
    | cons e' others =>
      rw [List.map_cons, List.intercalate_cons_cons] at hlist
      exact hfirst (by simpa using hlist.symm)

end Text

namespace TagReader

variable {r : TagReader} {key : String}

theorem isValue?_text? (r : TagReader) (key : String) : Text.IsValue? (r.text? key) := by
  intro value hvalue
  obtain ⟨written, -, htrim⟩ := Option.bind_eq_some_iff.mp hvalue
  exact Text.isValue_of_trimmed? htrim

theorem isEntry_of_mem_entries {entry : String} (h : entry ∈ r.entries key) :
    Text.IsEntry entry := by
  unfold entries at h
  split at h
  · exact Text.isEntry_of_mem_entries h
  · exact absurd h List.not_mem_nil

/-- The entries that an option needs are those that its tag lists. -/
theorem lists_of_someEntries {names : List String} {need : String}
    (h : r.someEntries key need = .ok names) : r.tag.Lists key names := by
  obtain ⟨rfl, hne⟩ := entries_of_someEntries h
  rw [entries] at hne ⊢
  split at hne
  case h_1 value htext =>
    obtain ⟨-, written, hget, rfl⟩ := text?_eq_some_iff.mp htext
    exact ⟨written, hget, Text.entries_eq_filter _⟩
  case h_2 => exact absurd rfl hne

/-- A list of entries joined by commas is read as that list from the option that it is put in. -/
theorem entries_of_get? {es : List String} (hget : r.tag.get? key = some (",".intercalate es))
    (hes : ∀ e ∈ es, Text.IsEntry e) : r.entries key = es := by
  unfold entries text?
  rw [hget, Option.bind_some]
  by_cases hne : es = []
  · subst hne
    rfl
  · rw [Text.trimmed?_intercalate hes hne]
    exact Text.entries_intercalate hes

theorem someEntries_of_get? {es : List String} {need : String}
    (hget : r.tag.get? key = some (",".intercalate es)) (hes : ∀ e ∈ es, Text.IsEntry e)
    (hne : es ≠ []) : r.someEntries key need = .ok es := by
  rw [someEntries, entries_of_get? hget hes]
  split
  · exact absurd rfl hne
  · rfl

end TagReader

end ClassMap
