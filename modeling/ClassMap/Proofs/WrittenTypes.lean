import ClassMap.Proofs.Text.Entries
import ClassMap.Proofs.Text.TypeArguments

/-!
Written types. A type that is built from names, arrays and containers is read back from its text,
whatever is nested in it. What carries the argument is that the text of a type takes the reader of
arguments back to the depth it came from, and that no comma on the way is one of its own, so that
the arguments are parted just where they were joined.
-/

set_option autoImplicit false
set_option relaxedAutoImplicit false

namespace ClassMap

namespace Text

/-- Only what stands at the two ends matters. -/
theorem EndsPlain.around {cs ds : List Char} (hcs : EndsPlain cs) (hds : EndsPlain ds)
    (hfirst : cs ≠ []) (hlast : ds ≠ []) (middle : List Char) :
    EndsPlain (cs ++ (middle ++ ds)) := by
  refine ⟨fun c hc ↦ hcs.1 c ?_, fun c hc ↦ hds.2 c ?_⟩
  · rwa [List.head?_append_of_ne_nil cs hfirst] at hc
  · rwa [← List.append_assoc, List.getLast?_append_of_ne_nil _ hlast] at hc

end Text

namespace MemberType

/-! ### Types and their texts -/

mutual

/-- The text of a type: a name, `T[]` or `C<A, B>`. -/
def print : MemberType → String
  | scalar name => name
  | array element => element.print ++ "[]"
  | generic container arguments => container ++ "<" ++ ", ".intercalate (printAll arguments) ++ ">"

def printAll : List MemberType → List String
  | [] => []
  | type :: others => type.print :: printAll others

end

theorem printAll_eq_map (types : List MemberType) : printAll types = types.map print := by
  induction types with
  | nil => rfl
  | cons type others ih => rw [printAll, ih, List.map_cons]

/-- The type without type arguments. -/
def erased : MemberType → MemberType
  | scalar name => scalar name
  | array element => array element.erased
  | generic container _ => scalar container

/-- What an array or a container holds. -/
def element? : MemberType → Option MemberType
  | scalar _ => none
  | array element => some element
  | generic _ arguments => arguments.getLast?

structure IsTypeName (name : String) : Prop where
  nonempty : name ≠ ""
  inner : ∀ c ∈ name.toList, isNameChar c = true

instance (name : String) : Decidable (IsTypeName name) :=
  decidable_of_iff (name ≠ "" ∧ name.toList.all isNameChar = true)
    ⟨fun h ↦ ⟨h.1, List.all_eq_true.mp h.2⟩, fun h ↦ ⟨h.1, List.all_eq_true.mpr h.2⟩⟩

/-- Types whose names, at every depth, are names of types. -/
inductive Named : MemberType → Prop where
  | scalar {name : String} (hname : IsTypeName name) : Named (scalar name)
  | array {element : MemberType} (helement : Named element) : Named (array element)
  | generic {container : String} {arguments : List MemberType} (hcontainer : IsTypeName container)
      (harguments : ∀ argument ∈ arguments, Named argument) : Named (generic container arguments)

theorem rawName_eq_print_erased (type : MemberType) : type.rawName = type.erased.print := by
  induction type using rawName.induct with
  | case1 name => rfl
  | case2 element ih => rw [rawName, ih, erased, print]
  | case3 container arguments => rfl

theorem elementType?_eq_map_element? (type : MemberType) :
    type.elementType? = type.element?.map fun element ↦ element.erased.print := by
  cases type with
  | scalar name => rfl
  | array element => exact congrArg some (rawName_eq_print_erased element)
  | generic container arguments =>
    rw [elementType?, element?, funext rawName_eq_print_erased]

@[simp] theorem toList_print_array (element : MemberType) :
    (array element).print.toList = element.print.toList ++ ['[', ']'] := by
  simp [print]

/-- What stands between the brackets of a container. -/
def printedArguments (arguments : List MemberType) : List Char :=
  [',', ' '].intercalate (arguments.map fun argument ↦ argument.print.toList)

@[simp] theorem toList_print_generic (container : String) (arguments : List MemberType) :
    (generic container arguments).print.toList =
      container.toList ++ '<' :: (printedArguments arguments ++ ['>']) := by
  have hjoined : (", ".intercalate (arguments.map print)).toList = printedArguments arguments := by
    rw [String.toList_intercalate, List.map_map]
    rfl
  rw [print, printAll_eq_map]
  simp [hjoined]

theorem notMem_intercalate {c : Char} {separator : List Char} {pieces : List (List Char)}
    (hseparator : c ∉ separator) (hpieces : ∀ piece ∈ pieces, c ∉ piece) :
    c ∉ separator.intercalate pieces := by
  induction pieces with
  | nil => exact List.not_mem_nil
  | cons piece rest ih =>
    obtain ⟨hpiece, hrest⟩ := List.forall_mem_cons.mp hpieces
    cases rest with
    | nil => rwa [List.intercalate_singleton]
    | cons next others =>
      rw [List.intercalate_cons_cons]
      simpa [hpiece, hseparator] using ih hrest

theorem length_le_length_intercalate {separator piece : List Char} {pieces : List (List Char)}
    (hpiece : piece ∈ pieces) : piece.length ≤ (separator.intercalate pieces).length := by
  induction pieces with
  | nil => exact absurd hpiece List.not_mem_nil
  | cons first rest ih =>
    cases rest with
    | nil => simp [List.mem_singleton.mp hpiece]
    | cons next others =>
      rw [List.intercalate_cons_cons, List.length_append, List.length_append]
      rcases List.mem_cons.mp hpiece with rfl | hrest
      · omega
      · have h := ih hrest
        omega

/-! ### The ends of a text -/

theorem IsTypeName.toList_ne_nil {name : String} (h : IsTypeName name) : name.toList ≠ [] := by
  simpa using h.nonempty

theorem IsTypeName.endsPlain {name : String} (h : IsTypeName name) :
    Text.EndsPlain name.toList :=
  Text.endsPlain_of_all (by simpa using fun c hc ↦ isBlank_eq_false_of_isNameChar (h.inner c hc))

theorem IsTypeName.notMem {name : String} (h : IsTypeName name) {c : Char}
    (hc : isNameChar c = false) : c ∉ name.toList :=
  fun hmem ↦ Bool.noConfusion ((h.inner c hmem).symm.trans hc)

variable {type : MemberType}

theorem Named.print_ne_nil (h : type.Named) : type.print.toList ≠ [] := by
  cases h with
  | scalar hname => exact hname.toList_ne_nil
  | array helement => simp
  | generic hcontainer harguments => simp

theorem Named.endsPlain (h : type.Named) : Text.EndsPlain type.print.toList := by
  induction h with
  | scalar hname => exact hname.endsPlain
  | array helement ih =>
    rw [toList_print_array]
    exact ih.append (Text.endsPlain_of_all (by decide))
  | @generic container arguments hcontainer harguments ih =>
    rw [toList_print_generic, ← List.cons_append]
    exact hcontainer.endsPlain.around (Text.endsPlain_of_all (by decide))
      hcontainer.toList_ne_nil (List.cons_ne_nil _ _) ('<' :: printedArguments arguments)

theorem notMem_printedArguments {c : Char} {arguments : List MemberType} (hc : c ∉ [',', ' '])
    (harguments : ∀ argument ∈ arguments, c ∉ argument.print.toList) :
    c ∉ printedArguments arguments := by
  refine notMem_intercalate hc fun piece hpiece ↦ ?_
  obtain ⟨argument, hargument, rfl⟩ := List.mem_map.mp hpiece
  exact harguments argument hargument

/-- A type is written on one line. -/
theorem Named.newline_notMem (h : type.Named) : '\n' ∉ type.print.toList := by
  induction h with
  | scalar hname => exact hname.notMem (by decide)
  | array helement ih => simpa using ih
  | @generic container arguments hcontainer harguments ih =>
    have hname : '\n' ∉ container.toList := hcontainer.notMem (by decide)
    have hinner : '\n' ∉ printedArguments arguments := notMem_printedArguments (by decide) ih
    simp [hname, hinner]

/-! ### Parting the arguments -/

theorem argumentPieces_ne_nil (depth : Int) (cs : List Char) : argumentPieces depth cs ≠ [] := by
  cases cs with
  | nil => simp [argumentPieces]
  | cons c rest =>
    rw [argumentPieces]
    split
    · simp
    · dsimp only
      split <;> simp

/-- The depth behind a character. -/
def depthAfter (depth : Int) (c : Char) : Int :=
  if c == '<' then depth + 1 else if c == '>' then depth - 1 else depth

theorem argumentPieces_comma (rest : List Char) :
    argumentPieces 0 (',' :: rest) = [] :: argumentPieces 0 rest := by
  simp [argumentPieces]

theorem argumentPieces_cons {depth : Int} {c : Char} (hc : c = ',' → depth ≠ 0)
    (rest : List Char) :
    argumentPieces depth (c :: rest) =
      (argumentPieces (depthAfter depth c) rest).modifyHead (c :: ·) := by
  have hnot : ¬ (c == ',' && depth == 0) = true := by simpa using hc
  rw [argumentPieces, if_neg hnot]
  obtain ⟨piece, others, hpieces⟩ :=
    List.exists_cons_of_ne_nil (argumentPieces_ne_nil (depthAfter depth c) rest)
  have hpieces' := hpieces
  rw [depthAfter] at hpieces'
  simp only [hpieces, hpieces', List.modifyHead_cons]

/-- The text is part of one argument, and behind it the depth is the second one. -/
def Passes (depth : Int) (cs : List Char) (depth' : Int) : Prop :=
  ∀ rest, argumentPieces depth (cs ++ rest) =
    (argumentPieces depth' rest).modifyHead (cs ++ ·)

namespace Passes

variable {depth depth' depth'' : Int} {cs ds : List Char}

theorem nil (depth : Int) : Passes depth [] depth := by
  intro rest
  rw [List.nil_append]
  cases argumentPieces depth rest <;> rfl

theorem append (hcs : Passes depth cs depth') (hds : Passes depth' ds depth'') :
    Passes depth (cs ++ ds) depth'' := by
  intro rest
  rw [List.append_assoc, hcs, hds, List.modifyHead_modifyHead]
  simp [Function.comp_def]

theorem single {c : Char} (hc : c = ',' → depth ≠ 0) : Passes depth [c] (depthAfter depth c) :=
  fun rest ↦ argumentPieces_cons hc rest

/-- Names do not change the depth. -/
theorem of_isNameChar (hcs : ∀ c ∈ cs, isNameChar c = true) : Passes depth cs depth := by
  induction cs with
  | nil => exact nil depth
  | cons c rest ih =>
    obtain ⟨hc, hrest⟩ := List.forall_mem_cons.mp hcs
    have hcomma : c ≠ ',' := by rintro rfl; exact absurd hc (by decide)
    have hopen : c ≠ '<' := by rintro rfl; exact absurd hc (by decide)
    have hclose : c ≠ '>' := by rintro rfl; exact absurd hc (by decide)
    have hdepth : depthAfter depth c = depth := by simp [depthAfter, hopen, hclose]
    have hsingle : Passes depth [c] (depthAfter depth c) := single fun h ↦ absurd h hcomma
    rw [hdepth] at hsingle
    exact hsingle.append (ih hrest)

/-- Within brackets the commas part nothing. -/
theorem intercalate {pieces : List (List Char)} (hdepth : depth ≠ 0)
    (hpieces : ∀ piece ∈ pieces, Passes depth piece depth) :
    Passes depth ([',', ' '].intercalate pieces) depth := by
  have hseparator : Passes depth [',', ' '] depth :=
    (single fun _ ↦ hdepth).append (single (c := ' ') fun h ↦ absurd h (by decide))
  induction pieces with
  | nil => exact nil depth
  | cons piece rest ih =>
    obtain ⟨hpiece, hrest⟩ := List.forall_mem_cons.mp hpieces
    cases rest with
    | nil => rwa [List.intercalate_singleton]
    | cons next others =>
      rw [List.intercalate_cons_cons]
      exact (hpiece.append hseparator).append (ih hrest)

end Passes

/-- Behind a type the depth is the one before it. -/
theorem Named.passes (h : type.Named) {depth : Int} (hdepth : 0 ≤ depth) :
    Passes depth type.print.toList depth := by
  induction h generalizing depth with
  | scalar hname => exact Passes.of_isNameChar hname.inner
  | array helement ih =>
    rw [toList_print_array]
    have hbrackets : Passes depth ['[', ']'] depth :=
      (Passes.single (c := '[') fun h ↦ absurd h (by decide)).append
        (Passes.single (c := ']') fun h ↦ absurd h (by decide))
    exact (ih hdepth).append hbrackets
  | @generic container arguments hcontainer harguments ih =>
    rw [toList_print_generic, ← List.singleton_append]
    have hname : Passes depth container.toList depth := Passes.of_isNameChar hcontainer.inner
    have hopen : Passes depth ['<'] (depth + 1) :=
      Passes.single (c := '<') fun h ↦ absurd h (by decide)
    have hclose : Passes (depth + 1) ['>'] depth := by
      have hback : depthAfter (depth + 1) '>' = depth := by simp [depthAfter]
      have hsingle : Passes (depth + 1) ['>'] (depthAfter (depth + 1) '>') :=
        Passes.single fun h ↦ absurd h (by decide)
      rwa [hback] at hsingle
    -- the list of arguments is one level deeper, and so is each of them
    have hinner : Passes (depth + 1) (printedArguments arguments) (depth + 1) := by
      refine Passes.intercalate (by omega) fun piece hpiece ↦ ?_
      obtain ⟨argument, hargument, rfl⟩ := List.mem_map.mp hpiece
      exact ih argument hargument (by omega)
    exact hname.append (hopen.append (hinner.append hclose))

/-- Outside brackets the pieces are those that were joined. -/
theorem argumentPieces_intercalate {piece : List Char} {pieces : List (List Char)}
    (hpieces : ∀ p ∈ piece :: pieces, Passes 0 p 0) :
    argumentPieces 0 ([',', ' '].intercalate (piece :: pieces)) =
      piece :: pieces.map (' ' :: ·) := by
  induction pieces generalizing piece with
  | nil =>
    have hpiece := hpieces piece List.mem_cons_self []
    rw [List.append_nil] at hpiece
    rw [List.intercalate_singleton, hpiece]
    simp [argumentPieces]
  | cons next others ih =>
    obtain ⟨hpiece, hrest⟩ := List.forall_mem_cons.mp hpieces
    have hspace : argumentPieces 0 (' ' :: [',', ' '].intercalate (next :: others)) =
        (' ' :: next) :: others.map (' ' :: ·) := by
      rw [argumentPieces_cons (by decide), show depthAfter 0 ' ' = 0 from rfl, ih hrest,
        List.modifyHead_cons]
    rw [List.intercalate_cons_cons, List.append_assoc, hpiece, List.cons_append,
      argumentPieces_comma, List.singleton_append, hspace]
    simp

theorem dropEmptyLast_of_ne_nil {pieces : List (List Char)}
    (hpieces : ∀ piece ∈ pieces, piece ≠ []) : dropEmptyLast pieces = pieces := by
  induction pieces using dropEmptyLast.induct with
  | case1 => rfl
  | case2 piece hempty => exact absurd (List.isEmpty_iff.mp hempty) (hpieces piece (by simp))
  | case3 piece hnonempty => simp [dropEmptyLast, hnonempty]
  | case4 piece next others ih =>
    rw [dropEmptyLast, ih fun p hp ↦ hpieces p (List.mem_cons_of_mem piece hp)]

/-- The arguments of a container are the types that were written. -/
theorem splitArguments_printedArguments {arguments : List MemberType}
    (harguments : ∀ argument ∈ arguments, argument.Named) :
    splitArguments (printedArguments arguments) =
      arguments.map fun argument ↦ argument.print.toList := by
  cases arguments with
  | nil => rfl
  | cons first others =>
    have hpass : ∀ p ∈ (first :: others).map (fun argument ↦ argument.print.toList),
        Passes 0 p 0 := by
      intro p hp
      obtain ⟨argument, hargument, rfl⟩ := List.mem_map.mp hp
      exact (harguments argument hargument).passes (Int.le_refl 0)
    have htrim : ∀ argument ∈ first :: others,
        Text.trimBoth argument.print.toList = argument.print.toList :=
      fun argument hargument ↦ Text.trimBoth_of_endsPlain (harguments argument hargument).endsPlain
    have hpieces : (argumentPieces 0 (printedArguments (first :: others))).map Text.trimBoth =
        (first :: others).map fun argument ↦ argument.print.toList := by
      rw [List.map_cons] at hpass
      rw [printedArguments, List.map_cons, argumentPieces_intercalate hpass, List.map_cons,
        List.map_map, List.map_map, htrim first List.mem_cons_self]
      refine congrArg _ (List.map_congr_left fun argument hargument ↦ ?_)
      exact htrim argument (List.mem_cons_of_mem first hargument)
    rw [splitArguments, hpieces]
    refine dropEmptyLast_of_ne_nil fun piece hpiece ↦ ?_
    obtain ⟨argument, hargument, rfl⟩ := List.mem_map.mp hpiece
    exact (harguments argument hargument).print_ne_nil

/-! ### Reading a text -/

theorem beforeBrackets?_of_getLast? {cs : List Char} {c : Char} (hlast : cs.getLast? = some c)
    (hc : c ≠ ']') : beforeBrackets? cs = none := by
  unfold beforeBrackets?
  rw [List.getLast?_eq_head?_reverse] at hlast
  split
  · rename_i rest hreverse
    rw [hreverse] at hlast
    exact absurd (Option.some.inj hlast).symm hc
  · rfl

theorem container?_append {name : String} (hname : IsTypeName name) {inner : List Char}
    (hline : '\n' ∉ inner) :
    container? (name.toList ++ '<' :: (inner ++ ['>'])) = some (name.toList, inner) := by
  have hrun : (name.toList ++ '<' :: (inner ++ ['>'])).takeWhile isNameChar = name.toList := by
    rw [List.takeWhile_append_of_pos hname.inner,
      List.takeWhile_cons_of_neg (by decide), List.append_nil]
  have hrest : (name.toList ++ '<' :: (inner ++ ['>'])).dropWhile isNameChar =
      '<' :: (inner ++ ['>']) := by
    rw [List.dropWhile_append_of_pos hname.inner, List.dropWhile_cons_of_neg (by decide)]
  have htrim : Text.trimStart ('<' :: (inner ++ ['>'])) = '<' :: (inner ++ ['>']) := rfl
  obtain ⟨c, cs, hcs⟩ := List.exists_cons_of_ne_nil hname.toList_ne_nil
  unfold container?
  rw [hrun, hrest, htrim, hcs]
  simp [hline]

variable (depth : Nat)

theorem readWithin_succ_name {name : String} (hname : IsTypeName name) :
    readWithin (depth + 1) name.toList = scalar name := by
  have hlast := List.getLast?_eq_some_getLast hname.toList_ne_nil
  have hbracket : name.toList.getLast hname.toList_ne_nil ≠ ']' := fun heq ↦
    hname.notMem (c := ']') (by decide) (heq ▸ List.getLast_mem _)
  have hcontainer : container? name.toList = none :=
    Option.eq_none_iff_forall_ne_some.mpr fun found hfound ↦
      hname.notMem (c := '<') (by decide) (mem_of_container? hfound).2
  rw [readWithin, Text.trimBoth_of_endsPlain hname.endsPlain,
    beforeBrackets?_of_getLast? hlast hbracket, hcontainer, String.ofList_toList]

theorem readWithin_succ_brackets {cs : List Char} (hcs : Text.EndsPlain cs) :
    readWithin (depth + 1) (cs ++ ['[', ']']) = array (readWithin depth cs) := by
  have hplain : Text.EndsPlain (cs ++ ['[', ']']) :=
    hcs.append (Text.endsPlain_of_all (by decide))
  have hbrackets : beforeBrackets? (cs ++ ['[', ']']) = some cs := by simp [beforeBrackets?]
  rw [readWithin, Text.trimBoth_of_endsPlain hplain, hbrackets]

theorem readWithin_succ_container {name : String} (hname : IsTypeName name) {inner : List Char}
    (hline : '\n' ∉ inner) :
    readWithin (depth + 1) (name.toList ++ '<' :: (inner ++ ['>'])) =
      generic name ((splitArguments inner).map (readWithin depth)) := by
  have hplain : Text.EndsPlain (name.toList ++ '<' :: (inner ++ ['>'])) :=
    hname.endsPlain.around (Text.endsPlain_of_all (by decide)) hname.toList_ne_nil
      (List.cons_ne_nil _ _) ('<' :: inner)
  have hlast : (name.toList ++ '<' :: (inner ++ ['>'])).getLast? = some '>' := by
    rw [← List.cons_append, ← List.append_assoc, List.getLast?_append]
    rfl
  rw [readWithin, Text.trimBoth_of_endsPlain hplain,
    beforeBrackets?_of_getLast? hlast (by decide), container?_append hname hline]
  dsimp only
  rw [String.ofList_toList]

variable {depth}

/-- A type is read back in as many steps as its text has characters. -/
theorem readWithin_print (h : type.Named) (hdepth : type.print.toList.length ≤ depth) :
    readWithin (depth + 1) type.print.toList = type := by
  induction h generalizing depth with
  | scalar hname => exact readWithin_succ_name depth hname
  | @array element helement ih =>
    rw [toList_print_array, List.length_append, List.length_cons] at hdepth
    obtain ⟨fewer, rfl⟩ : ∃ fewer, depth = fewer + 1 := ⟨depth - 1, by omega⟩
    rw [toList_print_array, readWithin_succ_brackets _ helement.endsPlain, ih (by omega)]
  | @generic container arguments hcontainer harguments ih =>
    rw [toList_print_generic, List.length_append, List.length_cons, List.length_append,
      List.length_cons] at hdepth
    obtain ⟨fewer, rfl⟩ : ∃ fewer, depth = fewer + 1 := ⟨depth - 1, by omega⟩
    have hline : '\n' ∉ printedArguments arguments :=
      notMem_printedArguments (by decide) fun argument hargument ↦
        (harguments argument hargument).newline_notMem
    -- an argument is printed in fewer characters than the list that it is in
    have hread : ∀ argument ∈ arguments,
        readWithin (fewer + 1) argument.print.toList = argument := by
      intro argument hargument
      have hlength : argument.print.toList.length ≤ (printedArguments arguments).length :=
        length_le_length_intercalate (List.mem_map_of_mem hargument)
      exact ih argument hargument (by omega)
    rw [toList_print_generic, readWithin_succ_container _ hcontainer hline,
      splitArguments_printedArguments harguments, List.map_map]
    exact congrArg _ ((List.map_congr_left hread).trans (List.map_id arguments))

/-- What is written is read back: the type itself, its erasure and that of what it holds. -/
theorem parse_print (htype : type.Named) :
    parse type.print = type ∧
      (parse type.print).rawName = type.erased.print ∧
      (parse type.print).elementType? = type.element?.map fun element ↦ element.erased.print := by
  have hparse : parse type.print = type := readWithin_print htype (Nat.le_refl _)
  rw [hparse]
  exact ⟨rfl, rawName_eq_print_erased type, elementType?_eq_map_element? type⟩

/-- Berths by the docks they lie at, with arrays in containers and a container in an array. -/
def berthsByDocks : MemberType :=
  generic "java.util.Map"
    [array (scalar "test.Dock"), generic "java.util.List" [array (generic "test.Berth$Any" [])]]

theorem parse_print_berthsByDocks :
    berthsByDocks.Named ∧
      berthsByDocks.print = "java.util.Map<test.Dock[], java.util.List<test.Berth$Any<>[]>>" ∧
      parse berthsByDocks.print = berthsByDocks ∧
      (parse berthsByDocks.print).rawName = "java.util.Map" ∧
      (parse berthsByDocks.print).elementType? = some "java.util.List" := by
  have hdock : Named (scalar "test.Dock") := .scalar (by decide +kernel)
  have hberth : Named (generic "test.Berth$Any" []) :=
    .generic (by decide +kernel) fun _ h ↦ absurd h List.not_mem_nil
  have hlist : Named (generic "java.util.List" [array (generic "test.Berth$Any" [])]) :=
    .generic (by decide +kernel) (List.forall_mem_singleton.mpr (.array hberth))
  have hmap : berthsByDocks.Named :=
    .generic (by decide +kernel)
      (List.forall_mem_cons.mpr ⟨.array hdock, List.forall_mem_singleton.mpr hlist⟩)
  obtain ⟨hparse, hname, helement⟩ := parse_print hmap
  exact ⟨hmap, by decide +kernel, hparse, hname, helement.trans (by decide +kernel)⟩

end MemberType

end ClassMap
