import ClassMap.Files.Pattern
import ClassMap.Proofs.Files.Joined

/-!
How the text of a pattern is read. `Lexes` is the reading without its positions and its limit on
steps (`parse_eq_ok_iff`). A slash ends nothing but a component, so a text is read component by
component, a slash standing for itself between two of them unless it follows recursive folders
(`lexes_intercalate`); where each component can be read, so can the text.
-/

set_option autoImplicit false
set_option relaxedAutoImplicit false

namespace ClassMap.Pattern

open Traversal

variable {before : Option Char} {cs more inner rest : List Char} {ts us : List Token} {c : Char}
  {p : Pattern} {text : String}

/-! ### Reading -/

/-- Whether a component begins after a character. -/
def Begins (before : Option Char) : Prop :=
  before = none ∨ before = some '/'

/-- What a text after some character is read as. -/
inductive Lexes : Option Char → List Char → List Token → Prop where
  | nil (before : Option Char) : Lexes before [] []
  | text {before : Option Char} {cs : List Char} {ts : List Token} (hone : cs.head? ≠ some '*')
      (h : Lexes (some '*') cs ts) : Lexes before ('*' :: cs) (.anyText :: ts)
  | last {before : Option Char} (hbegins : Begins before) : Lexes before ['*', '*'] [.anyFolders]
  | folders {before : Option Char} {cs : List Char} {ts : List Token} (hbegins : Begins before)
      (h : Lexes (some '/') cs ts) : Lexes before ('*' :: '*' :: '/' :: cs) (.anyFolders :: ts)
  | anyChar {before : Option Char} {cs : List Char} {ts : List Token} (h : Lexes (some '?') cs ts) :
      Lexes before ('?' :: cs) (.anyChar :: ts)
  | noneOf {before : Option Char} {cs inner rest : List Char} {ts : List Token}
      (hinner : bracketed? cs = some (inner, rest)) (h : Lexes (some ']') rest ts) :
      Lexes before ('[' :: '!' :: cs) (.noneOf (CharSet.parse inner) :: ts)
  | oneOf {before : Option Char} {cs inner rest : List Char} {ts : List Token}
      (hplain : cs.head? ≠ some '!') (hinner : bracketed? cs = some (inner, rest))
      (h : Lexes (some ']') rest ts) : Lexes before ('[' :: cs) (.oneOf (CharSet.parse inner) :: ts)
  | char {before : Option Char} {c : Char} {cs : List Char} {ts : List Token}
      (hplain : c ≠ '*' ∧ c ≠ '?' ∧ c ≠ '[') (h : Lexes (some c) cs ts) :
      Lexes before (c :: cs) (.char c :: ts)

theorem bracketed?_eq_some_iff : bracketed? cs = some (inner, rest) ↔
    ∃ first others, cs = first :: (others ++ ']' :: rest) ∧ inner = first :: others ∧
      ']' ∉ others := by
  cases cs with
  | nil => simp [bracketed?]
  | cons first cs =>
    rw [bracketed?]
    constructor
    · intro h
      have hsplit := List.takeWhile_append_dropWhile (p := (· != ']')) (l := cs)
      split at h
      case h_1 last others hdrop =>
        obtain ⟨rfl, rfl⟩ := Prod.mk.inj (Option.some.inj h)
        have hlast := List.head?_dropWhile_not (· != ']') cs
        rw [hdrop] at hsplit hlast
        obtain rfl : last = ']' := by simpa using hlast
        exact ⟨first, _, by rw [hsplit], rfl, fun hmem ↦ by simpa using List.mem_takeWhile_imp hmem⟩
      case h_2 => exact absurd h (by simp)
    · rintro ⟨first', others, heq, rfl, hnone⟩
      obtain ⟨rfl, rfl⟩ := List.cons.inj heq
      have hall : ∀ c ∈ others, (c != ']') = true := by
        intro c hc
        simpa using fun h : c = ']' ↦ hnone (h ▸ hc)
      simp [List.dropWhile_append_of_pos hall, List.takeWhile_append_of_pos hall]

theorem bracketed?_append (h : bracketed? cs = some (inner, rest)) (more : List Char) :
    bracketed? (cs ++ more) = some (inner, rest ++ more) := by
  obtain ⟨first, others, rfl, rfl, hnone⟩ := bracketed?_eq_some_iff.mp h
  exact bracketed?_eq_some_iff.mpr ⟨first, others, by simp, rfl, hnone⟩

theorem begins_of_not_inside (h : ¬ (before.isSome && before != some '/') = true) :
    Begins before := by
  cases before with
  | none => exact .inl rfl
  | some c => exact .inr (by simpa using h)

/-- What follows a bracket is the end of what it is in. -/
theorem suffix_of_bracketed? (h : bracketed? cs = some (inner, rest)) :
    rest <:+ cs ∧ rest.length + 2 ≤ cs.length := by
  obtain ⟨first, others, rfl, -, -⟩ := bracketed?_eq_some_iff.mp h
  refine ⟨⟨first :: (others ++ [']']), by simp⟩, ?_⟩
  simp only [List.length_cons, List.length_append]
  omega

theorem dropWhile_of_takeWhile_eq_nil (h : cs.takeWhile (· == '*') = []) :
    cs.dropWhile (· == '*') = cs ∧ cs.head? ≠ some '*' := by
  cases cs with
  | nil => simp
  | cons c cs =>
    by_cases hstar : c = '*'
    · simp [hstar] at h
    · simp [hstar]

theorem eq_cons_of_takeWhile_eq_singleton (h : cs.takeWhile (· == '*') = [c]) :
    cs = '*' :: cs.dropWhile (· == '*') := by
  have hsplit := List.takeWhile_append_dropWhile (p := (· == '*')) (l := cs)
  have hmem : c ∈ cs.takeWhile (· == '*') := h ▸ List.mem_singleton_self c
  have hstar : c = '*' := by simpa using List.mem_takeWhile_imp hmem
  rw [h, hstar] at hsplit
  exact hsplit.symm

/-- What a text is read as with positions is what it is read as without. -/
theorem lexes_of_tokens? {steps position : Nat} (hsteps : cs.length ≤ steps)
    (h : tokens? steps position before cs = .ok ts) : Lexes before cs ts := by
  -- the cases that fail are closed by the answer; in the others the rest is read with a step less
  fun_induction tokens? steps position before cs generalizing ts with
  | case1 =>
    obtain rfl := Except.ok.inj h
    obtain rfl := List.eq_nil_of_length_eq_zero (Nat.le_zero.mp hsteps)
    exact .nil _
  | case2 =>
    obtain rfl := Except.ok.inj h
    exact .nil _
  | case3 steps position before cs more rest hmore =>
    rename_i ih
    obtain ⟨us, hus, h⟩ := bind_eq_ok_iff.mp h
    obtain rfl := pure_eq_ok_iff.mp h
    obtain ⟨hrest, hone⟩ : rest = cs ∧ _ := dropWhile_of_takeWhile_eq_nil hmore
    rw [hrest] at ih hus
    exact .text hone (ih (Nat.le_of_succ_le_succ hsteps) hus)
  | case5 steps position before cs more rest c hmore hbegins =>
    rename_i hrest
    obtain rfl := Except.ok.inj h
    have hcs : cs = '*' :: rest := eq_cons_of_takeWhile_eq_singleton hmore
    rw [hcs, hrest]
    exact .last (begins_of_not_inside hbegins)
  | case6 steps position before cs more dropped c hmore hbegins rest hrest =>
    rename_i ih
    obtain ⟨us, hus, h⟩ := bind_eq_ok_iff.mp h
    obtain rfl := pure_eq_ok_iff.mp h
    have hcs : cs = '*' :: dropped := eq_cons_of_takeWhile_eq_singleton hmore
    rw [hcs, hrest] at hsteps ⊢
    simp only [List.length_cons] at hsteps
    exact .folders (begins_of_not_inside hbegins) (ih (by omega) hus)
  | case9 steps position before cs ih =>
    obtain ⟨us, hus, h⟩ := bind_eq_ok_iff.mp h
    obtain rfl := pure_eq_ok_iff.mp h
    exact .anyChar (ih (Nat.le_of_succ_le_succ hsteps) hus)
  | case10 steps position before cs inner rest hinner ih =>
    obtain ⟨us, hus, h⟩ := bind_eq_ok_iff.mp h
    obtain rfl := pure_eq_ok_iff.mp h
    have hlength := (suffix_of_bracketed? hinner).2
    simp only [List.length_cons] at hsteps
    exact .noneOf hinner (ih (by omega) hus)
  | case12 steps position before cs hplain inner rest hinner ih =>
    obtain ⟨us, hus, h⟩ := bind_eq_ok_iff.mp h
    obtain rfl := pure_eq_ok_iff.mp h
    have hlength := (suffix_of_bracketed? hinner).2
    simp only [List.length_cons] at hsteps
    refine .oneOf (fun hhead ↦ ?_) hinner (ih (by omega) hus)
    obtain ⟨others, hothers⟩ := List.head?_eq_some_iff.mp hhead
    exact hplain others hothers
  | case14 steps position before c cs hstar hmark _ hbracket ih =>
    obtain ⟨us, hus, h⟩ := bind_eq_ok_iff.mp h
    obtain rfl := pure_eq_ok_iff.mp h
    exact .char ⟨hstar, hmark, hbracket⟩ (ih (Nat.le_of_succ_le_succ hsteps) hus)
  | case4 | case7 | case8 | case11 | case13 => exact absurd h (by simp)

theorem tokens?_of_lexes (h : Lexes before cs ts) {steps : Nat} (hsteps : cs.length ≤ steps)
    (position : Nat) : tokens? steps position before cs = .ok ts := by
  -- each token takes a character at least, so a step is left for what follows
  induction h generalizing steps position with
  | nil => cases steps <;> rfl
  | @text before cs ts hone _ ih =>
    obtain ⟨steps, rfl⟩ := Nat.exists_eq_add_one_of_ne_zero (Nat.ne_zero_of_lt hsteps)
    have hsame : cs.takeWhile (· == '*') = [] ∧ cs.dropWhile (· == '*') = cs := by
      cases cs with
      | nil => exact ⟨rfl, rfl⟩
      | cons c cs =>
        have hstar : (c == '*') = false := by simpa using hone
        simp [hstar]
    rw [tokens?, hsame.1, hsame.2]
    dsimp only
    rw [ih (Nat.le_of_succ_le_succ hsteps)]
    rfl
  | @last before hbegins =>
    obtain ⟨steps, rfl⟩ := Nat.exists_eq_add_one_of_ne_zero (Nat.ne_zero_of_lt hsteps)
    rcases hbegins with rfl | rfl <;> rfl
  | @folders before cs ts hbegins _ ih =>
    obtain ⟨steps, rfl⟩ := Nat.exists_eq_add_one_of_ne_zero (Nat.ne_zero_of_lt hsteps)
    simp only [List.length_cons] at hsteps
    have hrest := ih (show cs.length ≤ steps by omega) (position + 3)
    rcases hbegins with rfl | rfl <;> simp [tokens?, hrest]
  | anyChar _ ih =>
    obtain ⟨steps, rfl⟩ := Nat.exists_eq_add_one_of_ne_zero (Nat.ne_zero_of_lt hsteps)
    rw [tokens?, ih (Nat.le_of_succ_le_succ hsteps)]
    rfl
  | noneOf hinner _ ih =>
    obtain ⟨steps, rfl⟩ := Nat.exists_eq_add_one_of_ne_zero (Nat.ne_zero_of_lt hsteps)
    have hlength := (suffix_of_bracketed? hinner).2
    simp only [List.length_cons] at hsteps
    rw [tokens?, hinner]
    dsimp only
    rw [ih (by omega)]
    rfl
  | oneOf hplain hinner _ ih =>
    obtain ⟨steps, rfl⟩ := Nat.exists_eq_add_one_of_ne_zero (Nat.ne_zero_of_lt hsteps)
    have hlength := (suffix_of_bracketed? hinner).2
    simp only [List.length_cons] at hsteps
    rw [tokens?, hinner]
    · dsimp only
      rw [ih (by omega)]
      rfl
    · rintro others rfl
      exact hplain rfl
  | char hplain _ ih =>
    obtain ⟨steps, rfl⟩ := Nat.exists_eq_add_one_of_ne_zero (Nat.ne_zero_of_lt hsteps)
    obtain ⟨hstar, hmark, hbracket⟩ := hplain
    rw [tokens?, ih (Nat.le_of_succ_le_succ hsteps)]
    · rfl
    · exact hstar
    · exact hmark
    · exact fun _ h ↦ absurd h hbracket
    · exact hbracket

theorem parse_eq_ok_iff : parse text = .ok p ↔ Lexes none text.toList p.tokens := by
  rw [parse, bind_eq_ok_iff]
  constructor
  · rintro ⟨ts, hts, h⟩
    obtain rfl := pure_eq_ok_iff.mp h
    exact lexes_of_tokens? le_rfl hts
  · exact fun h ↦ ⟨p.tokens, tokens?_of_lexes h le_rfl 0, rfl⟩

/-! ### Components -/

/-- The component that stands for any number of folders. -/
def folders : Pattern := ⟨[.anyFolders]⟩

theorem Lexes.of_begins {other : Option Char} (h : Lexes before cs ts) (hother : Begins other) :
    Lexes other cs ts := by
  cases h with
  | nil => exact .nil other
  | text hone h => exact .text hone h
  | last _ => exact .last hother
  | folders _ h => exact .folders hother h
  | anyChar h => exact .anyChar h
  | noneOf hinner h => exact .noneOf hinner h
  | oneOf hplain hinner h => exact .oneOf hplain hinner h
  | char hplain h => exact .char hplain h

theorem not_begins_some (hc : c ≠ '/') : ¬ Begins (some c) := by
  simpa [Begins] using hc

/-- Recursive folders are all there is to a component. -/
theorem Lexes.of_anyFolders_mem (h : Lexes before cs ts) (hslash : '/' ∉ cs)
    (hmem : .anyFolders ∈ ts) : Begins before ∧ ts = [.anyFolders] := by
  induction h with
  | nil => exact absurd hmem List.not_mem_nil
  | last hbegins => exact ⟨hbegins, rfl⟩
  | folders => simp at hslash
  | text _ _ ih | anyChar _ ih =>
    have hrest := ih (List.not_mem_of_not_mem_cons hslash) (by simpa using hmem)
    exact absurd hrest.1 (not_begins_some (by decide))
  | noneOf hinner _ ih =>
    have hsuffix := (suffix_of_bracketed? hinner).1
    have hrest := ih (fun h ↦ hslash (by simp [hsuffix.subset h])) (by simpa using hmem)
    exact absurd hrest.1 (not_begins_some (by decide))
  | oneOf _ hinner _ ih =>
    have hsuffix := (suffix_of_bracketed? hinner).1
    have hrest := ih (fun h ↦ hslash (by simp [hsuffix.subset h])) (by simpa using hmem)
    exact absurd hrest.1 (not_begins_some (by decide))
  | char _ _ ih =>
    have hrest := ih (List.not_mem_of_not_mem_cons hslash) (by simpa using hmem)
    exact absurd hrest.1 (not_begins_some (Ne.symm (List.ne_of_not_mem_cons hslash)))

theorem Lexes.mem_of_char_mem (h : Lexes before cs ts) (hmem : .char c ∈ ts) : c ∈ cs := by
  induction h with
  | nil => exact absurd hmem List.not_mem_nil
  | last => simp at hmem
  | folders _ _ ih | text _ _ ih | anyChar _ ih =>
    have hrest := ih (by simpa using hmem)
    simp [hrest]
  | noneOf hinner _ ih =>
    have hrest := (suffix_of_bracketed? hinner).1.subset (ih (by simpa using hmem))
    simp [hrest]
  | oneOf _ hinner _ ih =>
    have hrest := (suffix_of_bracketed? hinner).1.subset (ih (by simpa using hmem))
    simp [hrest]
  | char _ _ ih =>
    rcases List.mem_cons.mp hmem with heq | hrest
    · exact Token.char.inj heq ▸ List.mem_cons_self
    · exact List.mem_cons_of_mem _ (ih hrest)

/-- Tokens of a component and of what comes after its slash. -/
def joined (ts us : List Token) : List Token :=
  if .anyFolders ∈ ts then ts ++ us else ts ++ .char '/' :: us

theorem joined_cons {token : Token} (h : token ≠ .anyFolders) (ts us : List Token) :
    joined (token :: ts) us = token :: joined ts us := by
  by_cases hmem : .anyFolders ∈ ts
  · simp [joined, hmem]
  · simp [joined, hmem, h.symm]

/-- A slash between components stands for itself, unless it follows recursive folders. -/
theorem Lexes.append_slash (h : Lexes before cs ts) (hslash : '/' ∉ cs)
    (hmore : Lexes (some '/') more us) : Lexes before (cs ++ '/' :: more) (joined ts us) := by
  induction h with
  | nil => exact .char (by decide) hmore
  | @text before cs ts hone h ih =>
    rw [joined_cons (by simp)]
    refine .text ?_ (ih (List.not_mem_of_not_mem_cons hslash))
    cases cs with
    | nil => simp
    | cons c cs => exact hone
  | last hbegins => exact .folders hbegins hmore
  | folders => simp at hslash
  | anyChar _ ih =>
    rw [joined_cons (by simp)]
    exact .anyChar (ih (List.not_mem_of_not_mem_cons hslash))
  | noneOf hinner _ ih =>
    rw [joined_cons (by simp)]
    have hsuffix := (suffix_of_bracketed? hinner).1
    exact .noneOf (bracketed?_append hinner _) (ih fun h ↦ hslash (by simp [hsuffix.subset h]))
  | oneOf hplain hinner _ ih =>
    rw [joined_cons (by simp)]
    obtain ⟨first, others, rfl, -, -⟩ := bracketed?_eq_some_iff.mp hinner
    refine .oneOf hplain (bracketed?_append hinner _) (ih ?_)
    exact fun hmem ↦ hslash (by simp [hmem])
  | char hplain _ ih =>
    rw [joined_cons (by simp)]
    exact .char hplain (ih (List.not_mem_of_not_mem_cons hslash))

/-- The tokens of a text with these components. -/
def joinTokens : List Pattern → List Token
  | [] => []
  | [p] => p.tokens
  | p :: q :: rest => joined p.tokens (joinTokens (q :: rest))

theorem lexes_intercalate {pieces : List (List Char)} {patterns : List Pattern}
    (hpieces : List.Forall₂ (fun piece (p : Pattern) ↦ Lexes none piece p.tokens) pieces patterns)
    (hslash : ∀ piece ∈ pieces, '/' ∉ piece) (hbegins : Begins before) :
    Lexes before (['/'].intercalate pieces) (joinTokens patterns) := by
  induction hpieces generalizing before with
  | nil => exact .nil before
  | @cons piece p rest others hpiece hrest ih =>
    obtain ⟨hfirst, hothers⟩ := List.forall_mem_cons.mp hslash
    cases hrest with
    | nil =>
      rw [List.intercalate_singleton]
      exact hpiece.of_begins hbegins
    | cons =>
      rw [List.intercalate_cons_cons, List.append_assoc, List.singleton_append]
      exact (hpiece.of_begins hbegins).append_slash hfirst (ih hothers (.inr rfl))

/-- A text is read component by component. -/
theorem lexes_of_segments {patterns : List Pattern} (hbegins : Begins before)
    (h : (Path.segments text).mapM parse = .ok patterns) :
    Lexes before text.toList (joinTokens patterns) := by
  have hall := mapM_eq_ok_iff.mp h
  rw [Path.segments, List.forall₂_map_left_iff] at hall
  have hread : List.Forall₂ (fun piece (p : Pattern) ↦ Lexes none piece p.tokens)
      (Text.pieces '/' text.toList) patterns :=
    hall.imp fun piece p hp ↦ by simpa using parse_eq_ok_iff.mp hp
  have hlexes := lexes_intercalate hread (fun _ ↦ Text.notMem_of_mem_pieces) hbegins
  rwa [Text.pieces_eq_splitOn, List.intercalate_splitOn] at hlexes

theorem Lexes.eq_nil (h : Lexes before cs []) : cs = [] := by
  cases h
  rfl

/-- What a pattern is that one nonempty component is read as. -/
structure IsPart (p : Pattern) : Prop where
  named : ∀ name, p.literal? = some name → name ≠ "" ∧ '/' ∉ name.toList
  recursive : p.isRecursive = true → p = folders

theorem literal?_eq_some_iff {name : String} :
    p.literal? = some name ↔ p.tokens = name.toList.map .char := by
  have hchars : ∀ (ts : List Token) (cs : List Char),
      ts.mapM Token.char? = some cs ↔ ts = cs.map .char := by
    intro ts
    induction ts with
    | nil => simp [eq_comm]
    | cons token ts ih =>
      intro cs
      cases token <;> cases cs <;> simp [Token.char?, Option.bind_eq_some_iff, ih, and_comm]
  rw [literal?, Option.map_eq_some_iff]
  constructor
  · rintro ⟨cs, hcs, rfl⟩
    rw [(hchars _ _).mp hcs, String.toList_ofList]
  · exact fun h ↦ ⟨name.toList, (hchars _ _).mpr h, String.ofList_toList⟩

theorem slash_notMem_of_parse {name : String} (h : parse text = .ok p) (hslash : '/' ∉ text.toList)
    (hname : p.literal? = some name) : '/' ∉ name.toList := by
  intro hmem
  refine hslash ((parse_eq_ok_iff.mp h).mem_of_char_mem (c := '/') ?_)
  rw [literal?_eq_some_iff.mp hname]
  exact List.mem_map_of_mem hmem

theorem isPart_of_parse (h : parse text = .ok p) (hne : text ≠ "") (hslash : '/' ∉ text.toList) :
    p.IsPart := by
  have hlexes := parse_eq_ok_iff.mp h
  constructor
  · intro name hname
    refine ⟨?_, slash_notMem_of_parse h hslash hname⟩
    rintro rfl
    rw [literal?_eq_some_iff.mp hname] at hlexes
    exact hne (String.toList_eq_nil_iff.mp hlexes.eq_nil)
  · intro hrecursive
    obtain ⟨-, hone⟩ := hlexes.of_anyFolders_mem hslash (by simpa [isRecursive] using hrecursive)
    exact congrArg Pattern.mk hone

/-! ### Matching -/

theorem mem_suffixes_iff : more ∈ suffixes cs ↔ more <:+ cs := by
  induction cs with
  | nil => simp [suffixes]
  | cons c cs ih => rw [suffixes, List.mem_cons, ih, List.suffix_cons_iff]

theorem mem_afterSlashes_iff : more ∈ afterSlashes cs ↔ ('/' :: more) <:+ cs := by
  induction cs with
  | nil => simp [afterSlashes]
  | cons c cs ih =>
    rw [afterSlashes, List.suffix_cons_iff, ← ih]
    by_cases hc : c = '/'
    · simp [hc]
    · simp [hc, Ne.symm hc]

theorem matchesTokens_anyText_iff : matchesTokens (.anyText :: ts) cs = true ↔
    ∃ more, more <:+ cs ∧ matchesTokens ts more = true := by
  simp only [matchesTokens, List.any_eq_true, mem_suffixes_iff]

theorem matchesTokens_anyFolders_iff : matchesTokens (.anyFolders :: ts) cs = true ↔
    ts = [] ∨ matchesTokens ts cs = true ∨
      ∃ more, ('/' :: more) <:+ cs ∧ matchesTokens ts more = true := by
  cases ts with
  | nil => simp [matchesTokens]
  | cons token ts => simp [matchesTokens, mem_afterSlashes_iff]

theorem matchesTokens_cons_iff {token : Token} (htext : token ≠ .anyText)
    (hfolders : token ≠ .anyFolders) : matchesTokens (token :: ts) cs = true ↔
      ∃ c more, cs = c :: more ∧ token.accepts c = true ∧ matchesTokens ts more = true := by
  cases token <;> cases cs <;> simp_all [matchesTokens]

/-- What two lists of tokens stand for one after the other, the first without folders. -/
theorem matchesTokens_append (hfree : .anyFolders ∉ ts) (hts : matchesTokens ts cs = true)
    (hus : matchesTokens us more = true) : matchesTokens (ts ++ us) (cs ++ more) = true := by
  induction ts generalizing cs with
  | nil =>
    obtain rfl : cs = [] := by simpa [matchesTokens] using hts
    exact hus
  | cons token ts ih =>
    obtain ⟨hne, hrest⟩ := not_or.mp (List.mem_cons.not.mp hfree)
    by_cases htext : token = .anyText
    · subst htext
      obtain ⟨last, ⟨first, rfl⟩, hlast⟩ := matchesTokens_anyText_iff.mp hts
      refine matchesTokens_anyText_iff.mpr ⟨last ++ more, ⟨first, ?_⟩, ih hrest hlast⟩
      exact (List.append_assoc _ _ _).symm
    · obtain ⟨c, last, rfl, haccepts, hlast⟩ :=
        (matchesTokens_cons_iff htext (Ne.symm hne)).mp hts
      exact (matchesTokens_cons_iff htext (Ne.symm hne)).mpr
        ⟨c, last ++ more, rfl, haccepts, ih hrest hlast⟩

theorem isMatch_of_literal? {name : String} (h : p.literal? = some name) :
    p.isMatch name = true := by
  rw [isMatch_eq, literal?_eq_some_iff.mp h]
  induction name.toList with
  | nil => rfl
  | cons c cs ih =>
    rw [List.map_cons]
    exact (matchesTokens_cons_iff (by simp) (by simp)).mpr ⟨c, cs, rfl, by simp [Token.accepts], ih⟩

/-! ### Matching component by component -/

variable {q : Pattern} {patterns others : List Pattern} {name : String}

/-- What follows the first component. -/
theorem matchesTokens_joinTokens_cons (hp : p.isRecursive = false) (hname : p.isMatch name = true)
    (hne : patterns ≠ []) (h : matchesTokens (joinTokens patterns) cs = true) :
    matchesTokens (joinTokens (p :: patterns)) (name.toList ++ '/' :: cs) = true := by
  obtain ⟨q, rest, rfl⟩ := List.exists_cons_of_ne_nil hne
  have hfree : .anyFolders ∉ p.tokens := by simpa [isRecursive] using hp
  rw [isMatch_eq] at hname
  rw [joinTokens, joined, if_neg hfree]
  refine matchesTokens_append hfree hname ?_
  exact (matchesTokens_cons_iff (by simp) (by simp)).mpr ⟨'/', cs, rfl, by decide, h⟩

theorem joinTokens_folders :
    joinTokens (folders :: patterns) = .anyFolders :: joinTokens patterns := by
  cases patterns <;> rfl

/-- Recursive components may stand for nothing. -/
theorem matchesTokens_joinTokens_of_dropWhile (hparts : ∀ p ∈ patterns, p.IsPart)
    (h : matchesTokens (joinTokens (patterns.dropWhile isRecursive)) cs = true) :
    matchesTokens (joinTokens patterns) cs = true := by
  induction patterns with
  | nil => exact h
  | cons p rest ih =>
    obtain ⟨hpart, hrest⟩ := List.forall_mem_cons.mp hparts
    cases hp : p.isRecursive with
    | true =>
      rw [List.dropWhile_cons_of_pos hp] at h
      rw [hpart.recursive hp, joinTokens_folders, matchesTokens_anyFolders_iff]
      exact .inr (.inl (ih hrest h))
    | false => rwa [List.dropWhile_cons_of_neg (by simpa using hp)] at h

/-- Recursive components at the end stand for anything. -/
theorem matchesTokens_joinTokens_of_recursive (hparts : ∀ p ∈ patterns, p.IsPart)
    (hne : patterns ≠ []) (hend : patterns.dropWhile isRecursive = []) :
    matchesTokens (joinTokens patterns) cs = true := by
  induction patterns with
  | nil => exact absurd rfl hne
  | cons p rest ih =>
    obtain ⟨hpart, hrest⟩ := List.forall_mem_cons.mp hparts
    obtain ⟨hp, hlast⟩ := List.forall_mem_cons.mp (List.dropWhile_eq_nil_iff.mp hend)
    rw [hpart.recursive hp, joinTokens_folders, matchesTokens_anyFolders_iff]
    by_cases hnil : rest = []
    · exact .inl (by rw [hnil]; rfl)
    · exact .inr (.inl (ih hrest hnil (List.dropWhile_eq_nil_iff.mpr hlast)))

/-- Recursive components may stand for one more folder. -/
theorem matchesTokens_joinTokens_deeper
    (h : matchesTokens (joinTokens (folders :: patterns)) cs = true) (name : String) :
    matchesTokens (joinTokens (folders :: patterns)) (name.toList ++ '/' :: cs) = true := by
  rw [joinTokens_folders, matchesTokens_anyFolders_iff] at h ⊢
  rcases h with hnil | hcs | ⟨more, hmore, h⟩
  · exact .inl hnil
  · exact .inr (.inr ⟨cs, List.suffix_append _ _, hcs⟩)
  · have hlonger : cs <:+ name.toList ++ '/' :: cs :=
      (List.suffix_cons '/' cs).trans (List.suffix_append _ _)
    exact .inr (.inr ⟨more, hmore.trans hlonger, h⟩)

end ClassMap.Pattern
