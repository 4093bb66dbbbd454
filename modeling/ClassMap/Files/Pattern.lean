/-!
File name patterns: `*` stands for any text, `?` for any character, brackets for one of some
characters, and `**` for any number of folders where it is a whole component.
-/

set_option autoImplicit false
set_option relaxedAutoImplicit false

namespace ClassMap

/-- Some characters, as single ones and ranges with both ends. -/
inductive CharSet where
  | one (c : Char)
  | range (first last : Char)
deriving DecidableEq, Repr

inductive Token where
  | char (c : Char)
  | anyChar
  | anyText
  | anyFolders
  | oneOf (sets : List CharSet)
  | noneOf (sets : List CharSet)
deriving DecidableEq, Repr

def Token.char? : Token → Option Char
  | .char c => some c
  | _ => none

/-- What makes a text no pattern. -/
inductive PatternFault where
  | tooManyStars
  | partialComponent
  | badRange
deriving DecidableEq, Repr

def PatternFault.message : PatternFault → String
  | tooManyStars => "wildcards are either regular \x60*\x60 or recursive \x60**\x60"
  | partialComponent => "recursive wildcards must form a single path component"
  | badRange => "invalid range pattern"

/-- A fault with the character it is found at. -/
structure PatternError where
  position : Nat
  fault : PatternFault
deriving DecidableEq, Repr

def PatternError.message (e : PatternError) : String :=
  "Pattern syntax error near position " ++ e.position.repr ++ ": " ++ e.fault.message

structure Pattern where
  tokens : List Token
deriving DecidableEq, Repr

namespace CharSet

def contains (c : Char) : CharSet → Bool
  | one d => c == d
  | range first last => first ≤ c && c ≤ last

/-- The characters between two brackets. -/
def parse : List Char → List CharSet
  | a :: '-' :: b :: rest => .range a b :: parse rest
  | a :: rest => .one a :: parse rest
  | [] => []

end CharSet

/-- Whether a token for one character stands for this one. -/
def Token.accepts (c : Char) : Token → Bool
  | .char a => a == c
  | .anyChar => true
  | .oneOf sets => sets.any (·.contains c)
  | .noneOf sets => !sets.any (·.contains c)
  | .anyText | .anyFolders => false

/-- What ends with the first closing bracket after at least one character, and the rest. -/
def bracketed? : List Char → Option (List Char × List Char)
  | [] => none
  | first :: cs =>
    match cs.dropWhile (· != ']') with
    | _ :: rest => some (first :: cs.takeWhile (· != ']'), rest)
    | [] => none

namespace Pattern

/-- The tokens of a text, from the given position on and after the given character. -/
def tokens? : Nat → Nat → Option Char → List Char → Except PatternError (List Token)
  | 0, _, _, _ => .ok []
  | _ + 1, _, _, [] => .ok []
  | steps + 1, position, before, '*' :: cs =>
    let more := cs.takeWhile (· == '*')
    let rest := cs.dropWhile (· == '*')
    match more with
    | [] => do return .anyText :: (← tokens? steps (position + 1) (some '*') rest)
    | [_] =>
      if before.isSome && before != some '/' then .error ⟨position - 1, .partialComponent⟩
      else match rest with
        | [] => .ok [.anyFolders]
        | '/' :: rest => do return .anyFolders :: (← tokens? steps (position + 3) (some '/') rest)
        | _ => .error ⟨position + 2, .partialComponent⟩
    | _ => .error ⟨position + 2, .tooManyStars⟩
  | steps + 1, position, _, '?' :: cs => do
    return .anyChar :: (← tokens? steps (position + 1) (some '?') cs)
  | steps + 1, position, _, '[' :: '!' :: cs =>
    match bracketed? cs with
    | some (inner, rest) => do
      return .noneOf (CharSet.parse inner) ::
        (← tokens? steps (position + inner.length + 3) (some ']') rest)
    | none => .error ⟨position, .badRange⟩
  | steps + 1, position, _, '[' :: cs =>
    match bracketed? cs with
    | some (inner, rest) => do
      return .oneOf (CharSet.parse inner) ::
        (← tokens? steps (position + inner.length + 2) (some ']') rest)
    | none => .error ⟨position, .badRange⟩
  | steps + 1, position, _, c :: cs => do
    return .char c :: (← tokens? steps (position + 1) (some c) cs)

def parse (text : String) : Except PatternError Pattern := do
  return ⟨← tokens? text.toList.length 0 none text.toList⟩

/-- A text and what is left of it after each of its characters. -/
def suffixes : List Char → List (List Char)
  | [] => [[]]
  | c :: rest => (c :: rest) :: suffixes rest

/-- What is left of a text after each of its slashes. -/
def afterSlashes : List Char → List (List Char)
  | [] => []
  | c :: rest => if c == '/' then rest :: afterSlashes rest else afterSlashes rest

/-- Whether the tokens stand for the whole text. Slashes are characters like any other. Folders at
the end stand for all that is in them. -/
def matchesTokens : List Token → List Char → Bool
  | [], cs => cs.isEmpty
  | [.anyFolders], _ => true
  | .anyText :: tokens, cs => (suffixes cs).any (matchesTokens tokens)
  | .anyFolders :: tokens, cs => (cs :: afterSlashes cs).any (matchesTokens tokens)
  | token :: tokens, c :: cs => token.accepts c && matchesTokens tokens cs
  | _ :: _, [] => false

/-! A match is found for all suffixes of the text at once, from the last token to the first, so
that each token is looked at once, however many stars there are. The suffixes are in the order of
`suffixes`. -/

/-- What holds for a suffix or for a shorter one. -/
def orLater : List Bool → List Bool
  | [] => []
  | here :: later =>
    let rest := orLater later
    (here || rest.headD false) :: rest

/-- What holds after the first character of a suffix, if that is one of those asked for. -/
def afterChar (isAsked : Char → Bool) : List Char → List Bool → List Bool
  | c :: cs, _ :: later => (isAsked c && later.headD false) :: afterChar isAsked cs later
  | _, _ => [false]

/-- What holds after one of the slashes of a suffix. -/
def afterSlash : List Char → List Bool → List Bool
  | c :: cs, _ :: later =>
    let rest := afterSlash cs later
    ((c == '/' && later.headD false) || rest.headD false) :: rest
  | _, _ => [false]

/-- Whether the tokens stand for a suffix of the text, for each of its suffixes. -/
def matchesSuffixes : List Token → List Char → List Bool
  | [], cs => (suffixes cs).map (·.isEmpty)
  | [.anyFolders], cs => (suffixes cs).map fun _ ↦ true
  | .anyText :: tokens, cs => orLater (matchesSuffixes tokens cs)
  | .anyFolders :: tokens, cs =>
    let found := matchesSuffixes tokens cs
    List.zipWith or found (afterSlash cs found)
  | token :: tokens, cs => afterChar (token.accepts ·) cs (matchesSuffixes tokens cs)

def isMatch (p : Pattern) (text : String) : Bool :=
  (matchesSuffixes p.tokens text.toList).headD false

theorem headD_map_suffixes (f : List Char → Bool) (cs : List Char) :
    ((suffixes cs).map f).headD false = f cs := by
  cases cs <;> rfl

theorem orLater_map (f : List Char → Bool) (cs : List Char) :
    orLater ((suffixes cs).map f) = (suffixes cs).map fun s ↦ (suffixes s).any f := by
  induction cs with
  | nil => simp [suffixes, orLater]
  | cons c cs ih =>
    simp only [suffixes, List.map_cons, orLater, ih, headD_map_suffixes, List.any_cons]

theorem afterChar_map (isAsked : Char → Bool) (f : List Char → Bool) (cs : List Char) :
    afterChar isAsked cs ((suffixes cs).map f) = (suffixes cs).map fun
      | c :: rest => isAsked c && f rest
      | [] => false := by
  induction cs with
  | nil => simp [suffixes, afterChar]
  | cons c cs ih =>
    simp only [suffixes, List.map_cons, afterChar, ih, headD_map_suffixes]

theorem afterSlash_map (f : List Char → Bool) (cs : List Char) :
    afterSlash cs ((suffixes cs).map f) = (suffixes cs).map fun s ↦ (afterSlashes s).any f := by
  induction cs with
  | nil => simp [suffixes, afterSlash, afterSlashes]
  | cons c cs ih =>
    simp only [suffixes, List.map_cons, afterSlash, ih, headD_map_suffixes, afterSlashes]
    split <;> simp_all

theorem matchesSuffixes_eq (tokens : List Token) (cs : List Char) :
    matchesSuffixes tokens cs = (suffixes cs).map (matchesTokens tokens) := by
  fun_induction matchesSuffixes tokens cs with
  | case1 cs => exact List.map_congr_left fun s _ ↦ by simp [matchesTokens]
  | case2 cs => exact List.map_congr_left fun s _ ↦ by simp [matchesTokens]
  | case3 tokens cs ih =>
    rw [ih, orLater_map]
    exact List.map_congr_left fun s _ ↦ by simp [matchesTokens]
  | case4 tokens cs hend found ih =>
    simp only [found]
    rw [ih, afterSlash_map, List.zipWith_map, List.zipWith_self]
    refine List.map_congr_left fun s _ ↦ ?_
    cases tokens with
    | nil => exact absurd rfl hend
    | cons token tokens => simp [matchesTokens]
  | case5 token tokens cs hend htext hfolders ih =>
    rw [ih, afterChar_map]
    refine List.map_congr_left fun s _ ↦ ?_
    cases token <;> cases s <;> simp_all [matchesTokens]

theorem isMatch_eq (p : Pattern) (text : String) :
    p.isMatch text = matchesTokens p.tokens text.toList := by
  rw [isMatch, matchesSuffixes_eq, headD_map_suffixes]

/-- Whether the pattern stands for any number of folders. -/
def isRecursive (p : Pattern) : Bool :=
  p.tokens.contains .anyFolders

/-- The one text that a pattern without special characters stands for. -/
def literal? (p : Pattern) : Option String :=
  (p.tokens.mapM Token.char?).map String.ofList

end Pattern

/-- Whether a text has a star or a question mark and so is searched for as a pattern. -/
def hasWildcard (text : String) : Bool :=
  text.toList.any fun c ↦ c == '*' || c == '?'

end ClassMap
