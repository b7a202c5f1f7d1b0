import ComponentMarkers.Source.Token
import ComponentMarkers.Text.Blank
import ComponentMarkers.Text.NameCharacters

/-!
# From source text to tokens

The lexer takes one piece off the text at a time: a blank, a comment, a stray character or a lexeme.
Comments and stray characters are kept with the lexeme that follows them.  Every piece takes at least
one character, so the whole text is read.
-/

namespace ComponentMarkers.Source

open ComponentMarkers.Text

/-- What the text begins with. -/
inductive Piece where
  | blank
  /-- A comment, or a character that belongs to no token. -/
  | remark (text : String)
  | lexeme (lexeme : Lexeme)
  deriving DecidableEq, Repr

/-- What the scan of a string literal is inside of.  Code in braces may stand inside a literal and
literals inside that code. -/
inductive Inside where
  | quotes
  | textBlock
  | code
  deriving DecidableEq, Repr

/-- The rest of a literal and the text after it.  `inside` lists what is open, innermost first, and
`seen` holds the characters read so far, last one first. -/
def literalEnd : (inside : List Inside) → (seen : List Char) → List Char →
    Option (List Char × List Char)
  | [], seen, rest => some (seen.reverse, rest)
  | .code :: outer, seen, '"' :: '"' :: '"' :: rest =>
    literalEnd (.textBlock :: .code :: outer) ('"' :: '"' :: '"' :: seen) rest
  | .code :: outer, seen, '"' :: rest => literalEnd (.quotes :: .code :: outer) ('"' :: seen) rest
  | .code :: outer, seen, '{' :: rest => literalEnd (.code :: .code :: outer) ('{' :: seen) rest
  | .code :: outer, seen, '}' :: rest => literalEnd outer ('}' :: seen) rest
  | .code :: outer, seen, c :: rest => literalEnd (.code :: outer) (c :: seen) rest
  | literal :: outer, seen, '\\' :: '{' :: rest =>
    literalEnd (.code :: literal :: outer) ('{' :: '\\' :: seen) rest
  | literal :: outer, seen, '\\' :: c :: rest =>
    literalEnd (literal :: outer) (c :: '\\' :: seen) rest
  | .textBlock :: outer, seen, '"' :: '"' :: '"' :: rest =>
    literalEnd outer ('"' :: '"' :: '"' :: seen) rest
  | .quotes :: outer, seen, '"' :: rest => literalEnd outer ('"' :: seen) rest
  | literal :: outer, seen, c :: rest => literalEnd (literal :: outer) (c :: seen) rest
  | _ :: _, _, [] => none

/-- The rest of a character literal and the text after it, none when the line ends before. -/
def characterEnd : (seen : List Char) → List Char → Option (List Char × List Char)
  | _, [] => none
  | seen, '\\' :: c :: rest => characterEnd (c :: '\\' :: seen) rest
  | seen, '\'' :: rest => some (('\'' :: seen).reverse, rest)
  | seen, c :: rest => if c = '\n' then none else characterEnd (c :: seen) rest

/-- The rest of a block comment and the text after it, none when the comment is not closed. -/
def commentEnd : (seen : List Char) → List Char → Option (List Char × List Char)
  | _, [] => none
  | seen, '*' :: '/' :: rest => some (('/' :: '*' :: seen).reverse, rest)
  | seen, c :: rest => commentEnd (c :: seen) rest

/-- The characters that are tokens by themselves. -/
def isSymbol (c : Char) : Bool :=
  "(){}[];,.@=<>!~?:&|+-*/^%".toList.contains c

/-- The text `word` at the head of the characters, and what follows it. -/
def afterText? : (word : List Char) → List Char → Option (List Char)
  | [], rest => some rest
  | w :: word, c :: rest => if w = c then afterText? word rest else none
  | _ :: _, [] => none

/-- A stray character. -/
def stray (c : Char) : Piece :=
  .remark (String.singleton c)

/-- A literal that starts with `opening`, if it is closed. -/
def literalPiece (inside : Inside) (opening rest : List Char) : Option (Piece × List Char) :=
  (literalEnd [inside] opening.reverse rest).map fun (text, rest) =>
    (.lexeme (.quoted (String.ofList text)), rest)

/-- What follows `-sealed` at the head of the characters, if the word `sealed` ends there. -/
def afterSealed? (rest : List Char) : Option (List Char) :=
  (afterText? "-sealed".toList rest).filter fun after => !after.head?.any isNamePart

/-- The name that starts with `c`.  The modifier `non-sealed` is one word. -/
def namePiece (c : Char) (rest : List Char) : Piece × List Char :=
  let name := c :: rest.takeWhile isNamePart
  let rest := rest.dropWhile isNamePart
  match if name = "non".toList then afterSealed? rest else none with
  | some rest => (.lexeme (.word "non-sealed"), rest)
  | none => (.lexeme (.word (String.ofList name)), rest)

/-- The comment, literal or `@interface` that starts with the character `c`, none when there is none or
when it is not closed. -/
def markedPiece? (c : Char) (rest : List Char) : Option (Piece × List Char) :=
  match c, rest with
  | '/', '/' :: tail =>
    some (.remark (String.ofList ('/' :: '/' :: tail.takeWhile (· ≠ '\n'))),
      tail.dropWhile (· ≠ '\n'))
  | '/', '*' :: tail =>
    (commentEnd ['*', '/'] tail).map fun (text, rest) => (.remark (String.ofList text), rest)
  | '"', '"' :: '"' :: tail => literalPiece .textBlock ['"', '"', '"'] tail
  | '"', tail => literalPiece .quotes ['"'] tail
  | '\'', tail =>
    (characterEnd ['\''] tail).map fun (text, rest) =>
      (.lexeme (.quoted (String.ofList text)), rest)
  | '@', tail =>
    (afterText? "interface".toList tail).map fun rest => (.lexeme (.word "@interface"), rest)
  | _, _ => none

/-- The piece that starts with the character `c`, and the characters after it. -/
def nextPiece (c : Char) (rest : List Char) : Piece × List Char :=
  if isBlank c then
    (.blank, rest)
  else if isNameStart c then
    namePiece c rest
  else if c.isDigit then
    (.lexeme (.number (String.ofList (c :: rest.takeWhile fun d => isNamePart d || d == '.'))),
      rest.dropWhile fun d => isNamePart d || d == '.')
  else
    match markedPiece? c rest with
    | some result => result
    | none => (if isSymbol c then .lexeme (.symbol c) else stray c, rest)

theorem literalEnd_length {inside : List Inside} {seen rest : List Char}
    {text after : List Char} (h : literalEnd inside seen rest = some (text, after)) :
    after.length ≤ rest.length := by
  fun_induction literalEnd inside seen rest
  case case1 =>
    cases h
    exact Nat.le_refl _
  -- Three quotes, then an escaped character, then a single one.
  case case2 ih | case9 ih => exact Nat.le_add_right_of_le (k := 3) (ih h)
  case case7 ih | case8 ih => exact Nat.le_add_right_of_le (k := 2) (ih h)
  case case3 ih | case4 ih | case5 ih | case6 ih | case10 ih | case11 ih =>
    exact Nat.le_succ_of_le (ih h)
  case case12 => cases h

theorem characterEnd_length {seen rest text after : List Char}
    (h : characterEnd seen rest = some (text, after)) : after.length ≤ rest.length := by
  fun_induction characterEnd seen rest with
  | case1 => cases h
  | case2 seen c rest ih => exact Nat.le_succ_of_le (Nat.le_succ_of_le (ih h))
  | case3 =>
    cases h
    exact Nat.le_succ _
  | case4 => cases h
  | case5 seen c rest _ _ _ ih => exact Nat.le_succ_of_le (ih h)

theorem commentEnd_length {seen rest text after : List Char}
    (h : commentEnd seen rest = some (text, after)) : after.length ≤ rest.length := by
  fun_induction commentEnd seen rest with
  | case1 => cases h
  | case2 =>
    cases h
    exact Nat.le_succ_of_le (Nat.le_succ _)
  | case3 seen c rest _ ih => exact Nat.le_succ_of_le (ih h)

theorem afterText?_length {word rest after : List Char}
    (h : afterText? word rest = some after) : after.length ≤ rest.length := by
  fun_induction afterText? word rest with
  | case1 => exact Nat.le_of_eq (congrArg List.length (Option.some.inj h).symm)
  | case2 word c rest ih => exact Nat.le_succ_of_le (ih h)
  | case3 => cases h
  | case4 => cases h

theorem length_dropWhile_le (p : Char → Bool) (cs : List Char) :
    (cs.dropWhile p).length ≤ cs.length :=
  (List.dropWhile_suffix p).length_le

theorem namePiece_length (c : Char) (rest : List Char) :
    (namePiece c rest).2.length ≤ rest.length := by
  unfold namePiece
  have hdrop := length_dropWhile_le isNamePart rest
  dsimp only
  split
  · rename_i after h
    split at h
    · have := afterText?_length (Option.filter_eq_some_iff.1 h).1
      simp only
      omega
    · simp at h
  · exact hdrop

theorem markedPiece?_length {c : Char} {rest after : List Char} {piece : Piece}
    (h : markedPiece? c rest = some (piece, after)) : after.length ≤ rest.length := by
  unfold markedPiece? at h
  split at h
  · cases h
    simp only [List.length_cons]
    exact Nat.le_succ_of_le (length_dropWhile_le _ _)
  · obtain ⟨⟨text, tail⟩, hend, heq⟩ := Option.map_eq_some_iff.1 h
    have := commentEnd_length hend
    cases heq
    simp only [List.length_cons]
    omega
  · obtain ⟨⟨text, tail⟩, hend, heq⟩ := Option.map_eq_some_iff.1 h
    have := literalEnd_length hend
    cases heq
    simp only [List.length_cons]
    omega
  · obtain ⟨⟨text, tail⟩, hend, heq⟩ := Option.map_eq_some_iff.1 h
    cases heq
    exact literalEnd_length hend
  · obtain ⟨⟨text, tail⟩, hend, heq⟩ := Option.map_eq_some_iff.1 h
    cases heq
    exact characterEnd_length hend
  · obtain ⟨tail, hend, heq⟩ := Option.map_eq_some_iff.1 h
    cases heq
    exact afterText?_length hend
  · cases h

theorem nextPiece_length (c : Char) (rest : List Char) :
    (nextPiece c rest).2.length ≤ rest.length := by
  unfold nextPiece
  split
  · exact Nat.le_refl _
  split
  · exact namePiece_length c rest
  split
  · exact length_dropWhile_le _ rest
  split
  · rename_i h
    exact markedPiece?_length h
  · exact Nat.le_refl _

/-- The tokens of a text, `before` holding the remarks since the last token, last one first. -/
def tokensFrom (before : List String) : List Char → List Token
  | [] => []
  | c :: rest =>
    match (nextPiece c rest).1 with
    | .blank => tokensFrom before (nextPiece c rest).2
    | .remark text => tokensFrom (text :: before) (nextPiece c rest).2
    | .lexeme lexeme => ⟨before.reverse, lexeme⟩ :: tokensFrom [] (nextPiece c rest).2
  termination_by cs => cs.length
  decreasing_by
    all_goals
      have := nextPiece_length c rest
      simp only [List.length_cons]
      omega

/-- The tokens of a source.  A byte-order mark at its start is no part of it. -/
def tokens (source : String) : List Token :=
  match source.toList with
  | '\uFEFF' :: rest => tokensFrom [] rest
  | characters => tokensFrom [] characters

end ComponentMarkers.Source
