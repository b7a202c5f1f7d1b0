import ComponentMarkers.Source.Token

/-!
# Tokens nested by their brackets

The reader sees a source as trees: single tokens, and groups of trees between a pair of brackets.  A
body is one group, so what stands in it cannot be taken for what stands around it.

Sources with unpaired brackets have trees too.  A closing bracket ends the innermost open group of its
kind, and with it the groups opened since; where no group of its kind is open it is dropped.  Groups
still open at the end of the source end there.  Of what follows a round or square bracket that is never
closed only the begin is taken to be inside it.
-/

namespace ComponentMarkers.Source

/-- A token, or a pair of brackets and what is between them.  A group that was never closed has no
closing token. -/
inductive Tree where
  | leaf (token : Token)
  | group (bracket : Bracket) (opening : Token) (inner : List Tree) (closing : Option Token)
  deriving Repr

namespace Tree

/-- The token a tree begins with. -/
def first : Tree → Token
  | leaf token => token
  | group _ opening _ _ => opening

/-- The word a tree consists of. -/
def word? : Tree → Option String
  | leaf ⟨_, .word text⟩ => some text
  | _ => none

/-- The tree is the word `text`. -/
def isWord (text : String) (tree : Tree) : Bool :=
  tree.word? == some text

/-- The tree is the symbol `char`. -/
def isSymbol (char : Char) : Tree → Bool
  | leaf ⟨_, .symbol c⟩ => c == char
  | _ => false

/-- The tree is a group in brackets of the given kind. -/
def isGroup (bracket : Bracket) : Tree → Bool
  | group kind _ _ _ => kind == bracket
  | _ => false

mutual

/-- The tree as written, with the comments before and inside it. -/
def written : Tree → String
  | leaf token => token.written
  | group _ opening inner closing =>
    opening.written ++ writtenAll inner ++ (closing.map Token.written).getD ""

/-- Trees one after the other as written. -/
def writtenAll : List Tree → String
  | [] => ""
  | tree :: trees => tree.written ++ writtenAll trees

end

mutual

/-- How many groups stand inside one another. -/
def depth : Tree → Nat
  | leaf _ => 0
  | group _ _ inner _ => depthAll inner + 1

/-- The greatest depth of some trees. -/
def depthAll : List Tree → Nat
  | [] => 0
  | tree :: trees => max tree.depth (depthAll trees)

end

end Tree

/-- A group that has been opened: its bracket, and the trees read before it, last one first. -/
structure OpenGroup where
  bracket : Bracket
  opening : Token
  earlier : List Tree
  deriving Repr

/-- What follows a bracket that is never closed: the trees inside it and the trees after it.  A curly
bracket has everything inside, a round one what comes before a block or a semicolon, and a square one
nothing. -/
def splitUnclosed : Bracket → List Tree → List Tree × List Tree
  | .curly, trees => (trees, [])
  | .round, trees => trees.span fun tree => !(tree.isSymbol ';' || tree.isGroup .curly)
  | .square, trees => ([], trees)

namespace OpenGroup

/-- The trees up to and with the group, last one first, when `inner` was read inside it and `closing`
closes it. -/
def close (frame : OpenGroup) (inner : List Tree) (closing : Token) : List Tree :=
  .group frame.bracket frame.opening inner.reverse (some closing) :: frame.earlier

/-- The trees read so far, last one first, when `inner` follows the bracket of a group that is never
closed. -/
def abandon (frame : OpenGroup) (inner : List Tree) : List Tree :=
  let (inside, after) := splitUnclosed frame.bracket inner.reverse
  after.reverse ++ .group frame.bracket frame.opening inside none :: frame.earlier

end OpenGroup

/-- Ends all groups that are still open. -/
def closeAll : (current : List Tree) → List OpenGroup → List Tree
  | current, [] => current.reverse
  | current, frame :: frames => closeAll (frame.abandon current) frames

/-- Ends the groups opened since the innermost one of the given kind, and that one with `closing`. -/
def closeThrough (bracket : Bracket) (closing : Token) :
    (current : List Tree) → List OpenGroup → List Tree × List OpenGroup
  | current, [] => (current, [])
  | current, frame :: frames =>
    if frame.bracket = bracket then
      (frame.close current closing, frames)
    else
      closeThrough bracket closing (frame.abandon current) frames

/-- The trees of the tokens, given the trees read so far in the innermost open group, last one
first, and the open groups, innermost first. -/
def nestFrom : (current : List Tree) → List OpenGroup → List Token → List Tree
  | current, frames, [] => closeAll current frames
  | current, frames, token :: rest =>
    match Bracket.opening? token.lexeme, Bracket.closing? token.lexeme with
    | some bracket, _ => nestFrom [] (⟨bracket, token, current⟩ :: frames) rest
    | none, some bracket =>
      if frames.any fun frame => frame.bracket = bracket then
        let (current, frames) := closeThrough bracket token current frames
        nestFrom current frames rest
      else
        nestFrom current frames rest
    | none, none => nestFrom (.leaf token :: current) frames rest

/-- The trees of a row of tokens. -/
def nest (tokens : List Token) : List Tree :=
  nestFrom [] [] tokens

end ComponentMarkers.Source
