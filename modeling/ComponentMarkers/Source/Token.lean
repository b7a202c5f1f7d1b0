/-!
# Tokens of Java sources

A token keeps, beside what it is, the comments that stand between it and the token before it.  All
but two rules of the reader look at the token alone; a dotted name takes the comments inside it along,
and an `extends` clause that opens with a comment names no class.
-/

namespace ComponentMarkers.Source

/-- What a token is. -/
inductive Lexeme where
  /-- An identifier or a keyword. -/
  | word (text : String)
  /-- A number. -/
  | number (text : String)
  /-- A character, string or text-block literal with its quotes. -/
  | quoted (text : String)
  /-- A bracket, a separator or one character of an operator. -/
  | symbol (char : Char)
  deriving DecidableEq, Repr

namespace Lexeme

/-- The characters of the token. -/
def text : Lexeme → String
  | word text => text
  | number text => text
  | quoted text => text
  | symbol char => String.singleton char

end Lexeme

/-- A token and the comments before it, characters that belong to no token among them. -/
structure Token where
  before : List String
  lexeme : Lexeme
  deriving DecidableEq, Repr

namespace Token

/-- The token without what stands before it. -/
def text (token : Token) : String :=
  token.lexeme.text

/-- The token after what stands before it. -/
def written (token : Token) : String :=
  String.join token.before ++ token.text

end Token

/-- The three kinds of brackets. -/
inductive Bracket where
  | round
  | square
  | curly
  deriving DecidableEq, Repr

namespace Bracket

/-- The kind of bracket a token opens. -/
def opening? : Lexeme → Option Bracket
  | .symbol '(' => some round
  | .symbol '[' => some square
  | .symbol '{' => some curly
  | _ => none

/-- The kind of bracket a token closes. -/
def closing? : Lexeme → Option Bracket
  | .symbol ')' => some round
  | .symbol ']' => some square
  | .symbol '}' => some curly
  | _ => none

end Bracket

end ComponentMarkers.Source
