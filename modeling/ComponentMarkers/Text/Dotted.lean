/-!
# Dotted names

A dotted name is read as the list of the segments between its dots, as many as it has dots and one
more.  The functions here take such names apart and put them together.
-/

namespace ComponentMarkers.Text

/-- The pieces of a list between the entries equal to `mark`, in order. -/
def splitAt [DecidableEq α] (mark : α) : List α → List (List α)
  | [] => [[]]
  | x :: xs =>
    if x = mark then
      [] :: splitAt mark xs
    else
      match splitAt mark xs with
      | [] => [[x]]
      | piece :: pieces => (x :: piece) :: pieces

/-- The pieces of a text between the characters equal to `mark`. -/
def splitText (mark : Char) (s : String) : List String :=
  (splitAt mark s.toList).map String.ofList

/-- The segments of a dotted name. -/
def segments (name : String) : List String :=
  splitText '.' name

/-- The text after the last dot, the whole text when there is none. -/
def lastSegment (name : String) : String :=
  ((segments name).getLast?).getD ""

/-- The text before the last dot and the text after it, none when there is no dot. -/
def splitLast? (name : String) : Option (String × String) :=
  match (segments name).reverse with
  | last :: earlier@(_ :: _) => some (".".intercalate earlier.reverse, last)
  | _ => none

/-- The text before the first dot and the text after it, none when there is no dot. -/
def splitFirst? (name : String) : Option (String × String) :=
  match segments name with
  | first :: rest@(_ :: _) => some (first, ".".intercalate rest)
  | _ => none

/-- `name` inside `owner`: joined by a dot, or `name` alone when the owner has no name. -/
def qualify (owner name : String) : String :=
  if owner.isEmpty then name else owner ++ "." ++ name

end ComponentMarkers.Text
