import ComponentMarkers.Json.Text

/-!
# Values that are passed over

A field that nobody asked for may hold any value.  Such a value is checked for its form and forgotten.
-/

namespace ComponentMarkers.JsonText

/-- What may come next while a value is passed over. -/
inductive Expected where
  /-- A value. -/
  | value
  /-- An entry or the end of the innermost array or object, which has no entries yet. -/
  | firstEntry
  /-- A comma or the end of the innermost array or object. -/
  | nextEntry
  deriving DecidableEq, Repr

/-- An array or object that is open. -/
inductive Container where
  | array
  | object
  deriving DecidableEq, Repr

/-- The character that ends an array or object. -/
def Container.closing : Container → Char
  | array => ']'
  | object => '}'

/-- The text after a value that is neither array nor object and that begins with `c`. -/
def afterScalar (c : Char) (rest : List Char) : Except JsonFault (List Char) :=
  if c = 'n' then wordRest "ull".toList rest
  else if c = 't' then wordRest "rue".toList rest
  else if c = 'f' then wordRest "alse".toList rest
  else if c = '"' then afterString rest
  else if c = '-' then afterNumber rest
  else if c.isDigit then afterNumber (c :: rest)
  else .error .malformed

/-- The text from the value of the next entry on.  In an object a name and a colon come before it. -/
def entryValue (container : Container) (cs : List Char) : Except JsonFault (List Char) :=
  match container with
  | .array => .ok cs
  | .object =>
    match afterGap cs with
    | [] => .error .ended
    | c :: rest =>
      if c = '"' then
        match afterString rest with
        | .error fault => .error fault
        | .ok after =>
          match afterGap after with
          | [] => .error .ended
          | colon :: value => if colon = ':' then .ok value else .error .malformed
      else
        .error .malformed

/-- The text after the value or the open arrays and objects, the innermost first.  Every round takes at
least one character, so `bound` may be the length of the text. -/
def skipFrom : (bound : Nat) → Expected → List Container → List Char → Except JsonFault (List Char)
  | 0, _, _, _ => .error .ended
  | bound + 1, expected, containers, cs =>
    match expected, containers, afterGap cs with
    | _, _, [] => .error .ended
    | .value, _, c :: rest =>
      if c = '[' then
        skipFrom bound .firstEntry (.array :: containers) rest
      else if c = '{' then
        skipFrom bound .firstEntry (.object :: containers) rest
      else
        match afterScalar c rest with
        | .error fault => .error fault
        | .ok after =>
          if containers.isEmpty then .ok after else skipFrom bound .nextEntry containers after
    | _, [], text => .ok text
    | expected, container :: outer, c :: rest =>
      if c = container.closing then
        if outer.isEmpty then .ok rest else skipFrom bound .nextEntry outer rest
      else
        let entry :=
          if expected = .firstEntry then some (c :: rest)
          else if c = ',' then some rest
          else none
        match entry with
        | none => .error .malformed
        | some text =>
          match entryValue container text with
          | .error fault => .error fault
          | .ok value => skipFrom bound .value (container :: outer) value

/-- The text after the value at its begin. -/
def afterValue (cs : List Char) : Except JsonFault (List Char) :=
  skipFrom (2 * cs.length + 1) .value [] cs

end ComponentMarkers.JsonText
