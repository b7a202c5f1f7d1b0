import ComponentMarkers.Json.Skip

/-!
# Readers of JSON texts

A reader takes a value of one shape off the begin of a text.  The shapes are those of the domain: one of
some names, a text, an element number, and a record of two fields.

A name may also stand as the only field of an object whose value is `null`, and a record as an array of
its fields in order.  Fields that a record does not have are passed over; a field that comes twice or
not at all is a fault.
-/

namespace ComponentMarkers

/-- Takes a value off the begin of a text. -/
abbrev JsonReader (α : Type) := List Char → JsonText.Outcome α

namespace JsonReader

open JsonText

/-- The fault that the value beginning with `c` is not of the kind looked for. -/
def wrongKind (c : Char) (rest : List Char) : JsonFault :=
  let fault {β : Type} (outcome : Except JsonFault β) : JsonFault :=
    match outcome with
    | .ok _ => .data
    | .error fault => fault
  if c = 'n' then fault (wordRest "ull".toList rest)
  else if c = 't' then fault (wordRest "rue".toList rest)
  else if c = 'f' then fault (wordRest "alse".toList rest)
  else if c = '"' then fault (stringRest rest)
  else if c = '-' then fault (unsignedNumber true rest)
  else if c.isDigit then fault (unsignedNumber false (c :: rest))
  else if c = '[' || c = '{' then .data
  else .malformed

/-- The rest of the text after the character that has to come next. -/
def afterMark (mark : Char) (cs : List Char) : Except JsonFault (List Char) :=
  match afterGap cs with
  | [] => .error .ended
  | c :: rest => if c = mark then .ok rest else .error .malformed

/-- Reads a string. -/
def text : JsonReader String := fun cs =>
  match afterGap cs with
  | [] => .error .ended
  | c :: rest =>
    if c = '"' then
      (stringRest rest).map fun (chars, final) => (String.ofList chars, final)
    else
      .error (wrongKind c rest)

/-- Reads the name of something. -/
def named (ofName? : String → Option α) : JsonReader α := fun cs =>
  match text cs with
  | .error fault => .error fault
  | .ok (name, rest) =>
    match ofName? name with
    | some value => .ok (value, rest)
    | none => .error .data

/-- Reads `null`. -/
def nothing (cs : List Char) : Except JsonFault (List Char) :=
  match afterGap cs with
  | [] => .error .ended
  | c :: rest => if c = 'n' then wordRest "ull".toList rest else .error (wrongKind c rest)

/-- Reads one of some names, alone or as the only field of an object. -/
def oneOf (ofName? : String → Option α) : JsonReader α := fun cs =>
  match afterGap cs with
  | [] => .error .ended
  | c :: rest =>
    if c = '{' then
      match named ofName? rest with
      | .error fault => .error fault
      | .ok (value, rest) =>
        match (afterMark ':' rest).bind nothing with
        | .error fault => .error fault
        | .ok rest => (afterMark '}' rest).map fun rest => (value, rest)
    else if c = '"' then
      named ofName? (c :: rest)
    else
      .error .malformed

/-- Reads a count below a limit. -/
def countBelow (limit : Nat) : JsonReader Nat := fun cs =>
  let counted (outcome : Outcome Numeral) : Outcome Nat :=
    match outcome with
    | .error fault => .error fault
    | .ok (.natural n, rest) => if n < limit then .ok (n, rest) else .error .data
    | .ok (.other, _) => .error .data
  match afterGap cs with
  | [] => .error .ended
  | c :: rest =>
    if c = '-' then counted (unsignedNumber true rest)
    else if c.isDigit then counted (unsignedNumber false (c :: rest))
    else .error (wrongKind c rest)

/-- The text from the first entry of an array on; there has to be one. -/
def firstEntry (cs : List Char) : Except JsonFault (List Char) :=
  match afterGap cs with
  | [] => .error .ended
  | c :: rest => if c = ']' then .error .data else .ok (c :: rest)

/-- The text from the next entry of an array on; there has to be one. -/
def nextEntry (cs : List Char) : Except JsonFault (List Char) :=
  match afterGap cs with
  | [] => .error .ended
  | c :: rest =>
    if c = ']' then
      .error .data
    else if c = ',' then
      match afterGap rest with
      | [] => .error .ended
      | d :: tail => if d = ']' then .error .malformed else .ok (d :: tail)
    else
      .error .malformed

/-- Reads the entries of an array of two. -/
def entryPair (first : JsonReader α) (second : JsonReader β) : JsonReader (α × β) := fun cs =>
  match (firstEntry cs).bind first with
  | .error fault => .error fault
  | .ok (a, rest) =>
    match (nextEntry rest).bind second with
    | .error fault => .error fault
    | .ok (b, rest) => (afterMark ']' rest).map fun rest => ((a, b), rest)

/-- The name of the next field of an object, or none at the end of the object. -/
def nextField (isFirst : Bool) (cs : List Char) : Outcome (Option String) :=
  let name (rest : List Char) : Outcome (Option String) :=
    (stringRest rest).map fun (chars, final) => (some (String.ofList chars), final)
  match afterGap cs with
  | [] => .error .ended
  | c :: rest =>
    if c = '}' then
      .ok (none, rest)
    else if isFirst then
      if c = '"' then name rest else .error .malformed
    else if c = ',' then
      match afterGap rest with
      | [] => .error .ended
      | d :: tail => if d = '"' then name tail else .error .malformed
    else
      .error .malformed

/-- The two fields of a record: their names and how their values are read. -/
structure FieldPair (α β : Type) where
  firstName : String
  first : JsonReader α
  secondName : String
  second : JsonReader β

/-- Reads the fields of an object, the first two results being what was found so far.  Every field takes
at least one character, so `bound` may be the length of the text and one more. -/
def fieldsFrom (fields : FieldPair α β) : (bound : Nat) → (isFirst : Bool) → Option α → Option β →
    JsonReader (α × β)
  | 0, _, _, _, _ => .error .ended
  | bound + 1, isFirst, a?, b?, cs =>
    match nextField isFirst cs with
    | .error fault => .error fault
    | .ok (none, rest) =>
      match a?, b? with
      | some a, some b => .ok ((a, b), rest)
      | _, _ => .error .data
    | .ok (some name, rest) =>
      if name = fields.firstName then
        if a?.isSome then
          .error .data
        else
          match (afterMark ':' rest).bind fields.first with
          | .error fault => .error fault
          | .ok (a, rest) => fieldsFrom fields bound false (some a) b? rest
      else if name = fields.secondName then
        if b?.isSome then
          .error .data
        else
          match (afterMark ':' rest).bind fields.second with
          | .error fault => .error fault
          | .ok (b, rest) => fieldsFrom fields bound false a? (some b) rest
      else
        match (afterMark ':' rest).bind afterValue with
        | .error fault => .error fault
        | .ok rest => fieldsFrom fields bound false a? b? rest

/-- Reads a record of two fields. -/
def record (fields : FieldPair α β) : JsonReader (α × β) := fun cs =>
  match afterGap cs with
  | [] => .error .ended
  | c :: rest =>
    if c = '[' then entryPair fields.first fields.second rest
    else if c = '{' then fieldsFrom fields (rest.length + 1) true none none rest
    else .error (wrongKind c rest)

/-- Reads a text that holds one value and nothing else. -/
def whole (reader : JsonReader α) (s : String) : Except JsonFault α :=
  match reader s.toList with
  | .error fault => .error fault
  | .ok (value, rest) => if (afterGap rest).isEmpty then .ok value else .error .malformed

end JsonReader

end ComponentMarkers
