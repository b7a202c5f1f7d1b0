/-!
# JSON values and their texts

Reports and declarations are given out as JSON.  A value has a compact text without blanks and a text
over several lines, in which every entry of an array or object stands on a line of its own, indented by
two spaces for each level.
-/

namespace ComponentMarkers

/-- A JSON value.  Numbers are counts and element numbers. -/
inductive JsonValue where
  | null
  | bool (value : Bool)
  | number (value : Nat)
  | string (value : String)
  | array (entries : List JsonValue)
  | object (fields : List (String × JsonValue))
  deriving Repr, Inhabited

namespace JsonValue

/-- A hexadecimal digit in lower case. -/
def hexDigit (n : Nat) : Char :=
  if n < 10 then Char.ofNat (48 + n) else Char.ofNat (87 + n)

/-- A character as it stands between quotes. -/
def escapeChar (c : Char) : List Char :=
  if c = '"' then ['\\', '"']
  else if c = '\\' then ['\\', '\\']
  else if c = '\x08' then ['\\', 'b']
  else if c = '\x0c' then ['\\', 'f']
  else if c = '\n' then ['\\', 'n']
  else if c = '\r' then ['\\', 'r']
  else if c = '\t' then ['\\', 't']
  else if c.toNat < 32 then ['\\', 'u', '0', '0', hexDigit (c.toNat / 16), hexDigit (c.toNat % 16)]
  else [c]

/-- A text between quotes. -/
def quote (s : String) : String :=
  String.ofList ('"' :: s.toList.flatMap escapeChar ++ ['"'])

mutual

/-- The text of a value without blanks. -/
def compact : JsonValue → String
  | null => "null"
  | bool true => "true"
  | bool false => "false"
  | number n => toString n
  | string s => quote s
  | array entries => "[" ++ ",".intercalate (compactEntries entries) ++ "]"
  | object fields => "\x7b" ++ ",".intercalate (compactFields fields) ++ "\x7d"

/-- The texts of the entries of an array. -/
def compactEntries : List JsonValue → List String
  | [] => []
  | entry :: entries => entry.compact :: compactEntries entries

/-- The texts of the fields of an object. -/
def compactFields : List (String × JsonValue) → List String
  | [] => []
  | (name, value) :: fields => (quote name ++ ":" ++ value.compact) :: compactFields fields

end

/-- The begin of a line at a level. -/
def newLine (level : Nat) : String :=
  String.ofList ('\n' :: List.replicate (2 * level) ' ')

/-- Lines at the level below `level` between two brackets; there are none between the brackets of
something empty. -/
def block (level : Nat) (opening closing : String) (lines : List String) : String :=
  if lines.isEmpty then
    opening ++ closing
  else
    opening ++ newLine (level + 1) ++ ("," ++ newLine (level + 1)).intercalate lines ++
      newLine level ++ closing

mutual

/-- The text of a value over several lines, of which the first is at the given level. -/
def prettyAt (level : Nat) : JsonValue → String
  | null => "null"
  | bool true => "true"
  | bool false => "false"
  | number n => toString n
  | string s => quote s
  | array entries => block level "[" "]" (prettyEntries (level + 1) entries)
  | object fields => block level "\x7b" "\x7d" (prettyFields (level + 1) fields)

/-- The texts of the entries of an array at a level. -/
def prettyEntries (level : Nat) : List JsonValue → List String
  | [] => []
  | entry :: entries => entry.prettyAt level :: prettyEntries level entries

/-- The texts of the fields of an object at a level. -/
def prettyFields (level : Nat) : List (String × JsonValue) → List String
  | [] => []
  | (name, value) :: fields =>
    (quote name ++ ": " ++ value.prettyAt level) :: prettyFields level fields

end

/-- The text of a value over several lines. -/
def pretty (value : JsonValue) : String :=
  value.prettyAt 0

end JsonValue

end ComponentMarkers
