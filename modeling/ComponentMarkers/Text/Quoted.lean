import ComponentMarkers.Text.Unprintable

/-!
# Quoted text in messages

A message that names a text given by a user puts it between double quotes and spells out every
character a reader could not see or could take for the quotes.  Names of resources keep a single
quote as it is; paths of files spell it out as well.
-/

namespace ComponentMarkers.Text

/-- A code point in lower-case hexadecimal digits without leading zeros. -/
def hexDigits (n : Nat) : String :=
  String.ofList (Nat.toDigits 16 n)

/-- The spelled-out form of a character inside quotes, `apostrophe` telling whether a single quote
is spelled out too. -/
def quoteChar (apostrophe : Bool) (c : Char) : String :=
  if c = '\x00' then "\\0"
  else if c = '\t' then "\\t"
  else if c = '\r' then "\\r"
  else if c = '\n' then "\\n"
  else if c = '\\' then "\\\\"
  else if c = '"' then "\\\""
  else if c = '\'' then (if apostrophe then "\\'" else "'")
  else if isExtending c || isUnprintable c then "\\u\x7b" ++ hexDigits c.toNat ++ "\x7d"
  else String.singleton c

/-- A text between double quotes. -/
def quoteName (s : String) : String :=
  "\"" ++ String.join (s.toList.map (quoteChar false)) ++ "\""

/-- A path between double quotes. -/
def quotePath (s : String) : String :=
  "\"" ++ String.join (s.toList.map (quoteChar true)) ++ "\""

end ComponentMarkers.Text
