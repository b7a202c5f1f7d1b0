import ComponentMarkers.Log
import ComponentMarkers.Text.Quoted

/-!
# The written log

An event is written as its level and its message.  Characters of the message that could steer a terminal
are spelled out; line ends are not.
-/

namespace ComponentMarkers

/-- Control characters by which a terminal can be steered. -/
def steeringControls : List (Char × String) :=
  [('\x07', "\\x07"), ('\x08', "\\x08"), ('\x0c', "\\x0c"), ('\x1b', "\\x1b"), ('\x7f', "\\x7f")]

/-- A character as it is written. -/
def writtenChar (c : Char) : String :=
  match steeringControls.lookup c with
  | some spelled => spelled
  | none =>
    if 0x80 ≤ c.toNat ∧ c.toNat ≤ 0x9F then
      "\\u\x7b" ++ Text.hexDigits c.toNat ++ "\x7d"
    else
      String.singleton c

namespace LogEvent

/-- An event as it is written. -/
def written (event : LogEvent) : String :=
  event.level.label ++ " " ++ String.join (event.message.toList.map writtenChar)

end LogEvent

end ComponentMarkers
