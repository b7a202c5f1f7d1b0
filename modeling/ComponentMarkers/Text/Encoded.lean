/-!
# Text as bytes

Files hold bytes; what they hold is text when it is the UTF-8 encoding of some text.  Reading is
either strict, refusing anything else, or lenient, showing each ill-formed stretch as one replacement
character.
-/

namespace ComponentMarkers.Text

/-- The bytes of a text. -/
def encode (s : String) : List UInt8 :=
  s.toUTF8.toList

/-- The bytes that may stand second after the lead byte `b` of a sequence, and how many bytes follow
the lead byte; none when `b` leads no sequence. -/
def leadRange? (b : UInt8) : Option (UInt8 × UInt8 × Nat) :=
  if 0xC2 ≤ b && b ≤ 0xDF then some (0x80, 0xBF, 1)
  else if b == 0xE0 then some (0xA0, 0xBF, 2)
  else if b == 0xED then some (0x80, 0x9F, 2)
  else if 0xE1 ≤ b && b ≤ 0xEF then some (0x80, 0xBF, 2)
  else if b == 0xF0 then some (0x90, 0xBF, 3)
  else if 0xF1 ≤ b && b ≤ 0xF3 then some (0x80, 0xBF, 3)
  else if b == 0xF4 then some (0x80, 0x8F, 3)
  else none

/-- How many of the next bytes go on with a sequence that still lacks `missing` bytes, of which the
first has to lie between `low` and `high`. -/
def followers : (missing : Nat) → (low high : UInt8) → List UInt8 → Nat
  | 0, _, _, _ => 0
  | _, _, _, [] => 0
  | missing + 1, low, high, b :: bytes =>
    if low ≤ b && b ≤ high then followers missing 0x80 0xBF bytes + 1 else 0

/-- The payload of a lead byte followed by `count` others. -/
def leadBits (b : UInt8) (count : Nat) : Nat :=
  b.toNat % Nat.pow 2 (6 - count)

/-- One sequence at the head of the bytes: the character, or none when the bytes are ill-formed
there, and the number of bytes it takes beyond the first. -/
def decodeHead (b : UInt8) (bytes : List UInt8) : Option Char × Nat :=
  if b < 0x80 then
    (some (Char.ofNat b.toNat), 0)
  else
    match leadRange? b with
    | none => (none, 0)
    | some (low, high, count) =>
      let found := followers count low high bytes
      if found = count then
        let code := (bytes.take count).foldl (fun n d => n * 64 + d.toNat % 64) (leadBits b count)
        (some (Char.ofNat code), count)
      else
        (none, found)

/-- The bytes as a row of characters and ill-formed stretches. -/
def decodeUnits : List UInt8 → List (Option Char)
  | [] => []
  | b :: bytes =>
    (decodeHead b bytes).1 :: decodeUnits (bytes.drop (decodeHead b bytes).2)
  termination_by bytes => bytes.length

/-- The text the bytes encode, none when they encode no text. -/
def decode? (bytes : List UInt8) : Option String :=
  ((decodeUnits bytes).mapM id).map String.ofList

/-- The text of the bytes with a replacement character for each ill-formed stretch. -/
def decodeLenient (bytes : List UInt8) : String :=
  String.ofList ((decodeUnits bytes).map fun unit => unit.getD '\uFFFD')

end ComponentMarkers.Text
