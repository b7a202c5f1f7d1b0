/-!
# Blank characters

A blank is a character of the Unicode property `White_Space`.  Names that were written across blanks
are compared without them.
-/

namespace ComponentMarkers.Text

/-- `c` has the property `White_Space`. -/
def isBlank (c : Char) : Bool :=
  (0x09 ≤ c.toNat && c.toNat ≤ 0x0D) || c.toNat == 0x20 || c.toNat == 0x85 || c.toNat == 0xA0 ||
    c.toNat == 0x1680 || (0x2000 ≤ c.toNat && c.toNat ≤ 0x200A) || c.toNat == 0x2028 ||
    c.toNat == 0x2029 || c.toNat == 0x202F || c.toNat == 0x205F || c.toNat == 0x3000

/-- The text without its blanks. -/
def withoutBlanks (s : String) : String :=
  String.ofList (s.toList.filter fun c => !isBlank c)

/-- The text without the blanks at its end. -/
def withoutTrailingBlanks (s : String) : String :=
  String.ofList (s.toList.reverse.dropWhile isBlank).reverse

/-- The text without the blanks at either end. -/
def withoutOuterBlanks (s : String) : String :=
  withoutTrailingBlanks (String.ofList (s.toList.dropWhile isBlank))

end ComponentMarkers.Text
