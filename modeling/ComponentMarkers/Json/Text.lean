import ComponentMarkers.Json.Value

/-!
# Reading the small parts of JSON texts

Blanks, words, strings and numbers.  A text is read from its begin; what is wrong with it is told by the
first thing that is wrong: the text ends too early, it is no JSON text, or it is one that says something
else than what is looked for.
-/

namespace ComponentMarkers

/-- What is wrong with a JSON text. -/
inductive JsonFault where
  /-- The text is JSON so far, but not what is looked for. -/
  | data
  /-- The text is not JSON. -/
  | malformed
  /-- The text ends too early. -/
  | ended
  deriving DecidableEq, Repr

namespace JsonText

/-- A result and the rest of the text. -/
abbrev Outcome (α : Type) := Except JsonFault (α × List Char)

/-- The characters that may stand between the parts of a text. -/
def isGap (c : Char) : Bool :=
  c = ' ' || c = '\n' || c = '\t' || c = '\r'

/-- The text without the gap at its begin. -/
def afterGap (cs : List Char) : List Char :=
  cs.dropWhile isGap

/-- The text after the rest of a word of which the first letter was read. -/
def wordRest : (word : List Char) → List Char → Except JsonFault (List Char)
  | [], cs => .ok cs
  | _ :: _, [] => .error .ended
  | w :: word, c :: cs => if w = c then wordRest word cs else .error .malformed

/-- The value of a hexadecimal digit. -/
def hexValue? (c : Char) : Option Nat :=
  if '0' ≤ c ∧ c ≤ '9' then some (c.toNat - 48)
  else if 'a' ≤ c ∧ c ≤ 'f' then some (c.toNat - 87)
  else if 'A' ≤ c ∧ c ≤ 'F' then some (c.toNat - 55)
  else none

/-- The value of four hexadecimal digits at the begin of a text.  The text has to be four bytes long at
least. -/
def fourDigits (cs : List Char) : Outcome Nat :=
  if (String.ofList (cs.take 4)).utf8ByteSize < 4 then
    .error .ended
  else
    match cs with
    | a :: b :: c :: d :: rest =>
      match hexValue? a, hexValue? b, hexValue? c, hexValue? d with
      | some a, some b, some c, some d => .ok (((a * 16 + b) * 16 + c) * 16 + d, rest)
      | _, _, _, _ => .error .malformed
    | _ => .error .malformed

/-- The first of two units that stand for one character. -/
def isHighUnit (n : Nat) : Bool :=
  0xD800 ≤ n && n ≤ 0xDBFF

/-- The second of two units that stand for one character. -/
def isLowUnit (n : Nat) : Bool :=
  0xDC00 ≤ n && n ≤ 0xDFFF

/-- The character of a first unit, whose second unit has to follow. -/
def pairedUnit (high : Nat) (cs : List Char) : Outcome Char :=
  match cs with
  | [] => .error .ended
  | '\\' :: [] => .error .ended
  | '\\' :: 'u' :: rest =>
    match fourDigits rest with
    | .error fault => .error fault
    | .ok (low, rest) =>
      if isLowUnit low then
        .ok (Char.ofNat (0x10000 + (high - 0xD800) * 0x400 + (low - 0xDC00)), rest)
      else
        .error .malformed
  | _ => .error .malformed

/-- The character after a backslash and a `u`. -/
def unitChar (cs : List Char) : Outcome Char :=
  match fourDigits cs with
  | .error fault => .error fault
  | .ok (n, rest) =>
    if isLowUnit n then .error .malformed
    else if isHighUnit n then pairedUnit n rest
    else .ok (Char.ofNat n, rest)

/-- The characters that a backslash and one letter stand for. -/
def shortEscape? : Char → Option Char
  | '"' => some '"'
  | '\\' => some '\\'
  | '/' => some '/'
  | 'b' => some '\x08'
  | 'f' => some '\x0c'
  | 'n' => some '\n'
  | 'r' => some '\r'
  | 't' => some '\t'
  | _ => none

/-- The character that is spelled out after a backslash. -/
def escaped (cs : List Char) : Outcome Char :=
  match cs with
  | [] => .error .ended
  | 'u' :: rest => unitChar rest
  | c :: rest =>
    match shortEscape? c with
    | some char => .ok (char, rest)
    | none => .error .malformed

/-- The text after something spelled out after a backslash.  Units need not pair. -/
def afterEscape (cs : List Char) : Except JsonFault (List Char) :=
  match cs with
  | [] => .error .ended
  | 'u' :: rest => (fourDigits rest).map Prod.snd
  | c :: rest => if (shortEscape? c).isSome then .ok rest else .error .malformed

theorem fourDigits_length {cs rest : List Char} {n : Nat} (h : fourDigits cs = .ok (n, rest)) :
    rest.length < cs.length := by
  unfold fourDigits at h
  split at h
  · cases h
  · split at h
    · split at h
      · cases h
        simp only [List.length_cons]
        omega
      · cases h
    · cases h

theorem escaped_length {cs rest : List Char} {c : Char} (h : escaped cs = .ok (c, rest)) :
    rest.length < cs.length := by
  unfold escaped at h
  split at h
  · cases h
  · rename_i tail
    unfold unitChar at h
    split at h
    · cases h
    · rename_i n after hdigits
      have hfirst := fourDigits_length hdigits
      simp only [List.length_cons]
      split at h
      · cases h
      · split at h
        · unfold pairedUnit at h
          split at h
          · cases h
          · cases h
          · rename_i more
            simp only [List.length_cons] at hfirst
            split at h
            · cases h
            · rename_i low final hlow
              have := fourDigits_length hlow
              split at h
              · simp only [Except.ok.injEq, Prod.mk.injEq] at h
                rw [← h.2]
                omega
              · cases h
          · cases h
        · cases h
          omega
  · split at h
    · cases h
      exact Nat.lt_succ_self _
    · cases h

theorem afterEscape_length {cs rest : List Char} (h : afterEscape cs = .ok rest) :
    rest.length < cs.length := by
  unfold afterEscape at h
  split at h
  · cases h
  · rename_i tail
    cases hdigits : fourDigits tail with
    | error fault =>
      rw [hdigits] at h
      cases h
    | ok found =>
      have := fourDigits_length hdigits
      rw [hdigits] at h
      cases h
      simp only [List.length_cons]
      omega
  · split at h
    · cases h
      exact Nat.lt_succ_self _
    · cases h

/-- The characters of a string whose opening quote was read. -/
def stringRest : List Char → Outcome (List Char)
  | [] => .error .ended
  | c :: rest =>
    if c = '"' then
      .ok ([], rest)
    else if c = '\\' then
      match h : escaped rest with
      | .error fault => .error fault
      | .ok (char, after) =>
        have := escaped_length h
        (stringRest after).map fun (chars, final) => (char :: chars, final)
    else if c.toNat < 32 then
      .error .malformed
    else
      (stringRest rest).map fun (chars, final) => (c :: chars, final)
  termination_by cs => cs.length
  decreasing_by
    all_goals
      simp only [List.length_cons]
      omega

/-- The text after a string whose opening quote was read. -/
def afterString : List Char → Except JsonFault (List Char)
  | [] => .error .ended
  | c :: rest =>
    if c = '"' then
      .ok rest
    else if c = '\\' then
      match h : afterEscape rest with
      | .error fault => .error fault
      | .ok after =>
        have := afterEscape_length h
        afterString after
    else if c.toNat < 32 then
      .error .malformed
    else
      afterString rest
  termination_by cs => cs.length
  decreasing_by
    all_goals
      simp only [List.length_cons]
      omega

/-- What a number is. -/
inductive Numeral where
  /-- A count, written without sign, fraction and exponent. -/
  | natural (n : Nat)
  /-- Any other number. -/
  | other
  deriving DecidableEq, Repr

/-- The number that some decimal digits write. -/
def digitsValue (digits : List Char) : Nat :=
  digits.foldl (fun n c => n * 10 + (c.toNat - 48)) 0

/-- The number `digits · 10 ^ exponent` is too great for a number of double precision. -/
def isTooGreat (digits : List Char) (exponent : Int) : Bool :=
  let significant := digits.dropWhile (· = '0')
  let length : Int := significant.length + exponent
  if significant.isEmpty || length < 300 then
    false
  else if 400 < length then
    true
  else
    let limit := Nat.pow 2 1024 - Nat.pow 2 970
    if 0 ≤ exponent then
      limit ≤ digitsValue significant * Nat.pow 10 exponent.toNat
    else
      limit * Nat.pow 10 (-exponent).toNat ≤ digitsValue significant

/-- A number that is no count, its digits and exponent being known. -/
def otherNumeral (digits : List Char) (exponent : Int) (rest : List Char) : Outcome Numeral :=
  if isTooGreat digits exponent then .error .malformed else .ok (.other, rest)

/-- The exponent after its letter and sign, with the text after it. -/
def exponentDigits (cs : List Char) : Outcome (List Char) :=
  match cs with
  | [] => .error .ended
  | c :: _ =>
    if c.isDigit then .ok (cs.takeWhile Char.isDigit, cs.dropWhile Char.isDigit)
    else .error .malformed

/-- The exponent after its letter. -/
def exponent (cs : List Char) : Outcome Int :=
  match cs with
  | '+' :: rest => (exponentDigits rest).map fun (digits, rest) => (Int.ofNat (digitsValue digits), rest)
  | '-' :: rest => (exponentDigits rest).map fun (digits, rest) => (-Int.ofNat (digitsValue digits), rest)
  | _ => (exponentDigits cs).map fun (digits, rest) => (Int.ofNat (digitsValue digits), rest)

/-- What follows the digits of a number that has a fraction of `places` digits. -/
def numberEnd (digits : List Char) (places : Nat) (cs : List Char) : Outcome Numeral :=
  match cs with
  | c :: rest =>
    if c = 'e' || c = 'E' then
      match exponent rest with
      | .error fault => .error fault
      | .ok (e, rest) => otherNumeral digits (e - places) rest
    else
      otherNumeral digits (-Int.ofNat places) cs
  | [] => otherNumeral digits (-Int.ofNat places) cs

/-- The fraction after its point, and what follows. -/
def fraction (digits : List Char) (cs : List Char) : Outcome Numeral :=
  match cs with
  | [] => .error .ended
  | c :: _ =>
    if c.isDigit then
      let places := cs.takeWhile Char.isDigit
      numberEnd (digits ++ places) places.length (cs.dropWhile Char.isDigit)
    else
      .error .malformed

/-- The greatest count that is told from other numbers. -/
def greatestCount : Nat :=
  18446744073709551615

/-- A number after its sign.  A number that begins with a zero has no further digits before its
point. -/
def unsignedNumber (isNegative : Bool) (cs : List Char) : Outcome Numeral :=
  match cs with
  | [] => .error .ended
  | c :: tail =>
    if !c.isDigit then
      .error .malformed
    else if c = '0' && (tail.head?.any Char.isDigit) then
      .error .malformed
    else
      let digits := cs.takeWhile Char.isDigit
      match cs.dropWhile Char.isDigit with
      | '.' :: rest => fraction digits rest
      | rest =>
        if rest.head?.any fun c => c = 'e' || c = 'E' then
          numberEnd digits 0 rest
        else if isNegative || greatestCount < digitsValue digits then
          otherNumeral digits 0 rest
        else
          .ok (.natural (digitsValue digits), rest)

/-- The text after an exponent, its letter having been read.  Where it is cut off the text is taken for
malformed. -/
def afterExponent (cs : List Char) : Except JsonFault (List Char) :=
  let unsigned :=
    match cs with
    | '+' :: rest => rest
    | '-' :: rest => rest
    | _ => cs
  if unsigned.head?.any Char.isDigit then .ok (unsigned.dropWhile Char.isDigit)
  else .error .malformed

/-- The text after a number without regard to its size, its sign having been read. -/
def afterNumber (cs : List Char) : Except JsonFault (List Char) :=
  if !(cs.head?.any Char.isDigit) then
    .error .malformed
  else if cs.head? = some '0' && (cs.tail.head?.any Char.isDigit) then
    .error .malformed
  else
    match cs.dropWhile Char.isDigit with
    | '.' :: rest =>
      if rest.head?.any Char.isDigit then
        match rest.dropWhile Char.isDigit with
        | 'e' :: tail => afterExponent tail
        | 'E' :: tail => afterExponent tail
        | after => .ok after
      else
        .error .malformed
    | 'e' :: tail => afterExponent tail
    | 'E' :: tail => afterExponent tail
    | after => .ok after

end JsonText

end ComponentMarkers
