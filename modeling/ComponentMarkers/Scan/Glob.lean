import ComponentMarkers.Text.Encoded

/-!
# Patterns for paths

A pattern is read into parts, and a path matches when the parts one after the other take up all its
bytes.  A star and a question mark stand for bytes within a name; two stars between slashes stand for
any directories.  Letters in square brackets stand for one of their bytes, and texts in curly brackets
for one of them.

Matching keeps the list of what may be left of the path after each part, so that it takes no longer
than the path is long for every part of the pattern.
-/

namespace ComponentMarkers.Scan

/-- One part of a pattern. -/
inductive GlobPart where
  /-- These bytes. -/
  | literal (bytes : List UInt8)
  /-- One byte that is not a slash. -/
  | anyByte
  /-- Any bytes without a slash. -/
  | anyBytes
  /-- Nothing, or anything that ends with a slash. -/
  | leadingDirectories
  /-- A slash and anything after it. -/
  | trailingPath
  /-- A slash, or anything from one slash to another. -/
  | innerDirectories
  /-- One byte of these ranges of letters, or one byte of no such range. -/
  | oneOf (isNegated : Bool) (ranges : List (Char × Char))
  /-- One of these rows of parts. -/
  | alternatives (branches : List (List GlobPart))
  deriving Repr

/-- The byte of a slash. -/
def slashByte : UInt8 :=
  47

/-- The bytes of a letter. -/
def letterBytes (c : Char) : List UInt8 :=
  Text.encode (String.singleton c)

/-- A byte belongs to the range of letters.  Only the last byte of the first letter and the first byte
of the last letter bound the range; the other bytes of both belong to it by themselves. -/
def inLetterRange (range : Char × Char) (b : UInt8) : Bool :=
  let first := letterBytes range.1
  let last := letterBytes range.2
  if range.1 = range.2 then
    first.contains b
  else
    first.dropLast.contains b || last.tail.contains b ||
      (first.getLast?.any (· ≤ b) && last.head?.any (b ≤ ·))

/-- All rests of the bytes, the bytes themselves among them. -/
def allRests : List UInt8 → List (List UInt8)
  | [] => [[]]
  | b :: rest => (b :: rest) :: allRests rest

/-- The rests of the bytes after any bytes without a slash. -/
def restsInName : List UInt8 → List (List UInt8)
  | [] => [[]]
  | b :: rest => (b :: rest) :: if b = slashByte then [] else restsInName rest

/-- The rests of the bytes after each slash. -/
def restsAfterSlashes : List UInt8 → List (List UInt8)
  | [] => []
  | b :: rest => if b = slashByte then rest :: restsAfterSlashes rest else restsAfterSlashes rest

/-- What may be left of the bytes after a part that is no alternative. -/
def restsAfterPlain (part : GlobPart) (bytes : List UInt8) : List (List UInt8) :=
  match part, bytes with
  | .literal start, _ => if start.isPrefixOf bytes then [bytes.drop start.length] else []
  | .anyBytes, _ => restsInName bytes
  | .leadingDirectories, _ => bytes :: restsAfterSlashes bytes
  | .anyByte, b :: rest => if b = slashByte then [] else [rest]
  | .trailingPath, b :: rest => if b = slashByte then allRests rest else []
  | .innerDirectories, b :: rest => if b = slashByte then rest :: restsAfterSlashes rest else []
  | .oneOf isNegated ranges, b :: rest =>
    if (ranges.any fun range => inLetterRange range b) != isNegated then [rest] else []
  | _, _ => []

mutual

/-- What may be left after a part of one of several rests. -/
def restsAfter (starts : List (List UInt8)) : GlobPart → List (List UInt8)
  | .alternatives branches =>
    if branches.all List.isEmpty then starts else restsAfterBranches starts branches
  | part => (starts.flatMap (restsAfterPlain part)).eraseDups

/-- What may be left after a row of parts. -/
def restsAfterAll (starts : List (List UInt8)) : List GlobPart → List (List UInt8)
  | [] => starts
  | part :: parts => restsAfterAll (restsAfter starts part) parts

/-- What may be left after one of several rows of parts.  Empty rows do not count. -/
def restsAfterBranches (starts : List (List UInt8)) : List (List GlobPart) → List (List UInt8)
  | [] => []
  | [] :: branches => restsAfterBranches starts branches
  | (part :: parts) :: branches =>
    restsAfterAll (restsAfter starts part) parts ++ restsAfterBranches starts branches

end

/-- A pattern. -/
structure Glob where
  parts : List GlobPart
  deriving Repr

namespace Glob

/-- The path matches the pattern.  The pattern of two stars alone matches every path. -/
def matchesPath (glob : Glob) (path : String) : Bool :=
  match glob.parts with
  | [.leadingDirectories] => true
  | parts => (restsAfterAll [Text.encode path] parts).contains []

end Glob

/-- What is known while a pattern is read. -/
structure GlobState where
  /-- The rows of parts read so far, the innermost first, each with its last part first. -/
  rows : List (List GlobPart)
  /-- For each open curly bracket, the innermost first, how many rows there were before it. -/
  opened : List Nat
  /-- The letter before the current one. -/
  previous : Option Char
  /-- A square bracket was found that nothing closes; from then on they are letters. -/
  hasLoneBracket : Bool

namespace GlobState

/-- Nothing has been read. -/
def start : GlobState :=
  ⟨[[]], [], none, false⟩

/-- Adds a part to the innermost row. -/
def push (state : GlobState) (part : GlobPart) : GlobState :=
  match state.rows with
  | [] => state
  | row :: outer => { state with rows := (part :: row) :: outer }

/-- Adds a letter. -/
def pushLetter (state : GlobState) (c : Char) : GlobState :=
  state.push (.literal (letterBytes c))

/-- Goes on with the letter after `c`. -/
def after (state : GlobState) (c : Char) : GlobState :=
  { state with previous := some c }

/-- Opens a curly bracket. -/
def openBranches (state : GlobState) : GlobState :=
  { state with rows := [] :: state.rows, opened := state.rows.length :: state.opened }

/-- Closes a curly bracket, none when there is none. -/
def closeBranches (state : GlobState) : Option GlobState :=
  match state.opened with
  | [] => none
  | count :: opened =>
    let inner := state.rows.take (state.rows.length - count)
    some (push { state with rows := state.rows.drop (state.rows.length - count), opened := opened }
      (.alternatives (inner.map List.reverse).reverse))

/-- Starts the next branch within a curly bracket. -/
def nextBranch (state : GlobState) : GlobState :=
  if state.opened.isEmpty then state.pushLetter ',' else { state with rows := [] :: state.rows }

/-- Replaces the last part of the innermost row, which is the slash before two stars, by a part for
directories. -/
def replaceSlash (state : GlobState) (part : GlobPart) : GlobState :=
  match state.rows with
  | (last :: row) :: outer =>
    let kept :=
      match last with
      | .leadingDirectories => GlobPart.leadingDirectories
      | .trailingPath => GlobPart.trailingPath
      | _ => part
    { state with rows := (kept :: row) :: outer }
  | _ => state

/-- Reads two stars; `rest` is what comes after them. -/
def doubleStar (state : GlobState) (rest : List Char) : GlobState × List Char :=
  let stars := (((state.push .anyBytes).push .anyBytes).after '*', rest)
  if state.rows.head?.any List.isEmpty then
    match rest with
    | [] => ((state.push .leadingDirectories).after '*', [])
    | c :: tail =>
      if c = '/' then ((state.push .leadingDirectories).after '/', tail) else stars
  else if state.previous ≠ some '/' &&
      (state.rows.length ≤ 1 || (state.previous ≠ some ',' && state.previous ≠ some '{')) then
    stars
  else
    match rest with
    | [] => ((state.replaceSlash .trailingPath).after '*', [])
    | c :: tail =>
      if (c = ',' || c = '}') && 2 ≤ state.rows.length then
        ((state.replaceSlash .trailingPath).after '*', rest)
      else if c = '/' then
        ((state.replaceSlash .innerDirectories).after '/', tail)
      else
        stars

end GlobState

/-- What is in square brackets. -/
inductive GlobClass where
  | ranges (ranges : List (Char × Char)) (rest : List Char)
  | unclosed
  /-- The letters of a range are in the wrong order. -/
  | disordered

/-- Reads what is in square brackets, the ranges read so far being given with the last one first. -/
def classFrom (found : List (Char × Char)) (isInRange : Bool) : List Char → GlobClass
  | [] => .unclosed
  | c :: rest =>
    if c = ']' && !found.isEmpty then
      .ranges (if isInRange then found.reverse ++ [('-', '-')] else found.reverse) rest
    else if c = '-' && !found.isEmpty && !isInRange then
      classFrom found true rest
    else
      match found with
      | (low, _) :: others =>
        if isInRange then
          if c < low then .disordered else classFrom ((low, c) :: others) false rest
        else
          classFrom ((c, c) :: found) false rest
      | [] => classFrom [(c, c)] false rest

theorem classFrom_length {found ranges : List (Char × Char)} {isInRange : Bool}
    {cs rest : List Char} (h : classFrom found isInRange cs = .ranges ranges rest) :
    rest.length < cs.length := by
  fun_induction classFrom found isInRange cs
  case case1 => cases h
  case case2 =>
    cases h
    exact Nat.lt_succ_self _
  case case4 => cases h
  case case3 ih | case5 ih | case6 ih | case7 ih => exact Nat.lt_succ_of_lt (ih h)

theorem GlobState.doubleStar_length (state : GlobState) (rest : List Char) :
    (state.doubleStar rest).2.length ≤ rest.length := by
  unfold doubleStar
  dsimp only
  split
  · split
    · exact Nat.le_refl _
    · split <;> simp
  · split
    · exact Nat.le_refl _
    · split
      · exact Nat.le_refl _
      · split
        · exact Nat.le_refl _
        · split <;> simp

/-- Reads the rest of a pattern, none when it is no pattern. -/
def globFrom (state : GlobState) : List Char → Option GlobState
  | [] => some state
  | c :: rest =>
    if c = '?' then
      globFrom ((state.push .anyByte).after c) rest
    else if c = '*' then
      if rest.head? = some '*' then
        have := state.doubleStar_length rest.tail
        globFrom (state.doubleStar rest.tail).1 (state.doubleStar rest.tail).2
      else
        globFrom ((state.push .anyBytes).after c) rest
    else if c = '[' && !state.hasLoneBracket then
      let isNegated := rest.head?.any fun d => d = '!' || d = '^'
      let inner := if isNegated then rest.tail else rest
      match h : classFrom [] false inner with
      | .ranges ranges after =>
        have : after.length < (c :: rest).length := by
          have := classFrom_length h
          have : inner.length ≤ rest.length := by
            unfold inner
            split <;> simp
          rw [List.length_cons]
          omega
        globFrom ((state.push (.oneOf isNegated ranges)).after ']') after
      | .unclosed => globFrom (({ state with hasLoneBracket := true }.pushLetter '[').after c) rest
      | .disordered => none
    else if c = '{' then
      globFrom (state.openBranches.after c) rest
    else if c = '}' then
      match state.closeBranches with
      | some state => globFrom (state.after c) rest
      | none => none
    else if c = ',' then
      globFrom (state.nextBranch.after c) rest
    else if c = '\\' then
      match rest with
      | [] => none
      | d :: tail => globFrom ((state.pushLetter d).after d) tail
    else
      globFrom ((state.pushLetter c).after c) rest
  termination_by cs => cs.length
  decreasing_by
    all_goals
      simp_all only [List.length_cons, List.length_tail]
      try omega

/-- The pattern that a text writes, none when it writes none. -/
def Glob.ofText? (s : String) : Option Glob :=
  match globFrom .start s.toList with
  | some state =>
    match state.rows with
    | [row] => some ⟨row.reverse⟩
    | _ => none
  | none => none

end ComponentMarkers.Scan
