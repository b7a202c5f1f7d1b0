import ComponentMarkers.Path
import ComponentMarkers.Scan.Glob
import ComponentMarkers.Text.Blank

/-!
# Ignore files

Each line of an ignore file is a rule: a pattern for what is to be left out, or after an exclamation
mark for what is to be kept all the same.  The last rule that matches decides.  Paths are looked at from
the directory of the file.
-/

namespace ComponentMarkers.Scan

/-- What rules say about a path. -/
inductive Verdict where
  | undecided
  | ignored
  | kept
  deriving DecidableEq, Repr

namespace Verdict

/-- The first verdict, or the second where the first is undecided. -/
def orElse : Verdict → Verdict → Verdict
  | undecided, other => other
  | verdict, _ => verdict

end Verdict

/-- One rule. -/
structure IgnoreRule where
  glob : Glob
  /-- What matches is kept. -/
  isException : Bool
  onlyDirectories : Bool
  deriving Repr

/-- The text ends with some characters. -/
def endsWith (ending text : List Char) : Bool :=
  ending.reverse.isPrefixOf text.reverse

/-- The pattern of a rule as it is matched against whole paths.  A pattern without slash applies in
every directory, and one that ends with two stars does not apply to the directory before them. -/
def widenedPattern (isAnchored : Bool) (pattern : List Char) : List Char :=
  let stars := "**".toList
  let anywhere :=
    if isAnchored || pattern.contains '/' || pattern = stars then pattern else stars ++ '/' :: pattern
  if endsWith "/**".toList anywhere then anywhere ++ "/*".toList else anywhere

/-- The marks at the begin of a rule: whether it is an exception, whether it is anchored to the
directory of its file, and the pattern after the marks. -/
def ruleMarks (line : List Char) : Bool × Bool × List Char :=
  match line with
  | '\\' :: '!' :: rest => (false, false, '!' :: rest)
  | '\\' :: '#' :: rest => (false, false, '#' :: rest)
  | '!' :: '/' :: rest => (true, true, rest)
  | '!' :: rest => (true, false, rest)
  | '/' :: rest => (false, true, rest)
  | _ => (false, false, line)

/-- The slash at the end of a rule for directories: whether there is one, and the pattern before it. -/
def directoryMark (pattern : List Char) : Bool × List Char :=
  match pattern.reverse with
  | '/' :: '\\' :: earlier => (true, earlier.reverse)
  | '/' :: earlier => (true, earlier.reverse)
  | _ => (false, pattern)

/-- The rule on a line.  Blank lines, comments and lines whose pattern cannot be read hold none. -/
def IgnoreRule.ofLine? (line : String) : Option IgnoreRule :=
  let isComment := line.toList.head? = some '#'
  let trimmed :=
    if endsWith ['\\', ' '] line.toList then line else Text.withoutTrailingBlanks line
  if isComment || trimmed.isEmpty then
    none
  else
    let (isException, isAnchored, pattern) := ruleMarks trimmed.toList
    let (onlyDirectories, pattern) := directoryMark pattern
    (Glob.ofText? (String.ofList (widenedPattern isAnchored pattern))).map fun glob =>
      ⟨glob, isException, onlyDirectories⟩

/-- The lines of a file, each without the characters that end it.  Reading stops at a line that is no
text. -/
def textLines (bytes : List UInt8) : List String :=
  let pieces := Text.splitAt 10 bytes
  let ended := pieces.dropLast.map fun line =>
    if line.getLast? = some 13 then line.dropLast else line
  let last := (pieces.getLast?.toList).filter fun line => !line.isEmpty
  ((ended ++ last).map Text.decode?).takeWhile Option.isSome |>.filterMap id

/-- The rest of a text after its begin, if it begins so. -/
def afterBegin? (start text : List Char) : Option (List Char) :=
  if start.isPrefixOf text then some (text.drop start.length) else none

/-- A path as rules look at it: without the dot and slash at its begin. -/
def withoutDotSlash (path : List Char) : List Char :=
  (afterBegin? "./".toList path).getD path

/-- The rules of an ignore file and the directory they are looked at from. -/
structure IgnoreRules where
  root : Path
  rules : List IgnoreRule
  deriving Repr

namespace IgnoreRules

/-- The rules in the bytes of an ignore file of a directory. -/
def ofBytes (directory : Path) (bytes : List UInt8) : IgnoreRules :=
  let lines :=
    match textLines bytes with
    | [] => []
    | first :: rest => String.ofList (first.toList.dropWhile (· = '\uFEFF')) :: rest
  ⟨⟨String.ofList (withoutDotSlash directory.text.toList)⟩, lines.filterMap IgnoreRule.ofLine?⟩

/-- No rules. -/
def none : IgnoreRules :=
  ⟨⟨""⟩, []⟩

/-- A path as seen from the directory of the rules. -/
def seen (rules : IgnoreRules) (path : List Char) : List Char :=
  let path := withoutDotSlash path
  if rules.root.same ⟨"."⟩ || !path.contains '/' then
    path
  else
    match afterBegin? rules.root.text.toList path with
    | some rest => (afterBegin? ['/'] rest).getD rest
    | Option.none => path

/-- What the rules say about a path. -/
def verdict (rules : IgnoreRules) (path : List Char) (isDirectory : Bool) : Verdict :=
  let seen := String.ofList (rules.seen path)
  let rule? := rules.rules.reverse.find? fun rule =>
    (!rule.onlyDirectories || isDirectory) && rule.glob.matchesPath seen
  match rule? with
  | some rule => if rule.isException then .kept else .ignored
  | Option.none => .undecided

end IgnoreRules

end ComponentMarkers.Scan
