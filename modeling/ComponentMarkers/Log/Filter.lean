import ComponentMarkers.Log
import ComponentMarkers.Text.Blank
import ComponentMarkers.Text.Dotted
import ComponentMarkers.Text.NameCharacters

/-!
# Filters for the log

A filter is a list of directives separated by commas, each a level for all parts of the program whose
names begin with a given text, or for all parts.  Of the directives that apply to an event the one with
the longest text decides, and of two for the same text the later one.  What no directive applies to is
held back.
-/

namespace ComponentMarkers

/-- How much of a part's events passes: all events up to a rank, where 0 lets nothing pass. -/
abbrev LogRank := Nat

/-- The rank from which on events of a level pass. -/
def LogLevel.rank : LogLevel → LogRank
  | .error => 1
  | .warn => 2
  | .info => 3

/-- A directive. -/
structure LogDirective where
  /-- What the names of the parts begin with; no text stands for all parts. -/
  target : Option String
  rank : LogRank
  deriving DecidableEq, Repr

/-- Directives in the order of entry. -/
structure LogFilter where
  directives : List LogDirective
  deriving DecidableEq, Repr

namespace LogFilter

/-- The greatest rank, which lets everything pass. -/
def highest : LogRank :=
  5

/-- A letter of the basic alphabet in lower case. -/
def lowered (c : Char) : Char :=
  if 'A' ≤ c ∧ c ≤ 'Z' then Char.ofNat (c.toNat + 32) else c

/-- The number that decimal digits write, a plus sign before them being allowed. -/
def number? (cs : List Char) : Option Nat :=
  let digits :=
    match cs with
    | '+' :: rest => rest
    | _ => cs
  if digits.isEmpty || !digits.all Char.isDigit then
    none
  else
    some (digits.foldl (fun n c => n * 10 + (c.toNat - 48)) 0)

/-- The rank that a level is given as: by number or by name. -/
def rank? (cs : List Char) : Option LogRank :=
  match number? cs with
  | some n => if n ≤ highest then some n else none
  | none =>
    match String.ofList (cs.map lowered) with
    | "off" => some 0
    | "" => some 1
    | "error" => some 1
    | "warn" => some 2
    | "info" => some 3
    | "debug" => some 4
    | "trace" => some 5
    | _ => none

/-- A directive may begin with the character. -/
def startsDirective (c : Char) : Bool :=
  c = '-' || c = ':' || c = '_' || c = '[' || c.isDigit || Text.isNamePart c

/-- A directive for part of the program while something is being done.  It has no effect on events
outside of that. -/
def isScoped (cs : List Char) : Bool :=
  cs.contains '['

/-- The form of a scoped directive: a name, what is being done in square brackets, and perhaps a
level. -/
def isWellScoped (cs : List Char) : Bool :=
  match cs.dropWhile (· ≠ ']') with
  | _ :: '=' :: level => level.isEmpty || (rank? level).isSome
  | [_] => true
  | _ => false

/-- The directive that a text writes, `none` inside for one without effect; none at all when it writes
no directive. -/
def directive? (cs : List Char) : Option (Option LogDirective) :=
  let trimmed := (Text.withoutOuterBlanks (String.ofList cs)).toList
  if !(trimmed.head?.any startsDirective) then
    none
  else if isScoped (trimmed.takeWhile (· ≠ '=')) then
    if isWellScoped trimmed then some none else none
  else
    let target := String.ofList (cs.takeWhile (· ≠ '='))
    match cs.dropWhile (· ≠ '=') with
    | [] =>
      match rank? cs with
      | some rank => some (some ⟨none, rank⟩)
      | none => some (some ⟨some target, highest⟩)
    | _ :: [] => some (some ⟨some target, highest⟩)
    | _ :: level => (rank? level).map fun rank => some ⟨some target, rank⟩

/-- The filter that a text writes, none when one of its directives is none.  A text without directives
lets errors pass. -/
def ofText? (s : String) : Option LogFilter :=
  let pieces := (Text.splitAt ',' s.toList).filter fun piece => !piece.isEmpty
  match pieces with
  | [] => some ⟨[⟨none, 1⟩]⟩
  | _ => (pieces.mapM directive?).map fun directives => ⟨directives.filterMap id⟩

/-- The filter that is used unless another one is given. -/
def standard : LogFilter :=
  ⟨[⟨none, 2⟩, ⟨some "cdigen_core", 3⟩, ⟨some "cdigen_java", 3⟩, ⟨some "cdigen_cli", 3⟩]⟩

/-- The filter of a run whose user may have given a text for it. -/
def ofSetting (setting : Option String) : LogFilter :=
  (setting.bind ofText?).getD standard

/-- How long the text of a directive is; one for all parts is shorter than any other. -/
def reach (directive : LogDirective) : Nat :=
  match directive.target with
  | some target => target.utf8ByteSize + 1
  | none => 0

/-- The directive applies to a part of the program. -/
def applies (source : LogSource) (directive : LogDirective) : Bool :=
  match directive.target with
  | some target => target.toList.isPrefixOf source.label.toList
  | none => true

/-- The directive that decides about a part of the program. -/
def deciding? (filter : LogFilter) (source : LogSource) : Option LogDirective :=
  (filter.directives.filter (applies source)).foldl
    (fun best directive =>
      match best with
      | some found => if reach found ≤ reach directive then some directive else some found
      | none => some directive)
    none

/-- The event passes the filter. -/
def passes (filter : LogFilter) (event : LogEvent) : Bool :=
  (filter.deciding? event.source).any fun directive => event.level.rank ≤ directive.rank

end LogFilter

end ComponentMarkers
