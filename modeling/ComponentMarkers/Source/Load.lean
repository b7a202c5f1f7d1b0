import ComponentMarkers.Source.Unit
import ComponentMarkers.Source.Round
import ComponentMarkers.Log
import ComponentMarkers.Scan.Sources

/-!
# Loading a round from files

All sources below some roots are read into one round.  A file that cannot be read is reported to the
log and left out.
-/

namespace ComponentMarkers.Source

/-- The text of a file, or why there is none. -/
def readText (tree : FileTree) (path : Path) : Except String String :=
  match tree.readFile path with
  | .error fault => .error fault.message
  | .ok bytes =>
    match Text.decode? bytes with
    | some text => .ok text
    | none => .error "stream did not contain valid UTF-8"

/-- Adds the unit in a file to a round. -/
def loadFile (tree : FileTree) (state : SourceRound × List LogEvent) (path : Path) :
    SourceRound × List LogEvent :=
  let (round, log) := state
  match readText tree path with
  | .ok text => ((round.addUnit (readUnit text (some path))).1, log)
  | .error reason =>
    (round, log ++ [⟨.warn, .loading, "Failed to read " ++ path.text ++ ": " ++ reason⟩])

/-- The event that a round was loaded. -/
def loadedEvent (round : SourceRound) : LogEvent :=
  ⟨.info, .loading,
    "Loaded " ++ toString round.units.size ++ " compilation unit(s), " ++
      toString round.elements.size ++ " element(s)"⟩

/-- The round of all sources below some roots, and the events of loading it. -/
def loadRound (tree : FileTree) (roots : List Path) :
    Except Scan.MissingRoot (SourceRound × List LogEvent) :=
  match Scan.collectSources tree roots with
  | .error missing => .error missing
  | .ok sources =>
    let (round, log) := sources.foldl (loadFile tree) (.empty, [])
    .ok (round, log ++ [loadedEvent round])

end ComponentMarkers.Source
