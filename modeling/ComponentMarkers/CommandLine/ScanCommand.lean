import ComponentMarkers.CommandLine.Effect
import ComponentMarkers.Filer.Disk
import ComponentMarkers.Filer.Memory
import ComponentMarkers.Source.Load

/-!
# Scanning once

The sources below the roots are read into one round, which is run and followed by the round that ends
the run.  A dry run differs only in where markers go: into memory, and so nowhere in the end.
-/

namespace ComponentMarkers.CommandLine

/-- Runs a round in a session of its own and then the round that ends the session.  The result is the
report on the first of them. -/
def runOnce (filer : Filer σ ω) (now : Timestamp) (round : Round) (resources : σ) :
    Except UnknownElement RoundReport × HostState σ :=
  let (session, host) := Session.start .new .log ⟨resources, .empty, []⟩
  match session.runRound filer now round host with
  | (.error unknown, _, host) => (.error unknown, host)
  | (.ok report, session, host) =>
    (.ok report, (session.runRound filer now Source.SourceRound.final.toRound host).2.2)

/-- The printed text on a report: the report itself as JSON, or the paths of the markers with one on
each line. -/
def scanOutput (out : Path) (json : Bool) (report : RoundReport) : String :=
  if json then
    report.json.pretty ++ "\n"
  else
    String.join (report.written.map fun path => (out.join path).text ++ "\n")

/-- Scans the sources below some roots.  Markers become files below `out`, unless the run is dry. -/
def scan (now : Timestamp) (roots : List Path) (out : Path) (dryRun json : Bool) (tree : FileTree) :
    Effect :=
  let begun : LogEvent :=
    ⟨.info, .scanning, "Scanning " ++ toString roots.length ++ " source root(s)..."⟩
  match Source.loadRound tree roots with
  | .error missing => ⟨some (.missingRoot missing), "", [begun], tree⟩
  | .ok (round, loading) =>
    let (result, marking, tree) :=
      if dryRun then
        let (result, host) := runOnce memoryFiler now round.toRound .empty
        (result, host.log, tree)
      else
        let (result, host) := runOnce (diskFiler out) now round.toRound tree
        (result, host.log, host.resources)
    let log := begun :: loading ++ marking
    match result with
    | .error unknown => ⟨some (.unknownElement unknown), "", log, tree⟩
    | .ok report =>
      ⟨none, scanOutput out json report, if json then log else log ++ summary report, tree⟩

end ComponentMarkers.CommandLine
