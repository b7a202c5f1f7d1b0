import ComponentMarkers.CommandLine.Effect
import ComponentMarkers.Filer.Disk
import ComponentMarkers.Source.Load

/-!
# Watching

A watch runs one round at its begin and one more for every batch of changes that matter, all of them in
one session.  Roots are made absolute first, since changes are told by absolute paths.
-/

namespace ComponentMarkers.CommandLine

/-- A watch between two rounds. -/
structure Watch where
  roots : List Path
  out : Path
  session : Session
  records : Records
  deriving DecidableEq, Repr

namespace Watch

/-- A watch over some roots.  Each of them has to lead to something. -/
def ofRoots (roots : List Path) (out : Path) (tree : FileTree) : Except Failure Watch :=
  match roots.mapM tree.resolve? with
  | .error error => .error (.unreachableRoot error)
  | .ok places =>
    let (session, host) := Session.start .new .log (⟨(), .empty, []⟩ : HostState Unit)
    .ok ⟨places.map absolutePath, out, session, host.records⟩

/-- Runs a round over the sources as they are now. -/
def runRound (now : Timestamp) (tree : FileTree) (watch : Watch) : Effect × Watch :=
  match Source.loadRound tree watch.roots with
  | .error missing => (⟨some (.missingRoot missing), "", [], tree⟩, watch)
  | .ok (round, loading) =>
    match watch.session.runRound (diskFiler watch.out) now round.toRound
        ⟨tree, watch.records, loading⟩ with
    | (.error unknown, session, host) =>
      (⟨some (.unknownElement unknown), "", host.log, host.resources⟩,
        { watch with session := session, records := host.records })
    | (.ok report, session, host) =>
      (⟨none, "", host.log ++ summary report, host.resources⟩,
        { watch with session := session, records := host.records })

/-- The changed paths that can change what a round finds. -/
def relevant (watch : Watch) (changed : List Path) : List Path :=
  changed.filter fun path => watch.roots.any fun root => Scan.isRelevant root path

/-- The event that a watch over some roots begins. -/
def begunEvent (watch : Watch) : LogEvent :=
  ⟨.info, .watching, "Initial round over " ++ toString watch.roots.length ++ " source root(s)..."⟩

/-- The event that a round could not be run. -/
def failedEvent (failure : Failure) : LogEvent :=
  let reason :=
    match failure with
    | .missingRoot missing => missing.message
    | other => other.details
  ⟨.error, .watching, "Failed to load sources: " ++ reason⟩

/-- The event that some changes lead to a new round. -/
def changedEvent (count : Nat) : LogEvent :=
  ⟨.info, .watching,
    "Detected " ++ toString count ++ " changed source path(s); starting a new round"⟩

end Watch

/-- Begins a watch: its first round is run.  The result says how the watch goes on, if it does. -/
def beginWatch (now : Timestamp) (roots : List Path) (out : Path) (tree : FileTree) :
    Effect × Option Watch :=
  match Watch.ofRoots roots out tree with
  | .error failure => (⟨some failure, "", [], tree⟩, none)
  | .ok watch =>
    let (effect, next) := watch.runRound now tree
    let effect := { effect with log := watch.begunEvent :: effect.log }
    (effect, if effect.failure.isSome then none else some next)

end ComponentMarkers.CommandLine
