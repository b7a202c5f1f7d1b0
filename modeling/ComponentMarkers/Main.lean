import ComponentMarkers.CommandLine.Program
import Std.Time.Zoned

/-!
# The program

A run works on a picture of the part of the file system that it can reach.  The picture is taken before
the run, and what the run changed in it is made real afterwards.
-/

namespace ComponentMarkers.CommandLine

/-- The place of a path from the root of the file system. -/
def placeOf (absolute : String) : Place :=
  (Path.mk absolute).pieces

/-- Names in a directory that are looked at for the sake of the directories below it. -/
def ruleEntries : List Place :=
  [[".ignore"], [".gitignore"], [".jj"], [".git"], [".git", "info"], [".git", "info", "exclude"]]

/-- Adds what stands at a place to a picture, without what is in it. -/
def observe (place : Place) (tree : FileTree) : IO FileTree := do
  if place.isEmpty then
    return tree
  let here := (← IO.currentDir) / (absolutePath place).text
  match ← here.symlinkMetadata.toBaseIO with
  | .error _ => return tree
  | .ok metadata =>
    match metadata.type with
    | .dir => return tree.put place .directory
    | .symlink =>
      match ← (IO.FS.realPath here).toBaseIO with
      | .ok target => return tree.put place (.link ⟨target.toString⟩)
      | .error _ => return tree.put place (.link (absolutePath place))
    | _ =>
      match ← (IO.FS.readBinFile here).toBaseIO with
      | .ok content => return tree.put place (.file content.toList)
      | .error _ => return tree.put place (.file [])

/-- Adds the directories around a place to a picture, with the files in them that may say what is left
out of a scan. -/
def observeAround (place : Place) (tree : FileTree) : IO FileTree := do
  let mut tree := tree
  for length in List.range place.length do
    tree ← observe (place.take length) tree
    for entry in ruleEntries do
      tree ← observe (place.take length ++ entry) tree
  return tree

/-- Adds what stands at a place to a picture, with what links lead to and what is in directories. -/
partial def observeAll (place : Place) (tree : FileTree) : IO FileTree := do
  let mut tree ← observe place tree
  match tree.node? place with
  | some .directory =>
    if place.getLast? = some ".git" then
      return tree
    for entry in ← ((← IO.currentDir) / (absolutePath place).text).readDir do
      tree ← observeAll (place ++ [entry.fileName]) tree
    for entry in ruleEntries do
      tree ← observe (place ++ entry) tree
    return tree
  | some (.link target) =>
    let target := placeOf target.text
    observe target (← observeAround target tree)
  | _ => return tree

/-- Adds what a path leads to, and all it leads through, to a picture. -/
def observePath (path : Path) (tree : FileTree) : IO FileTree := do
  let mut tree := tree
  let mut reached ← IO.currentDir
  if path.isAbsolute then
    reached := reached / "/"
  for piece in path.pieces do
    match ← (IO.FS.realPath reached).toBaseIO with
    | .error _ => return tree
    | .ok directory =>
      let place := placeOf (directory / piece).toString
      tree ← observe place (← observeAround place tree)
      reached := directory / piece
  match ← (IO.FS.realPath reached).toBaseIO with
  | .error _ => return tree
  | .ok found =>
    let place := placeOf found.toString
    observeAll place (← observeAround place tree)

/-- The paths from which a command reads and to which it writes. -/
def Command.paths : Command → List Path
  | scan roots out _ _ => out :: roots
  | watch roots out => out :: roots
  | capabilities => []

/-- The file that the user's settings name for what is ignored in all repositories. -/
def namedIgnoreFile? (home settings : String) : Option String :=
  (settings.splitOn "\n").findSome? fun line =>
    match line.splitOn "=" with
    | [key, value] =>
      if key.trimAscii.toString.toLower = "excludesfile" then
        some ((value.replace "\"" "").trimAscii.toString.replace "~" home)
      else
        none
    | _ => none

/-- The bytes of the user's ignore file for all repositories. -/
def readUserIgnoreFile : IO (List UInt8) := do
  let home := (← IO.getEnv "HOME").getD ""
  let settings := ((← IO.getEnv "XDG_CONFIG_HOME").filter fun path => path ≠ "").getD (home ++ "/.config")
  let mut chosen := settings ++ "/git/ignore"
  for file in [settings ++ "/git/config", home ++ "/.gitconfig"] do
    if let .ok text ← (IO.FS.readFile file).toBaseIO then
      chosen := (namedIgnoreFile? home text).getD chosen
  match ← (IO.FS.readBinFile chosen).toBaseIO with
  | .ok content => return content.toList
  | .error _ => return []

/-- A picture of what some paths lead to. -/
def picture (paths : List Path) : IO FileTree := do
  let here := placeOf (← IO.FS.realPath (← IO.currentDir)).toString
  let mut tree ← observeAround (here ++ ["."]) ⟨[], here, ← readUserIgnoreFile⟩
  for path in paths do
    tree ← observePath path tree
  return tree

/-- Makes real what was added to a picture. -/
def realize (before after : FileTree) : IO Unit := do
  for (place, node) in before.additions after do
    let text := (absolutePath place).text
    match node with
    | .directory => IO.FS.createDir text
    | .file content => IO.FS.writeBinFile text (ByteArray.mk content.toArray)
    | .link _ => pure ()

/-- The time, as markers have it. -/
def currentTime : IO Timestamp := do
  let now ← Std.Time.DateTime.now
  let offset := now.timezone.offset.second.val
  let minutes := offset.natAbs / 60
  return ⟨now.year.toInt.toNat, now.month.val.toNat, now.day.val.toNat, now.hour.val.toNat,
    now.minute.val.toNat, now.second.val.toNat, decide (0 ≤ offset), minutes / 60, minutes % 60⟩

/-- The day in universal time, as the names of log files have it. -/
def currentDay : IO String := do
  let now ← Std.Time.DateTime.now
  let date := (Std.Time.DateTime.ofTimestamp now.timestamp .UTC).date.get.date
  return "-".intercalate
    [Timestamp.padded 4 date.year.toInt.toNat, Timestamp.padded 2 date.month.val.toNat,
      Timestamp.padded 2 date.day.val.toNat]

/-- Shows events. -/
def showEvents (events : List LogEvent) : IO Unit :=
  for event in events do
    IO.eprintln event.written

/-- Waits for changes that matter and runs a round for each batch of them. -/
partial def goOn (invocation : Invocation) (paths : List Path) (before : FileTree) (watch : Watch) :
    IO Unit := do
  IO.sleep 500
  let tree ← picture paths
  let relevant := watch.relevant ((before.differences tree).map absolutePath)
  if relevant.isEmpty then
    goOn invocation paths tree watch
  else
    let (effect, watch) := watch.runRound (← currentTime) tree
    let failed := (effect.failure.map Watch.failedEvent).toList
    let filter := LogFilter.ofSetting invocation.logSetting
    let events := Watch.changedEvent relevant.length :: effect.log ++ failed
    let shown := events.filter filter.passes
    let (file, written) := effect.tree.openLogFile invocation.home .watch invocation.day
    let written :=
      match file with
      | .ok place => written.appendEvents place shown
      | .error _ => written
    realize tree written
    showEvents shown
    goOn invocation paths tree watch

/-- Runs the program in the file system. -/
def runProgram (arguments : List String) : IO UInt32 := do
  let home : Path := ⟨((← IO.getEnv "HOME").filter fun home => home ≠ "").getD "."⟩
  let invocation : Invocation :=
    ⟨arguments, ← IO.getEnv "RUST_LOG", home, ← currentTime, ← currentDay⟩
  let paths :=
    match readCommand arguments with
    | .ok command => logDirectory home :: command.paths
    | .error _ => []
  let tree ← picture paths
  let (run, watch) := run invocation tree
  realize tree run.tree
  IO.print run.output
  showEvents run.log
  for complaint in run.complaints do
    IO.eprintln complaint
  match watch with
  | some watch => goOn invocation paths run.tree watch
  | none => pure ()
  return UInt32.ofNat run.exitCode

end ComponentMarkers.CommandLine

/-- The program. -/
def main (arguments : List String) : IO UInt32 :=
  ComponentMarkers.CommandLine.runProgram arguments
