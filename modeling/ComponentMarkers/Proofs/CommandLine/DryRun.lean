import ComponentMarkers.CommandLine.Program
import ComponentMarkers.Proofs.CommandLine.Confinement
import ComponentMarkers.Proofs.Log.File
import ComponentMarkers.Proofs.Marking.Vacant
import ComponentMarkers.Proofs.Source.Words

/-!
# What a dry run predicts

A dry run marks into memory, where nothing stands in the way of a marker.  On disk nothing does either
when the output root is an empty directory or is not there yet.  So both runs have one report and print
one text; the files below the output root are the markers that the report lists, and the dry run leaves
everything but the log file as it was.
-/

namespace ComponentMarkers

open Source FileTree

/-- No package in the round has a slash in its name. -/
def Round.HasPlainPackages (round : Round) : Prop :=
  ∀ element ∈ round.table.elements.toList, element.kind = .package →
    '/' ∉ element.qualifiedName.toList

instance (round : Round) : Decidable round.HasPlainPackages :=
  inferInstanceAs (Decidable (∀ element ∈ round.table.elements.toList, _))

section Names

variable {units : List CompilationUnit}

/-- When no declared name has a slash in it, the nested name of a type has none either. -/
theorem slash_not_mem_nestedName
    (hnames : ∀ unit ∈ units, ∀ declaration ∈ unit.types,
      declaration.Every fun inner => '/' ∉ inner.name.toList)
    {id : ElementId} {element : Element}
    (hget : (SourceRound.ofUnits units).toRound.table.get? id = some element)
    (hkind : element.kind.isType) {identity : ArtifactIdentity}
    (h : resolveIdentity (SourceRound.ofUnits units).toRound.table id = .ok identity) :
    '/' ∉ identity.nestedName.toList := by
  obtain ⟨names, hleads, hnested⟩ := exists_leadsToPackage_of_resolveIdentity hget hkind h
  rw [hnested]
  refine slash_not_mem_intercalate (hleads.forall_names (P := fun _ => True)
    (Q := fun name => '/' ∉ name.toList) (fun _ _ _ _ => trivial) ?_).2
  intro other type hother htype
  rcases exists_declaration_of_get? hother with
    ⟨unit, hunit, hsame, -⟩ | ⟨unit, hunit, declaration, hdeclared, inner, hinner, -, hname⟩
  · rw [hsame] at htype
    cases htype
  · rw [hname]
    exact hinner _ (hnames unit hunit declaration hdeclared)

/-- The markers of a round that was loaded can be written below an output root when no package has a
slash in its name and the file system takes their paths. -/
theorem everyMarker_isWritable_of_loadRound
    {tree : FileTree} {roots : List Path} {round : SourceRound} {loading : List LogEvent}
    (hload : loadRound tree roots = .ok (round, loading))
    (hpackages : round.toRound.HasPlainPackages) {out : Path}
    (haccepts : round.toRound.EveryMarker fun identity =>
      Accepts (out.join identity.relativePath)) :
    round.toRound.EveryMarker fun identity => identity.IsWritable out := by
  obtain ⟨sources, units, -, rfl, hunits⟩ := exists_units_of_loadRound hload
  have hnames : ∀ unit ∈ units, ∀ declaration ∈ unit.types,
      declaration.Every fun inner => '/' ∉ inner.name.toList := by
    intro unit hunit declaration hdeclared
    obtain ⟨file, -, text, -, rfl⟩ := hunits unit hunit
    exact every_slash_not_mem_of_mem_readUnit text (some file) hdeclared
  intro classes collected hdiscover id hid identity hidentity
  obtain ⟨start, -, -, element, hget, hkind⟩ :=
    (mem_of_collectClasses (congrArg Prod.fst hdiscover) id).1 hid
  obtain ⟨owner, package, hpackage, hpackageKind, hname⟩ :=
    exists_package_of_resolveIdentity hidentity
  refine ⟨?_, ?_, haccepts classes collected hdiscover id hid identity hidentity⟩
  · rw [← hname]
    exact hpackages package (Array.mem_toList_iff.2 (Array.mem_of_getElem? hpackage)) hpackageKind
  · exact slash_not_mem_nestedName hnames hget (by rw [hkind]; rfl) hidentity

end Names

namespace CommandLine

/-- One round is reported as the round function leaves it, and the round after it that ends the run
does nothing more. -/
theorem runOnce_of_processRound
    {σ ω : Type} {filer : Filer σ ω} {now : Timestamp} {round : Round}
    (hover : round.isOver = false) {resources last : σ} {outcome : RoundOutcome}
    {events : List LogEvent}
    (hrun : processRound filer now .standard MarkerRegistry.standardIdentifiers round resources =
      ((.ok outcome, events), last)) :
    ∃ host, runOnce filer now round resources =
        (.ok ⟨1, round.markerAnnotations, outcome.paths, outcome.diagnostics, true⟩, host) ∧
      host.resources = last := by
  let opened := Session.start .new .log (⟨resources, .empty, []⟩ : HostState σ)
  have hready : opened.1.IsReady opened.2.records := Session.isReady_start trivial
  have hpresent : opened.1.presentAnnotations round = round.markerAnnotations := by
    rw [Session.presentAnnotations_of_standard rfl, hover]
    rfl
  have hmarked : processRound filer now .standard (opened.1.presentAnnotations round) round
      resources = ((.ok outcome, events), last) := by
    rw [hpresent, Round.markerAnnotations, processRound_filter_present]
    exact hrun
  obtain ⟨records, log, hran⟩ := hready.runRound_eq opened.2 hmarked
  rw [hpresent] at hran
  let next : Session := { opened.1 with rounds := opened.1.rounds + 1 }
  have hidle : next.IsIdle := ⟨⟨_, rfl⟩, rfl⟩
  obtain ⟨-, -, hresources⟩ := hidle.runRound_spec filer now SourceRound.final.toRound
    ⟨last, records, log⟩
  rw [hidle.presentAnnotations_eq, if_pos (show SourceRound.final.toRound.isOver = true from rfl),
    processRound_nil] at hresources
  refine ⟨(next.runRound filer now SourceRound.final.toRound ⟨last, records, log⟩).2.2, ?_,
    hresources⟩
  rw [runOnce]
  split
  rename_i hstart
  cases hstart
  split
  · rename_i hother
    exact absurd (hran.symm.trans hother) (by simp)
  · rename_i hsame
    cases hran.symm.trans hsame
    rfl

section Scans

variable {invocation : Invocation} {tree after : FileTree} {roots : List Path} {out : Path}
  {round : SourceRound} {loading : List LogEvent} {report : RoundReport}

theorem exists_scan_dry
    (out : Path) {now : Timestamp} (hload : loadRound tree roots = .ok (round, loading))
    {host : HostState MemoryStore}
    (hrun : runOnce memoryFiler now round.toRound .empty = (.ok report, host)) (json : Bool) :
    ∃ log, scan now roots out true json tree = ⟨none, scanOutput out json report, log, tree⟩ := by
  rw [scan, hload]
  dsimp only
  rw [if_pos rfl, hrun]
  exact ⟨_, rfl⟩

theorem exists_scan_real
    {now : Timestamp} (hload : loadRound tree roots = .ok (round, loading))
    {host : HostState FileTree}
    (hrun : runOnce (diskFiler out) now round.toRound tree = (.ok report, host)) (json : Bool) :
    ∃ log, scan now roots out false json tree =
      ⟨none, scanOutput out json report, log, host.resources⟩ := by
  rw [scan, hload]
  dsimp only
  rw [if_neg Bool.false_ne_true, hrun]
  exact ⟨_, rfl⟩

/-- A run whose command succeeds prints what the command prints, and changes after it no more than the
log file. -/
theorem runCommand_of_scan
    {dryRun json : Bool} {output : String} {log : List LogEvent}
    (hscan : scan invocation.now roots out dryRun json
        (tree.openLogFile invocation.home .scan invocation.day).2 = ⟨none, output, log, after⟩) :
    let run := (runCommand invocation tree (.scan roots out dryRun json)).1
    run.exitCode = 0 ∧ run.output = output ∧
      ∀ place, (tree.openLogFile invocation.home .scan invocation.day).1 ≠ .ok place →
        run.tree.node? place = after.node? place := by
  intro run
  rcases hopen : tree.openLogFile invocation.home .scan invocation.day with ⟨fault | file, opened⟩
  · rw [hopen] at hscan
    obtain ⟨shown, hrun⟩ : ∃ shown, run = ⟨0, output, [], shown, after⟩ := by
      simp only [run, runCommand, Command.logTarget, hopen, Command.perform, hscan]
      exact ⟨_, rfl⟩
    rw [hrun]
    exact ⟨rfl, rfl, fun _ _ => rfl⟩
  · rw [hopen] at hscan
    obtain ⟨shown, hrun⟩ : ∃ shown,
        run = ⟨0, output, [], shown, after.appendEvents file shown⟩ := by
      simp only [run, runCommand, Command.logTarget, hopen, Command.perform, hscan]
      exact ⟨_, rfl⟩
    rw [hrun]
    refine ⟨rfl, rfl, fun place hplace => ?_⟩
    exact after.node?_appendEvents (fun hsame => hplace (by rw [hsame])) shown

end Scans

/-- Opening the log file of a scan leaves what is below an output root as it is, and the file lies
neither at the output root nor on the way to it. -/
structure LogsElsewhere (invocation : Invocation) (tree : FileTree) (output : Place) : Prop where
  below : ∀ more, more ≠ [] →
    (tree.openLogFile invocation.home .scan invocation.day).2.node? (output ++ more) =
      tree.node? (output ++ more)
  apart : ∀ place, (tree.openLogFile invocation.home .scan invocation.day).1 = .ok place →
    ¬ place <+: output

/-- A dry run predicts the real run.  Let sources be loaded into a round in which no package has a
slash in its name, and let the output root be an empty directory or not be there yet, the log lying
elsewhere and the file system taking the paths of all markers.  Then one report tells what becomes of
the round in memory and on disk, and both runs succeed and print the same text.  The dry run changes
nothing but the log file, once the log is open; opening it makes no more than directories and that file.
After the real run the files below the output root are the markers that the report lists. -/
theorem dry_run_predicts_run
    (invocation : Invocation) {tree : FileTree} (hsound : tree.IsSound) {roots : List Path}
    {round : SourceRound} {loading : List LogEvent}
    (hload : loadRound (tree.openLogFile invocation.home .scan invocation.day).2 roots =
      .ok (round, loading))
    (hpackages : round.toRound.HasPlainPackages) {out base : Path} {place : Place}
    {names : List String} (hvacant : tree.IsVacant out base place names)
    (hlog : LogsElsewhere invocation tree (place ++ names))
    (haccepts : round.toRound.EveryMarker fun identity =>
      Accepts (out.join identity.relativePath)) :
    let opened := tree.openLogFile invocation.home .scan invocation.day
    ∃ report,
      (runOnce memoryFiler invocation.now round.toRound .empty).1 = .ok report ∧
      (runOnce (diskFiler out) invocation.now round.toRound opened.2).1 = .ok report ∧
      ∀ json,
        let dry := (runCommand invocation tree (.scan roots out true json)).1
        let real := (runCommand invocation tree (.scan roots out false json)).1
        (dry.exitCode = 0 ∧ dry.output = scanOutput out json report) ∧
        (real.exitCode = 0 ∧ real.output = scanOutput out json report) ∧
        (∀ other, opened.1 ≠ .ok other → dry.tree.node? other = opened.2.node? other ∧
          (opened.2.node? other = tree.node? other ∨
            tree.node? other = none ∧ opened.2.node? other = some .directory)) ∧
        ∀ more bytes, real.tree.node? (place ++ names ++ more) = some (.file bytes) ↔
          bytes = Text.encode (provenanceStart ++ invocation.now.text) ∧
            ∃ path ∈ report.written, path.components = more.map .normal := by
  intro opened
  obtain ⟨directories, content, hgains⟩ :=
    hsound.exists_gains_openLogFile invocation.home .scan invocation.day
  have hlogFile : ∀ file, file ∈ opened.1.toOption.toList ↔ opened.1 = .ok file := by
    intro file
    rw [Option.mem_toList]
    cases opened.1 <;> simp [Except.toOption]
  have hopened : opened.2.IsVacant out base place names :=
    hvacant.of_gains hgains (fun file hfile => hlog.apart file ((hlogFile file).1 hfile)) hlog.below
  have hwritable := everyMarker_isWritable_of_loadRound hload hpackages haccepts
  obtain ⟨sources, units, -, rfl, -⟩ := exists_units_of_loadRound hload
  have hloaded := SourceRound.isLoaded_ofUnits units
  obtain ⟨outcome, events, last, store, hdisk, hmemory, hfiles⟩ :=
    exists_processRound_of_isVacant hopened hloaded.isClosed hwritable invocation.now .empty
  obtain ⟨memoryHost, hdryRun, -⟩ := runOnce_of_processRound hloaded.isOver_eq hmemory
  obtain ⟨diskHost, hrealRun, rfl⟩ := runOnce_of_processRound hloaded.isOver_eq hdisk
  refine ⟨_, congrArg Prod.fst hdryRun, congrArg Prod.fst hrealRun, fun json => ?_⟩
  obtain ⟨dryLog, hdryScan⟩ := exists_scan_dry out hload hdryRun json
  obtain ⟨realLog, hrealScan⟩ := exists_scan_real hload hrealRun json
  obtain ⟨hdryCode, hdryOutput, hdryTree⟩ := runCommand_of_scan hdryScan
  obtain ⟨hrealCode, hrealOutput, hrealTree⟩ := runCommand_of_scan hrealScan
  refine ⟨⟨hdryCode, hdryOutput⟩, ⟨hrealCode, hrealOutput⟩, fun other hother => ?_,
    fun more bytes => ?_⟩
  · refine ⟨hdryTree other hother, ?_⟩
    rcases hgains.other other (mt (hlogFile other).1 hother) with hsame | ⟨-, hmade⟩
    · exact Or.inl hsame
    · exact Or.inr hmade
  · -- The log file is not below the output root, where nothing was when it was opened.
    have hother : opened.1 ≠ .ok (place ++ names ++ more) := by
      intro hsame
      exact (ne_file_and_ne_link (hopened.node?_eq more)).1 content
        (hgains.file_eq _ ((hlogFile _).2 hsame))
    rw [hrealTree _ hother, hfiles]
    rfl

/-- A source with one class to be marked. -/
def shopSource : String :=
  "package shop;\n@javax.enterprise.context.Dependent class Cart \x7b\x7d\n"

/-- The unit in that source. -/
def shopUnit : CompilationUnit where
  path := some ⟨"src/Cart.java"⟩
  package := some "shop"
  packageAnnotations := []
  imports := []
  types := [⟨.classType, "Cart", ["javax.enterprise.context.Dependent"], none, []⟩]

/-- A tree of files with that source and the home of a user. -/
def shopTree : FileTree where
  entries := [(["work"], .directory), (["work", "src"], .directory),
    (["work", "src", "Cart.java"], .file (Text.encode shopSource)), (["home"], .directory)]
  workingDirectory := ["work"]

/-- A run that logs in that home. -/
def shopInvocation : Invocation where
  arguments := ["scan", "src", "--out", "out"]
  logSetting := none
  home := ⟨"/home"⟩
  now := ⟨2026, 1, 1, 0, 0, 0, true, 0, 0⟩
  day := "2026-01-01"

theorem readUnit_shopSource : readUnit shopSource (some ⟨"src/Cart.java"⟩) = shopUnit :=
  readUnit_of_said (by decide +kernel) (by decide +kernel) (by decide +kernel) _

theorem loadRound_shopTree :
    ∃ log, loadRound (shopTree.openLogFile shopInvocation.home .scan shopInvocation.day).2
      [⟨"src"⟩] = .ok (SourceRound.ofUnits [shopUnit], log) :=
  loadRound_of_collectSources ⟨"src/Cart.java"⟩ shopSource
    (by decide +kernel) (by decide +kernel) readUnit_shopSource

theorem shopTree_isVacant : shopTree.IsVacant ⟨"out"⟩ ⟨""⟩ ["work"] ["out"] := by
  have hnone : ∀ more, shopTree.node? (["work", "out"] ++ more) = none :=
    node?_eq_none_of_entries (by decide) (by decide +kernel)
  refine ⟨⟨by decide +kernel, by decide +kernel⟩, by decide +kernel, ?_, fun more _ => hnone more⟩
  rintro other hother
  obtain rfl := List.mem_singleton.1 hother
  exact Or.inl (hnone [])

theorem shopInvocation_logsElsewhere :
    LogsElsewhere shopInvocation shopTree ["work", "out"] := by
  constructor
  · intro more _
    rw [node?_eq_none_of_entries (by decide) (by decide +kernel),
      node?_eq_none_of_entries (by decide) (by decide +kernel)]
  · have hplace : (shopTree.openLogFile shopInvocation.home .scan shopInvocation.day).1 =
        .ok ["home", ".cdigen", "logs", "cdigen-scan.2026-01-01.log"] := by
      decide +kernel
    intro place hfile
    rw [hplace] at hfile
    obtain rfl := Except.ok.inj hfile
    decide

theorem shopUnit_everyMarker :
    (SourceRound.ofUnits [shopUnit]).toRound.EveryMarker fun identity =>
      Accepts ((Path.mk "out").join identity.relativePath) := by
  have hdiscover : (discover .standard MarkerRegistry.standardIdentifiers
      (SourceRound.ofUnits [shopUnit]).toRound).1 = .ok ⟨[⟨1⟩], by decide⟩ := by
    decide +kernel
  have haccepts : ∀ identity ∈
      (resolveIdentity (SourceRound.ofUnits [shopUnit]).toRound.table ⟨1⟩).toOption,
        Accepts ((Path.mk "out").join identity.relativePath) := by
    decide +kernel
  intro classes collected hfound id hid identity hidentity
  rw [hfound] at hdiscover
  obtain rfl := Except.ok.inj hdiscover
  obtain rfl := List.mem_singleton.1 hid
  exact haccepts identity (by rw [hidentity]; rfl)

/-- Both runs over this tree print the path of the marker of the class. -/
theorem dry_run_predicts_run_shopTree :
    shopTree.IsSound ∧ shopTree.IsVacant ⟨"out"⟩ ⟨""⟩ ["work"] ["out"] ∧
      LogsElsewhere shopInvocation shopTree ["work", "out"] ∧
      ∃ loading report,
        loadRound (shopTree.openLogFile shopInvocation.home .scan shopInvocation.day).2
            [⟨"src"⟩] = .ok (SourceRound.ofUnits [shopUnit], loading) ∧
        (SourceRound.ofUnits [shopUnit]).toRound.HasPlainPackages ∧
        ((SourceRound.ofUnits [shopUnit]).toRound.EveryMarker fun identity =>
          Accepts ((Path.mk "out").join identity.relativePath)) ∧
        report.written = [⟨"shop/Cart.component"⟩] ∧
        ∀ json, ∀ dryRun ∈ [true, false],
          (runCommand shopInvocation shopTree (.scan [⟨"src"⟩] ⟨"out"⟩ dryRun json)).1.output =
            scanOutput ⟨"out"⟩ json report := by
  have hsound : shopTree.IsSound := by decide +kernel
  have hpackages : (SourceRound.ofUnits [shopUnit]).toRound.HasPlainPackages := by
    decide +kernel
  obtain ⟨loading, hload⟩ := loadRound_shopTree
  obtain ⟨report, hmemory, -, hruns⟩ := dry_run_predicts_run shopInvocation hsound hload hpackages
    shopTree_isVacant shopInvocation_logsElsewhere shopUnit_everyMarker
  have hwritten : ((runOnce memoryFiler shopInvocation.now
      (SourceRound.ofUnits [shopUnit]).toRound .empty).1.toOption.map RoundReport.written) =
        some [⟨"shop/Cart.component"⟩] := by
    decide +kernel
  rw [hmemory] at hwritten
  refine ⟨hsound, shopTree_isVacant, shopInvocation_logsElsewhere, loading, report, hload, hpackages,
    shopUnit_everyMarker, Option.some.inj hwritten, fun json dryRun hdryRun => ?_⟩
  obtain ⟨⟨-, hdry⟩, ⟨-, hreal⟩, -⟩ := hruns json
  rcases List.mem_cons.1 hdryRun with rfl | hdryRun
  · exact hdry
  · obtain rfl := List.mem_singleton.1 hdryRun
    exact hreal

end CommandLine

end ComponentMarkers
