import ComponentMarkers.CommandLine.ScanCommand
import ComponentMarkers.Proofs.Path.Resources
import ComponentMarkers.Proofs.Session.Rounds
import ComponentMarkers.Proofs.Source.Loading
import ComponentMarkers.Proofs.Source.Nesting
import ComponentMarkers.Proofs.Source.Parsed

/-!
# Where markers are written

Markers are to lie below the output root.  The file that is made for a resource does, as long as no
segment of its package begins with a slash.  A package that is read from a source may have such a
segment, because comments inside a dotted name belong to it; its markers are written from the root of
the file system on.
-/

namespace ComponentMarkers

open Source

variable {σ ω : Type}

theorem Filer.exists_create_of_writeResource
    {filer : Filer σ ω} {resource : ResourceName} {origin : Option ElementId}
    {content : List UInt8} {state : σ}
    (h : (filer.writeResource resource origin content state).1 = .ok ()) :
    ∃ writer after, filer.create resource origin state = (.ok writer, after) := by
  rcases hcreate : filer.create resource origin state with ⟨e | writer, after⟩
  · rw [(writeResource_of_create_error content hcreate).1] at h
    cases h
  · exact ⟨writer, after, rfl⟩

/-- Every class that is marked has an identity, and its resource was created. -/
theorem MarksAll.exists_create
    {filer : Filer σ ω} {now : Timestamp} {table : ElementTable} {ids : List ElementId}
    {state last : σ} {results : List MarkResult}
    (h : MarksAll filer now table ids state results last) {identity : ArtifactIdentity}
    (hidentity : .marked identity ∈ results) :
    ∃ id before writer after, resolveIdentity table id = .ok identity ∧
      filer.create identity.resource (some id) before = (.ok writer, after) := by
  induction h with
  | nil => cases hidentity
  | cons hfirst _ ih =>
      rcases List.mem_cons.1 hidentity with rfl | hidentity
      · cases hfirst with
        | marked hresolved hwrite =>
            obtain ⟨writer, created, hcreate⟩ :=
              Filer.exists_create_of_writeResource (congrArg Prod.fst hwrite)
            exact ⟨_, _, writer, created, hresolved, hcreate⟩
      · exact ih hidentity

theorem exists_create_of_mem_artifacts
    {filer : Filer σ ω} {now : Timestamp} {registry : MarkerRegistry} {annotations : List String}
    {round : Round} {state last : σ} {outcome : RoundOutcome} {events : List LogEvent}
    (h : processRound filer now registry annotations round state = ((.ok outcome, events), last))
    {identity : ArtifactIdentity} (hidentity : identity ∈ outcome.artifacts) :
    ∃ id before writer after, resolveIdentity round.table id = .ok identity ∧
      filer.create identity.resource (some id) before = (.ok writer, after) := by
  obtain ⟨classes, collected, results, -, hmarks, rfl, -⟩ := processRound_eq_ok_iff.1 h
  obtain ⟨result, hresult, hartifact⟩ := List.mem_filterMap.1 hidentity
  cases result with
  | marked found =>
      obtain rfl := Option.some.inj hartifact
      exact hmarks.exists_create hresult
  | unresolved id error => cases hartifact
  | unwritten name error => cases hartifact

/-- The file that is made for a resource: it is at the path of the resource taken from the root. -/
theorem createOnDisk_spec
    {root : Path} {resource : ResourceName} {tree after : FileTree} {writer : DiskWriter}
    (h : createOnDisk root resource tree = (.ok writer, after)) :
    isPlainName resource.name ∧
      ∃ made, tree.makeDirectories (root.join resource.path).components.dropLast =
          (.ok (), made) ∧
        made.createFile (root.join resource.path) = .ok (writer.place, after) := by
  rw [createOnDisk] at h
  by_cases hname : isPlainName resource.name
  · rw [if_pos hname] at h
    dsimp only at h
    rcases hmake : tree.makeDirectories (root.join resource.path).components.dropLast with
      ⟨fault | _, made⟩
    · simp [hmake] at h
    · rw [hmake] at h
      dsimp only at h
      rcases hcreate : made.createFile (root.join resource.path) with fault | ⟨place, last⟩
      · simp [hcreate] at h
      · obtain ⟨rfl, rfl⟩ : ⟨place, 0, []⟩ = writer ∧ last = after := by simpa [hcreate] using h
        exact ⟨hname, made, rfl, hcreate⟩
  · rw [if_neg hname] at h
    cases h

/-- A round that is loaded is the round of the units in the sources that could be read. -/
theorem exists_units_of_loadRound
    {tree : FileTree} {roots : List Path} {round : SourceRound} {log : List LogEvent}
    (h : loadRound tree roots = .ok (round, log)) :
    ∃ sources units, Scan.collectSources tree roots = .ok sources ∧
      round = SourceRound.ofUnits units ∧
      ∀ unit ∈ units, ∃ file ∈ sources, ∃ text, readText tree file = .ok text ∧
        unit = readUnit text (some file) := by
  rw [loadRound] at h
  rcases hcollect : Scan.collectSources tree roots with missing | sources
  · simp [hcollect] at h
  · rw [hcollect] at h
    dsimp only at h
    refine ⟨sources, unitsIn tree sources, rfl, ?_, fun unit => (mem_unitsIn tree sources).1⟩
    rw [← (Prod.mk.inj (Except.ok.inj h)).1, fst_foldl_loadFile]
    rfl

namespace CommandLine

theorem exists_processRound_of_runOnce
    {filer : Filer σ ω} {now : Timestamp} {round : Round} {resources : σ} {report : RoundReport}
    {host : HostState σ} (h : runOnce filer now round resources = (.ok report, host)) :
    ∃ annotations outcome events last,
      processRound filer now .standard annotations round resources = ((.ok outcome, events), last) ∧
      report.written = outcome.artifacts.map ArtifactIdentity.relativePath := by
  rw [runOnce, Session.start] at h
  dsimp only at h
  split at h
  · cases h
  · rename_i found session after hrun
    obtain rfl : found = report := Except.ok.inj (congrArg Prod.fst h)
    obtain ⟨outcome, events, last, hprocess, hwritten⟩ :=
      Session.exists_processRound_of_runRound rfl rfl hrun
    exact ⟨_, outcome, events, last, hprocess, hwritten⟩

/-- Every marker that a scan lists was created on disk for the package of one of the sources. -/
theorem exists_source_of_scan
    {now : Timestamp} {roots : List Path} {out : Path} {json : Bool} {tree : FileTree}
    (h : (scan now roots out false json tree).failure = none) :
    ∃ sources report, Scan.collectSources tree roots = .ok sources ∧
      (scan now roots out false json tree).output = scanOutput out json report ∧
      ∀ path ∈ report.written, ∃ file ∈ sources, ∃ text, readText tree file = .ok text ∧
        ∃ resource before writer after,
          resource.package = (readUnit text (some file)).package.getD "" ∧
          createOnDisk out resource before = (.ok writer, after) ∧ path = resource.path := by
  rw [scan] at h ⊢
  rcases hload : loadRound tree roots with missing | ⟨round, loading⟩
  · simp [hload] at h
  · rw [hload] at h
    dsimp only at h ⊢
    rw [if_neg Bool.false_ne_true] at h ⊢
    rcases hrun : runOnce (diskFiler out) now round.toRound tree with
      ⟨unknown | report, host⟩
    · simp [hrun] at h
    · obtain ⟨sources, units, hsources, rfl, hunits⟩ := exists_units_of_loadRound hload
      refine ⟨sources, report, hsources, rfl, ?_⟩
      intro path hpath
      obtain ⟨annotations, outcome, events, last, hprocess, hwritten⟩ :=
        exists_processRound_of_runOnce hrun
      rw [hwritten] at hpath
      obtain ⟨identity, hidentity, rfl⟩ := List.mem_map.1 hpath
      obtain ⟨id, before, writer, after, hresolved, hcreate⟩ :=
        exists_create_of_mem_artifacts hprocess hidentity
      have hproper : ∀ unit ∈ units, ∀ declaration ∈ unit.types,
          declaration.Every Declaration.IsProper := by
        intro unit hunit declaration hdeclaration
        obtain ⟨file, -, text, -, rfl⟩ := hunits unit hunit
        exact every_isProper_of_mem_readUnit text (some file) hdeclaration
      obtain ⟨unit, hunit, hpackage⟩ := exists_unit_of_resolveIdentity hproper hresolved
      obtain ⟨file, hfile, text, htext, rfl⟩ := hunits unit hunit
      exact ⟨file, hfile, text, htext, identity.resource, before, writer, after, hpackage.symm,
        hcreate, rfl⟩

/-- Where files are made.  The file of a resource is the output root and steps to names from there,
unless a segment of the package begins with a slash; then it is the root of the file system and steps
to names from there.  So the markers of a scan lie below the output root except for those of packages
that have such a segment, and of these only the ones lie there whose path leads there by itself. -/
theorem created_isBelow_iff (out : Path) (tree : FileTree) :
    (∀ resource origin writer after,
      (diskFiler out).create resource origin tree = (.ok writer, after) →
        (∃ made, tree.makeDirectories (out.join resource.path).components.dropLast =
            (.ok (), made) ∧
          made.createFile (out.join resource.path) = .ok (writer.place, after)) ∧
        (∃ names : List String, (out.join resource.path).components =
          (if HasRootedSegment resource.package then [.root] else out.components) ++
            names.map .normal) ∧
        ((out.join resource.path).IsBelow out ↔
          ¬ HasRootedSegment resource.package ∨ resource.path.IsBelow out)) ∧
    ∀ now roots json, (scan now roots out false json tree).failure = none →
      ∃ sources report, Scan.collectSources tree roots = .ok sources ∧
        (scan now roots out false json tree).output = scanOutput out json report ∧
        ∀ path ∈ report.written, ∃ file ∈ sources, ∃ text, readText tree file = .ok text ∧
          ((out.join path).IsBelow out ↔
            ¬ HasRootedSegment ((readUnit text (some file)).package.getD "") ∨
              path.IsBelow out) := by
  constructor
  · intro resource origin writer after hcreate
    have hdisk : createOnDisk out resource tree = (.ok writer, after) := hcreate
    obtain ⟨hname, hmade⟩ := createOnDisk_spec hdisk
    exact ⟨hmade, components_join_resourcePath out resource.package hname,
      join_resourcePath_isBelow_iff out resource.package hname⟩
  · intro now roots json hsuccess
    obtain ⟨sources, report, hsources, houtput, hwritten⟩ := exists_source_of_scan hsuccess
    refine ⟨sources, report, hsources, houtput, ?_⟩
    intro path hpath
    obtain ⟨file, hfile, text, htext, resource, before, writer, after, hpackage, hcreate, rfl⟩ :=
      hwritten path hpath
    refine ⟨file, hfile, text, htext, ?_⟩
    rw [← hpackage]
    exact join_resourcePath_isBelow_iff out resource.package (createOnDisk_spec hcreate).1

/-- A source with a comment in the name of its package. -/
def commentedSource : String :=
  "package a.//tmp/escape\nb;\n@javax.enterprise.context.Dependent class X \x7b\x7d\n"

/-- The unit in that source. -/
def commentedUnit : CompilationUnit where
  path := some ⟨"src/X.java"⟩
  package := some "a.//tmp/escapeb"
  packageAnnotations := []
  imports := []
  types := [⟨.classType, "X", ["javax.enterprise.context.Dependent"], none, []⟩]

/-- A tree of files with that source. -/
def commentedTree : FileTree where
  entries := [(["work"], .directory), (["work", "src"], .directory),
    (["work", "src", "X.java"], .file (Text.encode commentedSource))]
  workingDirectory := ["work"]

/-- The marker of the class in that source. -/
def commentedMarker : ResourceName :=
  ⟨.classOutput, "a.//tmp/escapeb", "X.component"⟩

/-- What is read of a declaration at the top.  The trees in a body are only counted, so this can be
compared. -/
inductive Said where
  | package (clause : PackageClause)
  | imports
  | type (kind : ElementKind) (name : String) (modifiers : List AnnotationNode)
      (superclass : Option ExtendsClause) (trees : Nat)
  deriving DecidableEq, Repr

def Said.ofItem : Item → Said
  | .package clause => .package clause
  | .import _ => .imports
  | .type head => .type head.kind head.name head.modifiers head.superclass head.body.length

variable {clause : PackageClause} {name : String} {modifiers : List AnnotationNode}
  {superclass : Option ExtendsClause}

theorem items_of_said
    {trees : List Tree} {kind : ElementKind}
    (hsaid : (items trees).map Said.ofItem =
      [.package clause, .type kind name modifiers superclass 0]) :
    items trees = [.package clause, .type ⟨kind, name, modifiers, superclass, []⟩] := by
  obtain ⟨first, others, hitems, hfirst, hothers⟩ := List.map_eq_cons_iff.1 hsaid
  obtain ⟨second, rest, rfl, hsecond, hrest⟩ := List.map_eq_cons_iff.1 hothers
  obtain rfl := List.map_eq_nil_iff.1 hrest
  rw [hitems]
  cases first with
  | package found =>
      obtain rfl := Said.package.inj hfirst
      cases second with
      | package found => cases hsecond
      | «import» found => cases hsecond
      | type head =>
          obtain ⟨kind, name, modifiers, superclass, body⟩ := head
          obtain ⟨rfl, rfl, rfl, rfl, hbody⟩ := Said.type.inj hsecond
          obtain rfl := List.length_eq_zero_iff.1 hbody
          rfl
  | «import» found => cases hfirst
  | type head => cases hfirst

/-- The unit of a source that says its package and has one annotated class with nothing in it. -/
theorem readUnit_of_said
    {source package scope : String}
    (hsaid : (items (nest (tokens source))).map Said.ofItem =
      [.package ⟨[], package⟩, .type .classType name [⟨scope⟩] none 0])
    (hpackage : dottedText package = package) (hscope : dottedText scope = scope) (path : Option Path) :
    readUnit source path = ⟨path, some package, [], [], [⟨.classType, name, [scope], none, []⟩]⟩ := by
  have hannotations : annotationNames [⟨scope⟩] [] = [scope] :=
    congrArg (fun text => [text]) hscope
  have hdeclaration : ∀ levels, TypeHead.declaration levels
      ⟨.classType, name, [⟨scope⟩], none, []⟩ = ⟨.classType, name, [scope], none, []⟩ := by
    intro levels
    cases levels with
    | zero => rw [TypeHead.declaration, TypeHead.withMembers, hannotations, Option.bind_none]
    | succ levels =>
        rw [TypeHead.declaration, TypeHead.members, if_neg (by simp), Source.members,
          dif_pos rfl, List.flatMap_nil, TypeHead.withMembers, hannotations, Option.bind_none]
  rw [readUnit, items_of_said hsaid]
  dsimp only [unitOfItems, List.foldl_cons, List.foldl_nil]
  rw [hdeclaration, PackageClause.packageName, hpackage]
  rfl

theorem readUnit_commentedSource :
    readUnit commentedSource (some ⟨"src/X.java"⟩) = commentedUnit :=
  readUnit_of_said (by decide +kernel) (by decide +kernel) (by decide +kernel) _

/-- The round of a tree with one source. -/
theorem loadRound_of_collectSources
    (file : Path) (text : String) {tree : FileTree} {roots : List Path} {unit : CompilationUnit}
    (hcollect : Scan.collectSources tree roots = .ok [file])
    (htext : readText tree file = .ok text) (hunit : readUnit text (some file) = unit) :
    ∃ log, loadRound tree roots = .ok (SourceRound.ofUnits [unit], log) := by
  have hfile : loadFile tree (.empty, []) file = (SourceRound.ofUnits [unit], []) := by
    rw [loadFile, htext]
    dsimp only
    rw [hunit]
    rfl
  rw [loadRound, hcollect]
  dsimp only [List.foldl_cons, List.foldl_nil]
  rw [hfile]
  exact ⟨_, rfl⟩

theorem loadRound_commentedTree :
    ∃ log, loadRound commentedTree [⟨"src"⟩] = .ok (SourceRound.ofUnits [commentedUnit], log) :=
  loadRound_of_collectSources ⟨"src/X.java"⟩ commentedSource
    (by decide +kernel) (by decide +kernel) readUnit_commentedSource

/-- A scan of that tree succeeds, and the marker that it lists is the one of the commented package. -/
theorem scan_commentedTree :
    ∃ report, (scan ⟨2026, 1, 1, 0, 0, 0, true, 0, 0⟩ [⟨"src"⟩] ⟨"out"⟩ false false
        commentedTree).failure = none ∧
      (scan ⟨2026, 1, 1, 0, 0, 0, true, 0, 0⟩ [⟨"src"⟩] ⟨"out"⟩ false false
        commentedTree).output = scanOutput ⟨"out"⟩ false report ∧
      report.written = [commentedMarker.path] := by
  obtain ⟨log, hload⟩ := loadRound_commentedTree
  have hwritten : ((runOnce (diskFiler ⟨"out"⟩) ⟨2026, 1, 1, 0, 0, 0, true, 0, 0⟩
      (SourceRound.ofUnits [commentedUnit]).toRound commentedTree).1.toOption.map
        RoundReport.written) = some [commentedMarker.path] := by
    decide +kernel
  rw [scan, hload]
  dsimp only
  rw [if_neg Bool.false_ne_true]
  rcases hrun : runOnce (diskFiler ⟨"out"⟩) ⟨2026, 1, 1, 0, 0, 0, true, 0, 0⟩
    (SourceRound.ofUnits [commentedUnit]).toRound commentedTree with ⟨unknown | report, host⟩
  · rw [hrun] at hwritten
    cases hwritten
  · rw [hrun] at hwritten
    exact ⟨report, rfl, rfl, Option.some.inj hwritten⟩

theorem createOnDisk_commentedMarker :
    (createOnDisk ⟨"out"⟩ commentedMarker commentedTree).1 =
      .ok ⟨["tmp", "escapeb", "X.component"], 0, []⟩ := by
  decide +kernel

theorem not_isBelow_commentedMarker :
    ¬ ((Path.mk "out").join commentedMarker.path).IsBelow ⟨"out"⟩ := by
  rintro ⟨names, hnames⟩
  have hcomponents : ((Path.mk "out").join commentedMarker.path).components =
      [.root, .normal "tmp", .normal "escapeb", .normal "X.component"] := by
    decide +kernel
  have hout : (Path.mk "out").components = [.normal "out"] := by
    decide +kernel
  rw [hcomponents, hout] at hnames
  cases hnames

/-- Both parts apply to the source with the comment. -/
theorem created_isBelow_iff_commentedTree :
    (∃ writer after, (diskFiler ⟨"out"⟩).create commentedMarker none commentedTree =
        (.ok writer, after)) ∧
      (((Path.mk "out").join commentedMarker.path).IsBelow ⟨"out"⟩ ↔
        ¬ HasRootedSegment "a.//tmp/escapeb" ∨ commentedMarker.path.IsBelow ⟨"out"⟩) ∧
      (scan ⟨2026, 1, 1, 0, 0, 0, true, 0, 0⟩ [⟨"src"⟩] ⟨"out"⟩ false false
        commentedTree).failure = none ∧
      ∃ sources, Scan.collectSources commentedTree [⟨"src"⟩] = .ok sources := by
  have hcreate : (diskFiler ⟨"out"⟩).create commentedMarker none commentedTree =
      (.ok ⟨["tmp", "escapeb", "X.component"], 0, []⟩,
        (createOnDisk ⟨"out"⟩ commentedMarker commentedTree).2) :=
    Prod.ext createOnDisk_commentedMarker rfl
  obtain ⟨report, hsuccess, -⟩ := scan_commentedTree
  obtain ⟨hcreated, hscanned⟩ := created_isBelow_iff ⟨"out"⟩ commentedTree
  obtain ⟨-, -, hiff⟩ := hcreated _ _ _ _ hcreate
  obtain ⟨sources, -, hsources, -⟩ := hscanned _ _ _ hsuccess
  exact ⟨⟨_, _, hcreate⟩, hiff, hsuccess, sources, hsources⟩

/-- A scan lists a marker that is not below the output root. -/
theorem exists_scanned_not_isBelow :
    ∃ report, (scan ⟨2026, 1, 1, 0, 0, 0, true, 0, 0⟩ [⟨"src"⟩] ⟨"out"⟩ false false
        commentedTree).failure = none ∧
      (scan ⟨2026, 1, 1, 0, 0, 0, true, 0, 0⟩ [⟨"src"⟩] ⟨"out"⟩ false false
        commentedTree).output = scanOutput ⟨"out"⟩ false report ∧
      ∃ path ∈ report.written, ¬ ((Path.mk "out").join path).IsBelow ⟨"out"⟩ := by
  obtain ⟨report, hsuccess, houtput, hwritten⟩ := scan_commentedTree
  refine ⟨report, hsuccess, houtput, commentedMarker.path, ?_, not_isBelow_commentedMarker⟩
  rw [hwritten]
  exact List.mem_singleton.2 rfl

end CommandLine

end ComponentMarkers
