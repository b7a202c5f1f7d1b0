import ComponentMarkers.Proofs.Marking.Disk
import ComponentMarkers.Proofs.Session.Runs

/-!
# Rounds on disk

A round that is run over an output root on disk writes the markers that nothing in its way obstructs,
and whether something does can be read off the tree before the round: a file at the output root or at a
directory on the way to the marker, or a directory at the marker itself.  All other files keep what
they hold.  So the order in which the classes are marked has no influence on which of them fail and on
the files there are at the end.
-/

namespace ComponentMarkers

open ComponentMarkers.Path FileTree

/-- The output root is a directory at a place, or a name in a directory. -/
inductive FileTree.HasRootAt (tree : FileTree) (root : Path) : Place → Prop where
  | directory {output : Place} (h : tree.LeadsTo root output) : HasRootAt tree root output
  | inDirectory {base : Path} {place : Place} {name : String} (h : tree.LeadsTo base place)
      (hroot : root.components = base.components ++ [.normal name]) :
      HasRootAt tree root (place ++ [name])

/-- A file is at the output root or at a directory on the way from there to the marker, or a directory
is where the marker is to be. -/
def FileTree.Obstructs (tree : FileTree) (output : Place) (identity : ArtifactIdentity) : Prop :=
  (∃ init, init <+: identity.resource.directories ∧
      ∃ bytes, tree.node? (output ++ init) = some (.file bytes)) ∨
    tree.node? (identity.markerPlace output) = some .directory

theorem mem_placesOn_singleton_append_iff
    (place : Place) (name : String) (way : List String) (other : Place) :
    other ∈ placesOn place ([name] ++ way) ↔
      ∃ init, init <+: way ∧ other = place ++ [name] ++ init := by
  rw [placesOn_append, placesOn, placesOn, List.singleton_append, List.mem_cons,
    mem_placesOn_iff]
  constructor
  · rintro (rfl | ⟨init, -, hprefix, rfl⟩)
    · exact ⟨[], List.nil_prefix, (List.append_nil _).symm⟩
    · exact ⟨init, hprefix, rfl⟩
  · rintro ⟨init, hprefix, rfl⟩
    by_cases hinit : init = []
    · exact Or.inl (by rw [hinit, List.append_nil])
    · exact Or.inr ⟨init, hinit, hprefix, rfl⟩

/-- An output root that is there or could be made below a directory, with what blocks markers under it
in terms of its place. -/
theorem FileTree.HasRootAt.exists_hostsRoot
    {tree : FileTree} (hlinks : tree.IsLinkFree) {root : Path} {output : Place}
    (h : tree.HasRootAt root output) :
    ∃ base place names, tree.HostsRoot root base place names ∧ place ++ names = output ∧
      (∀ identity, tree.Blocks place names identity ↔ tree.Obstructs output identity) ∧
      ∀ way other, other ∈ placesOn place (names ++ way) →
        ∃ init, init <+: way ∧ other = output ++ init := by
  cases h with
  | directory h =>
      refine ⟨root, output, [], ⟨h, by simp, by simp [HasNoLinkAt, placesOn],
        fun _ => hlinks _⟩, List.append_nil _, ?_, ?_⟩
      · intro identity
        rw [Blocks, IsObstructed, Obstructs, ArtifactIdentity.markerPlace, List.nil_append]
        refine or_congr_left ⟨?_, ?_⟩
        · rintro ⟨other, hother, hfile⟩
          obtain ⟨init, -, hprefix, rfl⟩ := (mem_placesOn_iff _ _ _).1 hother
          exact ⟨init, hprefix, hfile⟩
        · rintro ⟨init, hprefix, bytes, hfile⟩
          refine ⟨output ++ init, (mem_placesOn_iff _ _ _).2 ⟨init, ?_, hprefix, rfl⟩, bytes, hfile⟩
          rintro rfl
          rw [List.append_nil, h.directory] at hfile
          cases hfile
      · intro way other hother
        obtain ⟨init, -, hprefix, hsame⟩ := (mem_placesOn_iff _ _ _).1 hother
        exact ⟨init, hprefix, hsame⟩
  | @inDirectory base place name h hroot =>
      refine ⟨base, place, [name], ⟨h, hroot, fun other _ => hlinks other,
        fun _ => hlinks _⟩, rfl, ?_, ?_⟩
      · intro identity
        rw [Blocks, IsObstructed, Obstructs, ArtifactIdentity.markerPlace, ← List.append_assoc]
        refine or_congr_left ⟨?_, ?_⟩
        · rintro ⟨other, hother, hfile⟩
          obtain ⟨init, hprefix, rfl⟩ := (mem_placesOn_singleton_append_iff _ _ _ _).1 hother
          exact ⟨init, hprefix, hfile⟩
        · rintro ⟨init, hprefix, hfile⟩
          exact ⟨_, (mem_placesOn_singleton_append_iff _ _ _ _).2 ⟨init, hprefix, rfl⟩, hfile⟩
      · exact fun way other hother => (mem_placesOn_singleton_append_iff _ _ _ _).1 hother

/-- What marking some classes comes to on disk. -/
structure MarksOnDisk (root : Path) (output : Place) (table : ElementTable) (now : Timestamp)
    (tree : FileTree) (ids : List ElementId) (results : List MarkResult) (last : FileTree) :
    Prop where
  /-- A class with an identity fails exactly when something obstructs its marker at the start. -/
  decided : List.Forall₂ (fun id result => result.IsDecidedBy table (tree.Obstructs output) id) ids
    results
  /-- The whole content of a marker is the line that was written. -/
  readFile_eq : ∀ identity ∈ results.filterMap MarkResult.artifact?,
    last.readFile (root.join identity.relativePath) =
      .ok (Text.encode (provenanceStart ++ now.text))
  /-- The files are the markers and what other files there were. -/
  file_iff : ∀ place bytes, last.node? place = some (.file bytes) ↔
    (place ∈ markerPlaces output results ∧ bytes = Text.encode (provenanceStart ++ now.text)) ∨
      (place ∉ markerPlaces output results ∧ tree.node? place = some (.file bytes))
  /-- Beside the markers there is nothing new but directories on the way to markers. -/
  other : ∀ place, place ∉ markerPlaces output results → last.node? place = tree.node? place ∨
    (tree.node? place = none ∧ last.node? place = some .directory ∧
      ∃ id ∈ ids, ∃ identity, resolveIdentity table id = .ok identity ∧
        ∃ init, init <+: identity.resource.directories ∧ place = output ++ init)

section Marking

variable {tree : FileTree} {root : Path} {output : Place} {table : ElementTable} {now : Timestamp}

theorem MarksAll.marksOnDisk
    (hlinks : tree.IsLinkFree) (hroot : tree.HasRootAt root output) {ids : List ElementId}
    (hids : ∀ id ∈ ids, ∀ identity, resolveIdentity table id = .ok identity →
      identity.IsWritable root)
    {results : List MarkResult} {last : FileTree}
    (hmarks : MarksAll (diskFiler root) now table ids tree results last) :
    MarksOnDisk root output table now tree ids results last := by
  obtain ⟨base, place, names, hhosts, rfl, hblocks, hways⟩ := hroot.exists_hostsRoot hlinks
  obtain ⟨hgains, hdecided, hdirectories⟩ := hmarks.gains_disk hhosts hids
  refine ⟨hdecided.imp fun _ _ hresult => hresult.congr hblocks, ?_, ?_, ?_⟩
  · intro identity hidentity
    obtain ⟨id, hid, hresolved, -⟩ :=
      (mem_artifacts_iff_of_isDecidedBy hdecided identity).1 hidentity
    have hwritable := hids id hid identity hresolved
    have hcomponents := hwritable.isPlain.goesTo.components_join root
    obtain ⟨init, hpieces⟩ := hwritable.isPlain.goesTo.pieces_join root
    have hslash := hwritable.isPlain.goesTo.endsWithSlash_join root
    rw [hhosts.components_eq, List.append_assoc, ← List.map_append, ← List.append_assoc]
      at hcomponents
    have hadmits := (hhosts.of_keepsWays hgains.keepsWays).admits hwritable.isPlain.goesTo
      hwritable.accepts
    refine hadmits.readFile_eq (hdirectories identity hidentity) hcomponents hpieces hslash
      hwritable.accepts.pathFault?_eq ?_
    rw [← List.append_assoc]
    exact hgains.file_eq _ (mem_markerPlaces_iff.2 ⟨identity, hidentity, rfl⟩)
  · intro file bytes
    by_cases hfile : file ∈ markerPlaces (place ++ names) results
    · rw [hgains.file_eq file hfile]
      simp [hfile, provenance, eq_comm]
    · simp only [hfile, false_and, false_or, not_false_eq_true, true_and]
      exact hgains.file_iff hfile bytes
  · intro other hother
    rcases hgains.other other hother with hsame | ⟨hmem, hnone, hdirectory⟩
    · exact Or.inl hsame
    · obtain ⟨id, hid, hway⟩ := List.mem_flatMap.1 hmem
      obtain ⟨identity, hidentity, hplace⟩ := mem_directoriesTo_iff.1 hway
      exact Or.inr ⟨hnone, hdirectory, id, hid, identity, hidentity, hways _ _ hplace⟩

/-- Another order of the classes marks the same ones and leaves the same files. -/
theorem MarksOnDisk.of_perm
    {ids others : List ElementId} {results otherResults : List MarkResult}
    {last otherLast : FileTree} (h : MarksOnDisk root output table now tree ids results last)
    (hother : MarksOnDisk root output table now tree others otherResults otherLast)
    (hperm : others.Perm ids) :
    (otherResults.filterMap MarkResult.artifact?).Perm (results.filterMap MarkResult.artifact?) ∧
      ∀ place bytes, otherLast.node? place = some (.file bytes) ↔
        last.node? place = some (.file bytes) := by
  classical
  have hartifacts : (otherResults.filterMap MarkResult.artifact?).Perm
      (results.filterMap MarkResult.artifact?) := by
    rw [filterMap_artifact?_of_isDecidedBy h.decided,
      filterMap_artifact?_of_isDecidedBy hother.decided]
    exact hperm.filterMap _
  have hmarkers : ∀ place, place ∈ markerPlaces output otherResults ↔
      place ∈ markerPlaces output results := fun place =>
    (hartifacts.map fun identity : ArtifactIdentity => identity.markerPlace output).mem_iff
  refine ⟨hartifacts, fun place bytes => ?_⟩
  rw [h.file_iff, hother.file_iff, hmarkers]

end Marking

/-- A round of a session over an output root in a tree without links, the file system failing for no
other reason than that a file or a directory is in the way.  The report lists the classes whose markers
nothing in the tree obstructed, and has a diagnostic for each of the others.  Every marker it lists is a
file with the one line that was written, all other files are as they were, and nothing else is there but
directories on the way to markers.  Any other order of the classes marks the same ones and leaves the
same files. -/
theorem Session.runRound_writes_unobstructed_markers
    {tree : FileTree} (hlinks : tree.IsLinkFree) {root : Path} {output : Place}
    (hroot : tree.HasRootAt root output) {session : Session} {records : Records}
    (hready : session.IsReady records) {round : Round} {classes : OrderedSet ElementId}
    {collected : List LogEvent}
    (hdiscover : discover .standard (session.presentAnnotations round) round =
      (.ok classes, collected))
    (hclasses : ∀ id ∈ classes.toList, ∀ identity, resolveIdentity round.table id = .ok identity →
      identity.IsWritable root)
    (now : Timestamp) (log : List LogEvent) :
    ∃ results report next after,
      session.runRound (diskFiler root) now round ⟨tree, records, log⟩ =
        (.ok report, next, after) ∧
      report.written =
        (results.filterMap MarkResult.artifact?).map ArtifactIdentity.relativePath ∧
      report.diagnostics = results.filterMap MarkResult.diagnostic? ∧
      MarksOnDisk root output round.table now tree classes.toList results after.resources ∧
      Text.IsLine (provenanceStart ++ now.text) ∧
      ∀ ids, ids.Perm classes.toList → ∃ others last,
        markAll (diskFiler root) now round.table ids tree = (.ok others, last) ∧
        MarksOnDisk root output round.table now tree ids others last ∧
        (others.filterMap MarkResult.artifact?).Perm (results.filterMap MarkResult.artifact?) ∧
        ∀ place bytes, last.node? place = some (.file bytes) ↔
          after.resources.node? place = some (.file bytes) := by
  have hknows : ∀ id ∈ classes.toList, round.table.KnowsChain id := fun id hid =>
    knowsChain_of_mem_discover hdiscover hid
  obtain ⟨results, last, hmarks⟩ := exists_marksAll_of_knowsChain (diskFiler root) now hknows tree
  have hdisk := hmarks.marksOnDisk hlinks hroot hclasses
  have hrun : processRound (diskFiler root) now .standard (session.presentAnnotations round) round
      tree = ((.ok (.ofResults results), collected ++ results.filterMap MarkResult.event?),
        last) :=
    processRound_eq_ok_iff.2 ⟨classes, collected, results, hdiscover, hmarks, rfl, rfl⟩
  obtain ⟨after, log', hran⟩ := hready.runRound_eq ⟨tree, records, log⟩ hrun
  refine ⟨results, _, _, _, hran, rfl, rfl, hdisk, isLine_provenance now, fun ids hperm => ?_⟩
  obtain ⟨others, otherLast, hothers⟩ := exists_marksAll_of_knowsChain (diskFiler root) now
    (fun id hid => hknows id (hperm.subset hid)) tree
  have hotherDisk := hothers.marksOnDisk hlinks hroot
    (fun id hid => hclasses id (hperm.subset hid))
  exact ⟨others, otherLast, markAll_eq_ok_iff.2 hothers, hotherDisk,
    hdisk.of_perm hotherDisk hperm⟩

/-- An output root with an older marker of `A`, which is longer than a line, and with a directory where
the marker of `E` is to be. -/
def blockedTree : FileTree where
  entries := [(["w"], .directory), (["w", "out"], .directory), (["w", "out", "a"], .directory),
    (["w", "out", "a", "A.component"], .file (List.replicate 100 7)),
    (["w", "out", "a", "E.component"], .directory), (["w", "notes"], .file [7])]
  workingDirectory := ["w"]

theorem blockedTree_isLinkFree : blockedTree.IsLinkFree := by
  apply FileTree.isLinkFree_of_forall_mem
  simp [blockedTree]

/-- In this tree the marker of `A` is written over the older one and that of `E` is reported. -/
theorem Session.runRound_writes_unobstructed_markers_blockedTree :
    let opened := start .new .log (⟨blockedTree, .empty, []⟩ : HostState FileTree)
    blockedTree.IsLinkFree ∧ blockedTree.HasRootAt ⟨"out"⟩ ["w", "out"] ∧
      opened.1.IsReady opened.2.records ∧
      ∃ results report next after,
        opened.1.runRound (diskFiler ⟨"out"⟩) ⟨2026, 1, 1, 0, 0, 0, true, 0, 0⟩ brokenRound
          ⟨blockedTree, opened.2.records, []⟩ = (.ok report, next, after) ∧
        MarksOnDisk ⟨"out"⟩ ["w", "out"] brokenRound.table ⟨2026, 1, 1, 0, 0, 0, true, 0, 0⟩
          blockedTree [⟨1⟩, ⟨2⟩, ⟨3⟩, ⟨4⟩, ⟨5⟩] results after.resources := by
  intro opened
  have hroot : blockedTree.HasRootAt ⟨"out"⟩ ["w", "out"] :=
    .directory ⟨by decide +kernel, by decide +kernel⟩
  have hready : opened.1.IsReady opened.2.records := isReady_start trivial
  have hdiscover : (discover .standard (opened.1.presentAnnotations brokenRound) brokenRound).1 =
      .ok ⟨[⟨1⟩, ⟨2⟩, ⟨3⟩, ⟨4⟩, ⟨5⟩], by decide⟩ := by
    decide +kernel
  have hwritable : ∀ id ∈ ([⟨1⟩, ⟨2⟩, ⟨3⟩, ⟨4⟩, ⟨5⟩] : List ElementId),
      ∀ identity ∈ (resolveIdentity brokenRound.table id).toOption,
        identity.IsWritable ⟨"out"⟩ := by
    decide +kernel
  rcases hfound : discover .standard (opened.1.presentAnnotations brokenRound) brokenRound with
    ⟨found, collected⟩
  rw [hfound] at hdiscover
  obtain rfl := hdiscover
  obtain ⟨results, report, next, after, hran, -, -, hdisk, -⟩ :=
    runRound_writes_unobstructed_markers blockedTree_isLinkFree hroot hready hfound
      (fun id hid identity hidentity => hwritable id hid identity (by rw [hidentity]; rfl))
      ⟨2026, 1, 1, 0, 0, 0, true, 0, 0⟩ []
  exact ⟨blockedTree_isLinkFree, hroot, hready, results, report, next, after, hran, hdisk⟩

end ComponentMarkers
