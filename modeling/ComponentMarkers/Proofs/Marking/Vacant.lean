import ComponentMarkers.Proofs.Marking.Disk
import ComponentMarkers.Proofs.Session.Exactness
import ComponentMarkers.Proofs.Session.Runs

/-!
# Marking into an empty directory

Nothing obstructs markers below an output root that is an empty directory or is not there yet.  So the
classes that are marked on disk are those that are marked in memory, and the files below the output root
are their markers.
-/

namespace ComponentMarkers

open FileTree

/-- An output root is some names below a directory.  What stands on the way to it are directories, and
nothing is below it. -/
structure FileTree.IsVacant (tree : FileTree) (root base : Path) (place : Place)
    (names : List String) : Prop where
  leadsTo : tree.LeadsTo base place
  components_eq : root.components = base.components ++ names.map .normal
  way : ∀ other ∈ placesOn place names,
    tree.node? other = none ∨ tree.node? other = some .directory
  empty : ∀ more, more ≠ [] → tree.node? (place ++ names ++ more) = none

/-- Where there is nothing or a directory, there is no file and no link. -/
theorem FileTree.ne_file_and_ne_link
    {tree : FileTree} {place : Place}
    (h : tree.node? place = none ∨ tree.node? place = some .directory) :
    (∀ bytes, tree.node? place ≠ some (.file bytes)) ∧
      ∀ target, tree.node? place ≠ some (.link target) := by
  rcases h with hnode | hnode
  · simp [hnode]
  · simp [hnode]

namespace FileTree.IsVacant

variable {tree : FileTree} {root base : Path} {place : Place} {names : List String}

theorem node?_eq (h : tree.IsVacant root base place names) (more : List String) :
    tree.node? (place ++ names ++ more) = none ∨
      tree.node? (place ++ names ++ more) = some .directory := by
  by_cases hmore : more = []
  · rw [hmore, List.append_nil]
    by_cases hnames : names = []
    · rw [hnames, List.append_nil]
      exact Or.inr h.leadsTo.directory
    · exact h.way _ ((mem_placesOn_iff _ _ _).2 ⟨names, hnames, List.prefix_rfl, rfl⟩)
  · exact Or.inl (h.empty more hmore)

theorem hostsRoot (h : tree.IsVacant root base place names) :
    tree.HostsRoot root base place names :=
  ⟨h.leadsTo, h.components_eq, fun other hother => (ne_file_and_ne_link (h.way other hother)).2,
    fun more => (ne_file_and_ne_link (h.node?_eq more)).2⟩

theorem not_blocks (h : tree.IsVacant root base place names) (identity : ArtifactIdentity) :
    ¬ tree.Blocks place names identity := by
  rintro (⟨other, hother, bytes, hfile⟩ | hdirectory)
  · rw [placesOn_append] at hother
    rcases List.mem_append.1 hother with hother | hother
    · exact (ne_file_and_ne_link (h.way other hother)).1 bytes hfile
    · obtain ⟨init, -, -, rfl⟩ := (mem_placesOn_iff _ _ _).1 hother
      exact (ne_file_and_ne_link (h.node?_eq init)).1 bytes hfile
  · rw [← List.append_assoc, List.append_assoc, h.empty _ (by simp)] at hdirectory
    cases hdirectory

/-- The output root stays vacant when files are put elsewhere and nothing is put below it. -/
theorem of_gains
    (h : tree.IsVacant root base place names) {after : FileTree} {files directories : List Place}
    {content : List UInt8} (hgains : tree.Gains after files directories content)
    (hfiles : ∀ file ∈ files, ¬ file <+: place ++ names)
    (hbelow : ∀ more, more ≠ [] →
      after.node? (place ++ names ++ more) = tree.node? (place ++ names ++ more)) :
    after.IsVacant root base place names := by
  refine ⟨h.leadsTo.of_keepsWays hgains.keepsWays, h.components_eq, ?_, ?_⟩
  · intro other hother
    have hfile : other ∉ files := by
      intro hmem
      obtain ⟨init, -, hprefix, rfl⟩ := (mem_placesOn_iff _ _ _).1 hother
      exact hfiles _ hmem ((List.prefix_append_right_inj place).2 hprefix)
    rcases hgains.other other hfile with hsame | ⟨-, -, hdirectory⟩
    · rw [hsame]
      exact h.way other hother
    · exact Or.inr hdirectory
  · intro more hmore
    rw [hbelow more hmore]
    exact h.empty more hmore

/-- Below the output root there are the markers and no other files. -/
theorem file_iff
    (h : tree.IsVacant root base place names) {last : FileTree} {results : List MarkResult}
    {directories : List Place} {content : List UInt8}
    (hgains : tree.Gains last (markerPlaces (place ++ names) results) directories content)
    (hplain : ∀ identity ∈ results.filterMap MarkResult.artifact?, identity.resource.IsPlain)
    (more : List String) (bytes : List UInt8) :
    last.node? (place ++ names ++ more) = some (.file bytes) ↔
      bytes = content ∧ ∃ identity ∈ results.filterMap MarkResult.artifact?,
        identity.relativePath.components = more.map .normal := by
  have hmarker : place ++ names ++ more ∈ markerPlaces (place ++ names) results ↔
      ∃ identity ∈ results.filterMap MarkResult.artifact?,
        identity.relativePath.components = more.map .normal := by
    rw [mem_markerPlaces_iff]
    refine exists_congr fun identity => and_congr_right fun hidentity => ?_
    have hpath : identity.relativePath.components =
        (identity.resource.directories ++ [identity.resource.name]).map .normal :=
      (hplain identity hidentity).components_path
    rw [hpath, Component.map_normal_inj, ArtifactIdentity.markerPlace,
      List.append_assoc (place ++ names), List.append_cancel_left_eq, eq_comm]
  rw [← hmarker]
  by_cases hmem : place ++ names ++ more ∈ markerPlaces (place ++ names) results
  · rw [hgains.file_eq _ hmem, Option.some.injEq, Node.file.injEq, eq_comm,
      and_iff_left hmem]
  · refine iff_of_false ?_ fun hboth => hmem hboth.2
    rw [hgains.file_iff hmem]
    exact (ne_file_and_ne_link (h.node?_eq more)).1 bytes

end FileTree.IsVacant

/-- Marking classes below a vacant output root has the results of marking them in memory. -/
theorem MarksAll.eq_of_isVacant
    {tree : FileTree} {root base : Path} {place : Place} {names : List String}
    (hvacant : tree.IsVacant root base place names) {table : ElementTable} {ids : List ElementId}
    (hids : ∀ id ∈ ids, ∀ identity, resolveIdentity table id = .ok identity →
      identity.IsWritable root)
    {now : Timestamp} {results others : List MarkResult} {last : FileTree}
    (hdisk : MarksAll (diskFiler root) now table ids tree results last)
    {store after : MemoryStore}
    (hmemory : MarksAll memoryFiler now table ids store others after) : others = results := by
  obtain ⟨-, hdecided, -⟩ := hdisk.gains_disk hvacant.hostsRoot hids
  have hmemoryDecided := hmemory.isDecidedBy Filer.memoryFiler_decidedBy
  refine eq_of_isDecidedBy_of_free hmemoryDecided hdecided fun id hid identity hidentity => ?_
  obtain ⟨-, hfate⟩ := memoryFates_of_slash_not_mem (hids id hid identity hidentity).nestedName
  exact ⟨not_not.2 hfate, hvacant.not_blocks identity⟩

/-- What is said of the identity of every class that a round marks. -/
def Round.EveryMarker (round : Round) (p : ArtifactIdentity → Prop) : Prop :=
  ∀ classes collected,
    discover .standard MarkerRegistry.standardIdentifiers round = (.ok classes, collected) →
      ∀ id ∈ classes.toList, ∀ identity, resolveIdentity round.table id = .ok identity → p identity

/-- A round has one outcome in memory and below a vacant output root, and the files that are then below
the output root are the markers of that outcome. -/
theorem exists_processRound_of_isVacant
    {tree : FileTree} {root base : Path} {place : Place} {names : List String}
    (hvacant : tree.IsVacant root base place names) {round : Round} (hround : round.IsClosed)
    (hwritable : round.EveryMarker fun identity => identity.IsWritable root) (now : Timestamp)
    (store : MemoryStore) :
    ∃ outcome events last after,
      processRound (diskFiler root) now .standard MarkerRegistry.standardIdentifiers round tree =
        ((.ok outcome, events), last) ∧
      processRound memoryFiler now .standard MarkerRegistry.standardIdentifiers round store =
        ((.ok outcome, events), after) ∧
      ∀ more bytes, last.node? (place ++ names ++ more) = some (.file bytes) ↔
        bytes = Text.encode (provenance now) ∧
          ∃ path ∈ outcome.paths, path.components = more.map .normal := by
  obtain ⟨classes, collected, hdiscover, -⟩ :=
    discover_of_isClosed hround .standard MarkerRegistry.standardIdentifiers
  have hknows : ∀ id ∈ classes.toList, round.table.KnowsChain id := fun id hid =>
    knowsChain_of_mem_discover hdiscover hid
  have hids := hwritable classes collected hdiscover
  obtain ⟨results, last, hdisk⟩ := exists_marksAll_of_knowsChain (diskFiler root) now hknows tree
  obtain ⟨others, after, hmemory⟩ := exists_marksAll_of_knowsChain memoryFiler now hknows store
  obtain rfl := hdisk.eq_of_isVacant hvacant hids hmemory
  obtain ⟨hgains, hdecided, -⟩ := hdisk.gains_disk hvacant.hostsRoot hids
  have hplain : ∀ identity ∈ others.filterMap MarkResult.artifact?, identity.resource.IsPlain := by
    intro identity hidentity
    obtain ⟨id, hid, hresolved, -⟩ :=
      (mem_artifacts_iff_of_isDecidedBy hdecided identity).1 hidentity
    exact (hids id hid identity hresolved).isPlain
  refine ⟨_, _, last, after,
    processRound_eq_ok_iff.2 ⟨classes, collected, others, hdiscover, hdisk, rfl, rfl⟩,
    processRound_eq_ok_iff.2 ⟨classes, collected, others, hdiscover, hmemory, rfl, rfl⟩, ?_⟩
  intro more bytes
  rw [hvacant.file_iff hgains hplain]
  refine and_congr_right fun _ => ?_
  simp only [RoundOutcome.paths, RoundOutcome.ofResults, List.mem_map, exists_exists_and_eq_and]

end ComponentMarkers
