import ComponentMarkers.Proofs.Filer.DiskRuns
import ComponentMarkers.Proofs.Filer.Replacement

/-!
# The store and the disk agree

A run in memory and the same run over an empty output root give the same answers.  When all writers are
dropped the files below the output root are the resources in the store, whatever their locations, and
each file has what the writer was given that was last dropped for its path.
-/

namespace ComponentMarkers

open ComponentMarkers.Path FileTree

section History

variable {acts : List FilerStep → Nat → FilerStep → Prop} {steps : List FilerStep} {n : Nat}
  {content : List UInt8} {way : List String}

/-- Among operations that act in some way there is a last one. -/
theorem exists_lastActs_of_acts
    {before after : List FilerStep} {step : FilerStep} (h : acts before n step) :
    ∃ m text, LastActs acts m text (before ++ step :: after) := by
  induction after using List.reverseRecOn with
  | nil => exact ⟨n, _, .last h rfl⟩
  | append_singleton after last ih =>
      obtain ⟨m, text, hlast⟩ := ih
      rw [← List.cons_append, ← List.append_assoc]
      by_cases hacts : ∃ k, acts (before ++ step :: after) k last
      · obtain ⟨k, hk⟩ := hacts
        exact ⟨k, _, .last hk rfl⟩
      · exact ⟨m, text, .keeps hlast (not_exists.1 hacts)⟩

theorem LastActs.exists_acts (h : LastActs acts n content steps) :
    ∃ before step after, steps = before ++ step :: after ∧ acts before n step := by
  induction h with
  | @last before step hstep _ => exact ⟨before, step, [], rfl, hstep⟩
  | @keeps before last _ _ ih =>
      obtain ⟨first, step, after, rfl, hstep⟩ := ih
      exact ⟨first, step, after ++ [last], by simp, hstep⟩

/-- Each operation of a run keeps to its rule. -/
theorem KeepsRule.rule_of_append
    {rule : List FilerStep → FilerStep → Prop} {before after : List FilerStep} {step : FilerStep}
    (h : KeepsRule rule (before ++ step :: after)) : rule before step := by
  rw [← List.singleton_append, ← List.append_assoc] at h
  exact (keepsRule_concat_iff.1 h.of_append).2

/-- A writer that is not open any more was dropped, and then there is a last one that was dropped for
its path. -/
theorem exists_lastActs_dropsOn
    (hsteps : KeepsRule OnOpenWriter steps) {resource : ResourceName}
    (hcreated : (creations steps)[n]? = some resource) (hplain : isPlainName resource.name)
    (hclosed : ¬ IsOpen steps n) (hway : resource.path.components = way.map .normal) :
    ∃ m text, LastActs (DropsOn way) m text steps := by
  have hdrop : .drop n ∈ steps := by
    by_contra hdrop
    exact hclosed ⟨resource, hcreated, hplain, hdrop⟩
  obtain ⟨before, after, rfl⟩ := List.append_of_mem hdrop
  obtain ⟨found, hfound⟩ := hsteps.rule_of_append n rfl
  refine exists_lastActs_of_acts ⟨rfl, found, hfound.created, ?_⟩
  obtain rfl := Option.some.inj
    ((creations_getElem?_of_append hfound.created).symm.trans hcreated)
  exact hway

/-- When no writer is open for a path, the last one that was dropped for it is also the last one that
committed at its place. -/
theorem exists_lastActs_commitsAt
    (hsteps : KeepsRule OnOpenWriter steps) (h : LastActs (DropsOn way) n content steps)
    (hnone : ∀ m other, IsOpenFor steps m other → other.path.components ≠ way.map .normal) :
    ∃ resource ∈ (creations steps)[n]?, resource.path.components = way.map .normal ∧
      LastActs (CommitsAt resource.location resource.path) n content steps := by
  induction h with
  | @last before step hstep hcontent =>
      obtain ⟨rfl, resource, hresource, hway⟩ := hstep
      refine ⟨resource, creations_getElem?_of_append hresource, hway, .last ⟨rfl, ?_⟩ hcontent⟩
      exact ⟨resource, hresource, rfl, Path.same_iff.2 rfl⟩
  | @keeps before step _ hstep ih =>
      obtain ⟨hbefore, huses⟩ := keepsRule_concat_iff.1 hsteps
      have hopens : ∀ m other, IsOpenFor before m other →
          other.path.components ≠ way.map .normal := by
        intro m other hopen hway
        refine hnone m other (hopen.concat fun hdrop => ?_) hway
        exact hstep m ⟨hdrop, other, hopen.created, hway⟩
      obtain ⟨resource, hresource, hway, hlast⟩ := ih hbefore hopens
      refine ⟨resource, creations_getElem?_of_append hresource, hway, .keeps hlast ?_⟩
      rintro m ⟨hcommitted, other, hother, hplace⟩
      obtain ⟨found, hfound⟩ := huses m (FilerStep.used?_of_committed? hcommitted)
      obtain rfl := Option.some.inj (hfound.created.symm.trans hother)
      exact hopens m found hfound ((Path.same_iff.1 hplace.2).trans hway)

end History

theorem MemoryStore.has_iff_get? (store : MemoryStore) (location : Location) (path : Path) :
    store.Has location path ↔ ∃ content, store.get? location path = some content := by
  rw [has_iff, ← Option.isSome_iff_exists, get?, Option.isSome_map, List.find?_isSome]
  simp only [decide_eq_true_eq, compareTo_eq_iff]

/-- An output root at a place: it is an empty directory there or could be made below one. -/
def FileTree.HasEmptyRootAt (tree : FileTree) (root : Path) (output : Place) : Prop :=
  ∃ base place names, place ++ names = output ∧ tree.HostsRoot root base place names ∧
    (∀ other ∈ placesOn place names, ∀ bytes, tree.node? other ≠ some (.file bytes)) ∧
    ∀ more, more ≠ [] → tree.node? (output ++ more) = none

/-- The files below a place are the resources in a store with their locations forgotten, each with the
content of the writer that the run dropped last for its path. -/
structure KeepsLastDropped (steps : List FilerStep) (store : MemoryStore) (output : Place)
    (tree : FileTree) : Prop where
  file_iff : ∀ way, (∃ content, tree.node? (output ++ way) = some (.file content)) ↔
    ∃ location path, store.Has location path ∧ path.components = way.map .normal
  content_iff : ∀ way content, tree.node? (output ++ way) = some (.file content) ↔
    ∃ n, LastActs (DropsOn way) n content steps
  get?_eq : ∀ way n content, LastActs (DropsOn way) n content steps →
    ∃ resource ∈ (creations steps)[n]?, resource.path.components = way.map .normal ∧
      store.get? resource.location resource.path = some content

section Runs

variable {root base : Path} {place : Place} {names : List String} {steps : List FilerStep}

/-- Files are only where the run created resources. -/
theorem StoresOnDisk.exists_of_file
    {run : FilerRun FileTree DiskWriter} (h : StoresOnDisk root base place names steps run)
    (hfits : FitsBelow root (creations steps)) {way : List String} {content : List UInt8}
    (hfile : run.state.node? (place ++ names ++ way) = some (.file content)) :
    ∃ resource ∈ creations steps, isPlainName resource.name ∧
      resource.path.components = way.map .normal := by
  have hway : way ≠ [] := by
    rintro rfl
    rw [List.append_nil] at hfile
    rcases List.eq_nil_or_concat names with rfl | ⟨init, name, rfl⟩
    · rw [List.append_nil, h.hostsRoot.leadsTo.directory] at hfile
      cases hfile
    · refine h.clear _ ?_ content hfile
      rw [List.concat_eq_append, placesOn_concat, ← List.append_assoc]
      exact List.mem_append_right _ (List.mem_singleton.2 rfl)
  rcases h.below way hway with hnone | ⟨hdirectory, -⟩ | ⟨-, resource, hmem, hplain, rfl⟩
  · rw [hnone] at hfile
    cases hfile
  · rw [hdirectory] at hfile
    cases hfile
  · exact ⟨resource, hmem, hplain, (hfits.segmented resource hmem hplain).components_path⟩

/-- When all writers are dropped, the store and the disk have kept the same. -/
theorem StoresOnDisk.keepsLastDropped
    {run : FilerRun FileTree DiskWriter} (h : StoresOnDisk root base place names steps run)
    (hsteps : KeepsRule OnOpenWriter steps) (hfits : FitsBelow root (creations steps))
    (hclosed : ∀ n, ¬ IsOpen steps n) :
    KeepsLastDropped steps (memoryFiler.run steps .empty).state (place ++ names) run.state := by
  have hnone : ∀ {p : ResourceName → Prop}, ∀ m other, IsOpenFor steps m other → p other :=
    fun m other hopen => absurd ⟨other, hopen⟩ (hclosed m)
  have hdropped : ∀ {way n content}, LastActs (DropsOn way) n content steps →
      run.state.node? (place ++ names ++ way) = some (.file content) :=
    fun hlast => h.dropped _ _ _ hnone hlast
  have hcreated : ∀ {way} {resource : ResourceName}, resource ∈ creations steps →
      isPlainName resource.name → resource.path.components = way.map .normal →
        ∃ n content, LastActs (DropsOn way) n content steps := by
    intro way resource hmem hplain hway
    obtain ⟨n, hn⟩ := List.getElem?_of_mem hmem
    exact exists_lastActs_dropsOn hsteps hn hplain (hclosed n) hway
  have hget : ∀ way n content, LastActs (DropsOn way) n content steps →
      ∃ resource ∈ (creations steps)[n]?, resource.path.components = way.map .normal ∧
        (memoryFiler.run steps .empty).state.get? resource.location resource.path =
          some content := by
    intro way n content hlast
    obtain ⟨resource, hresource, hway, hcommits⟩ := exists_lastActs_commitsAt hsteps hlast hnone
    exact ⟨resource, hresource, hway, (get?_run_iff hsteps _ _ _).2 ⟨n, hcommits⟩⟩
  refine ⟨fun way => ⟨?_, ?_⟩, fun way content => ⟨fun hfile => ?_, ?_⟩, hget⟩
  · rintro ⟨content, hfile⟩
    obtain ⟨resource, hmem, hplain, hway⟩ := h.exists_of_file hfits hfile
    obtain ⟨n, text, hlast⟩ := hcreated hmem hplain hway
    obtain ⟨found, -, hfound, hstored⟩ := hget way n text hlast
    exact ⟨found.location, found.path, (MemoryStore.has_iff_get? _ _ _).2 ⟨text, hstored⟩, hfound⟩
  · rintro ⟨location, path, hhas, hway⟩
    obtain ⟨content, hstored⟩ := (MemoryStore.has_iff_get? _ _ _).1 hhas
    obtain ⟨n, hcommits⟩ := (get?_run_iff hsteps _ _ _).1 hstored
    obtain ⟨before, step, after, rfl, hcommitted, resource, hresource, hplace⟩ :=
      hcommits.exists_acts
    obtain ⟨found, hfound⟩ :=
      hsteps.rule_of_append n (FilerStep.used?_of_committed? hcommitted)
    obtain rfl := Option.some.inj (hfound.created.symm.trans hresource)
    obtain ⟨m, text, hlast⟩ := hcreated
      (List.mem_of_getElem? (creations_getElem?_of_append hresource)) hfound.plain
      ((Path.same_iff.1 hplace.2).trans hway)
    exact ⟨text, hdropped hlast⟩
  · obtain ⟨resource, hmem, hplain, hway⟩ := h.exists_of_file hfits hfile
    obtain ⟨n, text, hlast⟩ := hcreated hmem hplain hway
    obtain rfl : text = content := by
      simpa using (hdropped hlast).symm.trans hfile
    exact ⟨n, hlast⟩
  · rintro ⟨n, hlast⟩
    exact hdropped hlast

end Runs

/-- Any run that creates resources below an empty output root, with one open writer for each path, gives
the same answers in memory and on disk: creations fail where the name is not plain, and nothing else
does.  Once all writers are dropped, the files below the output root are the resources in the store with
their locations forgotten, and each has what the writer was given that was dropped last for its path. -/
theorem memoryFiler_agrees_with_diskFiler
    {tree : FileTree} {root : Path} {output : Place} (hroot : tree.HasEmptyRootAt root output)
    {steps : List FilerStep} (hsteps : KeepsRule OneWriterAPath steps)
    (hfits : FitsBelow root (creations steps)) :
    let stored := memoryFiler.run steps .empty
    let onDisk := (diskFiler root).run steps tree
    stored.answers = steps.map FilerStep.answer ∧ onDisk.answers = stored.answers ∧
      ((∀ n, ¬ IsOpen steps n) → KeepsLastDropped steps stored.state output onDisk.state) := by
  intro stored onDisk
  obtain ⟨base, place, names, rfl, hhosts, hclear, hempty⟩ := hroot
  have huses := hsteps.imp fun _ _ hrule => hrule.1
  have hstored := holdsWritten_run .empty huses
  have hdisk := storesOnDisk_run hhosts hclear hempty hsteps hfits
  refine ⟨hstored.answers_eq, hdisk.answers_eq.trans hstored.answers_eq.symm, fun hclosed => ?_⟩
  exact hdisk.keepsLastDropped huses hfits hclosed

/-- A tree with an empty output root. -/
def emptyOutputTree : FileTree where
  entries := [(["w"], .directory), (["w", "out"], .directory)]
  workingDirectory := ["w"]

theorem emptyOutputTree_hasEmptyRootAt :
    emptyOutputTree.HasEmptyRootAt ⟨"out"⟩ ["w", "out"] := by
  have hlinks : emptyOutputTree.IsLinkFree := by
    apply FileTree.isLinkFree_of_forall_mem
    simp [emptyOutputTree]
  refine ⟨⟨"out"⟩, ["w", "out"], [], rfl, ⟨⟨by decide +kernel, by decide +kernel⟩, ?_, ?_, ?_⟩, ?_, ?_⟩
  · rw [List.map_nil, List.append_nil]
  · exact fun other hother => absurd hother List.not_mem_nil
  · exact fun more => hlinks _
  · exact fun other hother => absurd hother List.not_mem_nil
  · rintro (_ | ⟨name, rest⟩) hmore
    · exact absurd rfl hmore
    · simp [emptyOutputTree, FileTree.node?, List.lookup_cons]

/-- Two markers are written at the same time, a name is refused, and the marker of `A` is written again
for the other location. -/
def interleavedSteps : List FilerStep :=
  [.create ⟨.classOutput, "p", "A.component"⟩ none, .write 0 (Text.encode "old"),
    .create ⟨.sourceOutput, "", "q/B.component"⟩ none, .flush 0, .write 1 (Text.encode "b"),
    .create ⟨.classOutput, "p", "../A.component"⟩ none, .write 0 (Text.encode "er"), .drop 0,
    .create ⟨.sourceOutput, "p", "A.component"⟩ none, .write 3 (Text.encode "new"), .drop 1,
    .drop 3]

/-- In this run the file of `A` has what the last writer was given, and the older content is still in the
store for the other location. -/
theorem memoryFiler_agrees_with_diskFiler_interleavedSteps :
    let stored := memoryFiler.run interleavedSteps .empty
    let onDisk := (diskFiler ⟨"out"⟩).run interleavedSteps emptyOutputTree
    emptyOutputTree.HasEmptyRootAt ⟨"out"⟩ ["w", "out"] ∧
      KeepsRule OneWriterAPath interleavedSteps ∧
      FitsBelow ⟨"out"⟩ (creations interleavedSteps) ∧
      onDisk.answers = stored.answers ∧
      KeepsLastDropped interleavedSteps stored.state ["w", "out"] onDisk.state ∧
      onDisk.state.node? ["w", "out", "p", "A.component"] = some (.file (Text.encode "new")) ∧
      stored.state.read? .classOutput ⟨"p/A.component"⟩ = some "older" := by
  intro stored onDisk
  have hsteps : KeepsRule OneWriterAPath interleavedSteps := by decide +kernel
  have hfits : FitsBelow ⟨"out"⟩ (creations interleavedSteps) := by decide +kernel
  have hclosed : ∀ n < (creations interleavedSteps).length, ¬ IsOpen interleavedSteps n := by
    decide +kernel
  obtain ⟨-, hanswers, hkeeps⟩ :=
    memoryFiler_agrees_with_diskFiler emptyOutputTree_hasEmptyRootAt hsteps hfits
  refine ⟨emptyOutputTree_hasEmptyRootAt, hsteps, hfits, hanswers, hkeeps ?_, by decide +kernel,
    by decide +kernel⟩
  rintro n ⟨resource, hopen⟩
  exact hclosed n hopen.lt_length ⟨resource, hopen⟩

/-- A resource whose name is plain and has a character in it that ends texts for the file system. -/
def nulNamedResource : ResourceName :=
  ⟨.classOutput, "p", String.ofList ['a', '\x00']⟩

/-- It is not enough for the two to agree that all names are plain: what the file system does not take is
created in memory. -/
theorem not_agree_on_plain_names :
    ¬ ∀ (tree : FileTree) (root : Path) (output : Place) (steps : List FilerStep),
      tree.HasEmptyRootAt root output → KeepsRule OneWriterAPath steps →
        (∀ resource ∈ creations steps, isPlainName resource.name → resource.IsSegmented) →
        (∀ resource ∈ creations steps, ∀ other ∈ creations steps, isPlainName resource.name →
          isPlainName other.name → resource.path.components <+: other.path.components →
            resource.path.components = other.path.components) →
        ((diskFiler root).run steps tree).answers = (memoryFiler.run steps .empty).answers := by
  intro h
  have hsame := h emptyOutputTree ⟨"out"⟩ ["w", "out"] [.create nulNamedResource none]
    emptyOutputTree_hasEmptyRootAt (by decide +kernel) (by decide +kernel) (by decide +kernel)
  exact absurd hsame (by decide +kernel)

end ComponentMarkers
