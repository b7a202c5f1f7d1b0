import ComponentMarkers.Proofs.Path.Resources
import ComponentMarkers.Proofs.Session.Markers
import ComponentMarkers.Proofs.Source.Nesting
import ComponentMarkers.Proofs.Text.Joined

/-!
# Marking is exact

A session over an empty store that runs the round of some well-formed units reports no diagnostics,
and the markers it writes are those of the classes that carry a marking annotation or have something
within them that does: no class is missed, nothing else is marked and no class is marked twice.
-/

namespace ComponentMarkers

open Source

theorem slash_not_mem_intercalate
    {names : List String} (h : ∀ name ∈ names, '/' ∉ name.toList) :
    '/' ∉ (ArtifactIdentity.separator.intercalate names).toList := by
  intro hslash
  rcases Text.mem_intercalate hslash with hseparator | ⟨name, hname, hmem⟩
  · exact absurd hseparator (by decide)
  · exact h name hname hmem

/-- The marker of an identity whose nested name has no slash is finished in memory. -/
theorem memoryFates_of_slash_not_mem
    {identity : ArtifactIdentity} (h : '/' ∉ identity.nestedName.toList) :
    isPlainName identity.resource.name ∧
      Filer.memoryFates identity.resource = .finished := by
  have hplain : isPlainName identity.resource.name := by
    change isPlainName (identity.nestedName ++ ".component")
    have hend : ∀ name : String, ".component".length ≤ name.length →
        name ≠ "" ∧ name ≠ "." ∧ name ≠ ".." := by
      intro name hlength
      refine ⟨?_, ?_, ?_⟩
      all_goals
        rintro rfl
        revert hlength
        decide
    obtain ⟨hempty, hdot, hdots⟩ := hend (identity.nestedName ++ ".component") (by
      rw [String.length_append]
      omega)
    apply isPlainName_of_slash_not_mem _ hempty hdot hdots
    rw [String.toList_append, List.mem_append, not_or]
    exact ⟨h, by decide⟩
  exact ⟨hplain, if_pos hplain⟩

/-- When every class is resolved and its resource finished, there is nothing but artifacts. -/
theorem IsAccount.forall₂_artifacts
    {fates : ResourceName → ResourceFate} {table : ElementTable} {classes : List ElementId}
    {outcome : RoundOutcome} {account : List (ElementId × (ArtifactIdentity ⊕ Diagnostic))}
    (h : IsAccount fates table classes outcome account)
    (hall : ∀ id ∈ classes, ∃ identity, resolveIdentity table id = .ok identity ∧
      fates identity.resource = .finished) :
    outcome.diagnostics = [] ∧
      List.Forall₂ (fun id identity => resolveIdentity table id = .ok identity) classes
        outcome.artifacts := by
  obtain ⟨hclasses, hentries, hartifacts, hdiagnostics⟩ := h
  rw [hartifacts, hdiagnostics, ← hclasses]
  rw [← hclasses] at hall
  clear hclasses hartifacts hdiagnostics
  induction account with
  | nil => exact ⟨rfl, .nil⟩
  | cons line rest ih =>
      obtain ⟨hline, hrest⟩ := List.forall_mem_cons.1 hentries
      rw [List.map_cons] at hall
      obtain ⟨⟨identity, hidentity, hfate⟩, hothers⟩ := List.forall_mem_cons.1 hall
      have hentry := hline.unique (.artifact hidentity hfate)
      obtain ⟨hnone, hartifacts⟩ := ih hothers hrest
      rw [List.filterMap_cons, List.filterMap_cons, hentry]
      exact ⟨hnone, .cons hidentity hartifacts⟩

theorem mem_of_forall₂_resolveIdentity
    {table : ElementTable} {ids : List ElementId} {identities : List ArtifactIdentity}
    (h : List.Forall₂ (fun id identity => resolveIdentity table id = .ok identity) ids identities)
    (identity : ArtifactIdentity) :
    identity ∈ identities ↔ ∃ id ∈ ids, resolveIdentity table id = .ok identity := by
  induction h with
  | nil => simp
  | @cons id found _ _ hfound _ ih =>
      have hself : resolveIdentity table id = .ok identity ↔ identity = found := by
        rw [hfound, Except.ok.injEq]
        exact eq_comm
      simp only [List.mem_cons, or_and_right, exists_or, exists_eq_left, hself, ih]

/-- Dealing with classes one after the other puts the marker of each into the store. -/
theorem has_foldl_afterClass
    (now : Timestamp) {table : ElementTable} {ids : List ElementId}
    (hall : ∀ id ∈ ids, ∃ identity, resolveIdentity table id = .ok identity ∧
      isPlainName identity.resource.name)
    (store : MemoryStore) (path : Path) :
    (ids.foldl (memoryFiler.afterClass now table) store).Has .classOutput path ↔
      (∃ id ∈ ids, ∃ identity, resolveIdentity table id = .ok identity ∧
        identity.relativePath.same path) ∨ store.Has .classOutput path := by
  rw [has_afterClasses]
  apply or_congr_left
  constructor
  · rintro ⟨id, hid, identity, hidentity, -, -, hsame⟩
    exact ⟨id, hid, identity, hidentity, hsame⟩
  · rintro ⟨id, hid, identity, hidentity, hsame⟩
    obtain ⟨found, hfound, hplain⟩ := hall id hid
    obtain rfl := Except.ok.inj (hfound.symm.trans hidentity)
    exact ⟨id, hid, found, hidentity, hplain, rfl, hsame⟩

/-- The numbers of occurrences are those of the round of the units: each has its element there, members
inside their owners, and what has none is a package. -/
structure Source.SourceRound.Describes (round : SourceRound) (units : List CompilationUnit) :
    Prop where
  roots_eq : round.roots = (topLevel units).map Occurrence.id
  element_eq : ∀ occurrence : Occurrence, occurrence.Occurs units →
    ∃ element, round.toRound.table.get? occurrence.id = some element ∧
      element.kind = occurrence.declaration.kind ∧
      element.simpleName = occurrence.declaration.name ∧ element.kind ≠ .package ∧
      ∀ outer : Occurrence, outer.Occurs units → occurrence ∈ outer.members →
        element.enclosing = some outer.id
  covered : ∀ id element, round.toRound.table.get? id = some element →
    element.kind = .package ∨ ∃ occurrence : Occurrence, occurrence.Occurs units ∧ occurrence.id = id
  identity_eq : ∀ occurrence : Occurrence, occurrence.Occurs units →
    occurrence.declaration.kind.isType →
      resolveIdentity round.toRound.table occurrence.id = .ok occurrence.identity

/-- The report and the store have the markers of the marked classes of some units, and no others. -/
structure RoundReport.IsExact (report : RoundReport) (units : List CompilationUnit)
    (store : MemoryStore) : Prop where
  diagnostics_eq : report.diagnostics = []
  written_iff : ∀ path, path ∈ report.written ↔
    ∃ occurrence : Occurrence, occurrence.Occurs units ∧
      occurrence.IsMarked (SourceRound.ofUnits units).toRound ∧
      occurrence.identity.relativePath = path
  stored_iff : ∀ path, store.Has .classOutput path ↔
    ∃ occurrence : Occurrence, occurrence.Occurs units ∧
      occurrence.IsMarked (SourceRound.ofUnits units).toRound ∧
      occurrence.identity.relativePath.same path
  once : ∃ marked : List ElementId, marked.Nodup ∧
    (∀ id, id ∈ marked ↔ ∃ occurrence : Occurrence, occurrence.Occurs units ∧
      occurrence.IsMarked (SourceRound.ofUnits units).toRound ∧ occurrence.id = id) ∧
    List.Forall₂ (fun id path => ∃ identity,
      resolveIdentity (SourceRound.ofUnits units).toRound.table id = .ok identity ∧
        identity.relativePath = path) marked report.written

section Units

variable {units : List CompilationUnit}

theorem exists_spec_of_mem_topLevel
    (hshape : ∀ unit ∈ units, unit.IsWellFormed) {top : Occurrence} (htop : top ∈ topLevel units) :
    top.names = [top.declaration.name] ∧ top.declaration.Every Declaration.IsWellFormed := by
  obtain ⟨unit, hunit, hdeclared, -, hnames⟩ := exists_unit_of_mem_topLevelAfter htop
  exact ⟨hnames, hshape unit hunit _ hdeclared⟩

theorem describes_ofUnits
    (hshape : ∀ unit ∈ units, unit.IsWellFormed)
    (hsize : (SourceRound.ofUnits units).elements.size < ElementId.count) :
    (SourceRound.ofUnits units).Describes units := by
  have hloaded := SourceRound.isLoaded_ofUnits units
  refine ⟨hloaded.roots_eq, ?_, ?_, ?_⟩
  · rintro occurrence ⟨top, htop, hwithin⟩
    obtain ⟨hnames, hformed⟩ := exists_spec_of_mem_topLevel hshape htop
    obtain ⟨element, owner, hget, hkind, hname, -, -⟩ :=
      hloaded.get?_occurrence hsize htop hwithin
    refine ⟨element, hget, hkind, hname, ?_, ?_⟩
    · rw [hkind]
      exact (Declaration.every_iff.1 (hwithin.every hformed)).1.kind_ne
    · rintro outer ⟨other, hother, houter⟩ hmember
      obtain ⟨_, -, hheld⟩ := hloaded.held other hother
      obtain ⟨inside, houterHeld, -⟩ := hheld.of_isWithin houter
      cases houterHeld with
      | intro _ _ _ _ hmembers =>
          cases hmembers _ hmember with
          | intro hsame _ _ howner _ =>
              obtain rfl := Option.some.inj
                ((SourceRound.IsLoaded.get?_ofIndex hsize hsame).symm.trans hget)
              exact howner
  · intro id element hget
    rcases hloaded.exists_occurrence_of_get? hget with
      ⟨hkind, -⟩ | ⟨top, htop, occurrence, hwithin, hid⟩
    · exact Or.inl hkind
    · exact Or.inr ⟨occurrence, ⟨top, htop, hwithin⟩, hid⟩
  · rintro occurrence ⟨top, htop, hwithin⟩ hkind
    obtain ⟨hnames, hformed⟩ := exists_spec_of_mem_topLevel hshape htop
    exact hloaded.resolveIdentity_occurrence hsize htop hnames hformed hwithin hkind

/-- In the round of well-formed units every marked class is resolved and its marker can be written. -/
theorem exists_identity_of_isMarked
    (hshape : ∀ unit ∈ units, unit.IsWellFormed)
    (hsize : (SourceRound.ofUnits units).elements.size < ElementId.count)
    {occurrence : Occurrence} (hoccurs : occurrence.Occurs units)
    (hmarked : occurrence.IsMarked (SourceRound.ofUnits units).toRound) :
    resolveIdentity (SourceRound.ofUnits units).toRound.table occurrence.id =
        .ok occurrence.identity ∧
      isPlainName occurrence.identity.resource.name ∧
      Filer.memoryFates occurrence.identity.resource = .finished := by
  have htype : occurrence.declaration.kind.isType := by
    rw [hmarked.1]
    rfl
  obtain ⟨top, htop, hwithin⟩ := hoccurs
  obtain ⟨hnames, hformed⟩ := exists_spec_of_mem_topLevel hshape htop
  exact ⟨(describes_ofUnits hshape hsize).identity_eq occurrence ⟨top, htop, hwithin⟩ htype,
    memoryFates_of_slash_not_mem
      (slash_not_mem_intercalate (hwithin.slash_not_mem hnames hformed))⟩

/-- What the round of well-formed units makes of an empty store. -/
theorem processRound_ofUnits
    (hshape : ∀ unit ∈ units, unit.IsWellFormed)
    (hsize : (SourceRound.ofUnits units).elements.size < ElementId.count) (now : Timestamp) :
    ∃ marked outcome events store,
      processRound memoryFiler now .standard MarkerRegistry.standardIdentifiers
          (SourceRound.ofUnits units).toRound .empty = ((.ok outcome, events), store) ∧
      outcome.diagnostics = [] ∧ marked.Nodup ∧
      (∀ id, id ∈ marked ↔ ∃ occurrence : Occurrence, occurrence.Occurs units ∧
        occurrence.IsMarked (SourceRound.ofUnits units).toRound ∧ occurrence.id = id) ∧
      List.Forall₂ (fun id identity =>
        resolveIdentity (SourceRound.ofUnits units).toRound.table id = .ok identity)
        marked outcome.artifacts ∧
      ∀ path, store.Has .classOutput path ↔
        ∃ identity ∈ outcome.artifacts, identity.relativePath.same path := by
  have hloaded := SourceRound.isLoaded_ofUnits units
  obtain ⟨classes, collected, hdiscover, hmem⟩ := hloaded.mem_discover_iff hsize
  have hmarked : ∀ id, id ∈ classes.toList ↔ ∃ occurrence : Occurrence,
      occurrence.Occurs units ∧ occurrence.IsMarked (SourceRound.ofUnits units).toRound ∧
        occurrence.id = id := by
    intro id
    rw [hmem]
    constructor
    · rintro ⟨top, htop, occurrence, hwithin, hspec⟩
      exact ⟨occurrence, ⟨top, htop, hwithin⟩, hspec⟩
    · rintro ⟨occurrence, ⟨top, htop, hwithin⟩, hspec⟩
      exact ⟨top, htop, occurrence, hwithin, hspec⟩
  have hidentities : ∀ id ∈ classes.toList, ∃ identity,
      resolveIdentity (SourceRound.ofUnits units).toRound.table id = .ok identity ∧
        isPlainName identity.resource.name ∧
        Filer.memoryFates identity.resource = .finished := by
    intro id hid
    obtain ⟨occurrence, hoccurs, hismarked, rfl⟩ := (hmarked id).1 hid
    exact ⟨_, exists_identity_of_isMarked hshape hsize hoccurs hismarked⟩
  obtain ⟨outcome, account, events, hrun, haccount⟩ := processRound_of_isClosed
    hloaded.isClosed .standard MarkerRegistry.standardIdentifiers
    Filer.memoryFiler_decidedBy now .empty hdiscover
  obtain ⟨hnone, hartifacts⟩ := haccount.forall₂_artifacts fun id hid => by
    obtain ⟨identity, hidentity, -, hfate⟩ := hidentities id hid
    exact ⟨identity, hidentity, hfate⟩
  refine ⟨classes.toList, outcome, events, _, hrun, hnone, classes.nodup, hmarked, hartifacts, ?_⟩
  intro path
  rw [has_foldl_afterClass now fun id hid => by
    obtain ⟨identity, hidentity, hplain, -⟩ := hidentities id hid
    exact ⟨identity, hidentity, hplain⟩]
  simp only [MemoryStore.not_has_empty, or_false, mem_of_forall₂_resolveIdentity hartifacts]
  constructor
  · rintro ⟨id, hid, identity, hidentity, hsame⟩
    exact ⟨identity, ⟨id, hid, hidentity⟩, hsame⟩
  · rintro ⟨identity, ⟨id, hid, hidentity⟩, hsame⟩
    exact ⟨id, hid, identity, hidentity, hsame⟩

/-- The identities of the marked classes are the artifacts of the round. -/
theorem mem_artifacts_iff
    (hshape : ∀ unit ∈ units, unit.IsWellFormed)
    (hsize : (SourceRound.ofUnits units).elements.size < ElementId.count)
    {marked : List ElementId} {artifacts : List ArtifactIdentity}
    (hmarked : ∀ id, id ∈ marked ↔ ∃ occurrence : Occurrence, occurrence.Occurs units ∧
      occurrence.IsMarked (SourceRound.ofUnits units).toRound ∧ occurrence.id = id)
    (hartifacts : List.Forall₂ (fun id identity =>
      resolveIdentity (SourceRound.ofUnits units).toRound.table id = .ok identity)
      marked artifacts) (identity : ArtifactIdentity) :
    identity ∈ artifacts ↔ ∃ occurrence : Occurrence, occurrence.Occurs units ∧
      occurrence.IsMarked (SourceRound.ofUnits units).toRound ∧
      occurrence.identity = identity := by
  rw [mem_of_forall₂_resolveIdentity hartifacts]
  constructor
  · rintro ⟨id, hid, hidentity⟩
    obtain ⟨occurrence, hoccurs, hismarked, rfl⟩ := (hmarked id).1 hid
    obtain ⟨hown, -⟩ := exists_identity_of_isMarked hshape hsize hoccurs hismarked
    exact ⟨occurrence, hoccurs, hismarked, Except.ok.inj (hown.symm.trans hidentity)⟩
  · rintro ⟨occurrence, hoccurs, hismarked, rfl⟩
    obtain ⟨hown, -⟩ := exists_identity_of_isMarked hshape hsize hoccurs hismarked
    exact ⟨occurrence.id, (hmarked _).2 ⟨occurrence, hoccurs, hismarked, rfl⟩, hown⟩

/-- A fresh session over an empty store marks exactly the classes that its round asks for. -/
theorem Session.runRound_ofUnits_isExact
    (hshape : ∀ unit ∈ units, unit.IsWellFormed)
    (hsize : (SourceRound.ofUnits units).elements.size < ElementId.count)
    (messager : Messager) (records : Records) (log : List LogEvent) (now : Timestamp) :
    (SourceRound.ofUnits units).Describes units ∧
      ∃ session host report ended after,
        Session.start .new messager ⟨MemoryStore.empty, records, log⟩ = (session, host) ∧
        session.runRound memoryFiler now (SourceRound.ofUnits units).toRound host =
          (.ok report, ended, after) ∧
        report.IsExact units after.resources := by
  refine ⟨describes_ofUnits hshape hsize, ?_⟩
  have hover := (SourceRound.isLoaded_ofUnits units).isOver_eq
  obtain ⟨marked, outcome, events, store, hrun, hnone, hnodup, hmarked, hartifacts, hstored⟩ :=
    processRound_ofUnits hshape hsize now
  have hmem := mem_artifacts_iff hshape hsize hmarked hartifacts
  let own := records.entries.size
  let session : Session := ⟨Processor.new.init (.tee messager (.record own)), own, [], 0⟩
  have hpresent : session.presentAnnotations (SourceRound.ofUnits units).toRound =
      (SourceRound.ofUnits units).toRound.markerAnnotations := by
    rw [Session.presentAnnotations_of_standard rfl, if_neg]
    rw [show (SourceRound.ofUnits units).toRound.isOver = false from hover]
    exact Bool.false_ne_true
  rw [← processRound_filter_present, ← Round.markerAnnotations, ← hpresent] at hrun
  let host : HostState MemoryStore := ⟨.empty, records.openNew.1, log⟩
  have hhost : processRound memoryFiler now .standard
      (session.presentAnnotations (SourceRound.ofUnits units).toRound)
      (SourceRound.ofUnits units).toRound host.resources = ((.ok outcome, events), store) := hrun
  obtain ⟨printed, after, hprinted, hreport⟩ :=
    Session.runRound_of_processRound rfl rfl hhost
  rw [hnone] at hprinted
  subst hprinted
  refine ⟨session, host, _, _, _, rfl, hreport, ?_, ?_, ?_, marked, hnodup, hmarked, ?_⟩
  · -- The session's own record was opened with the session, and nothing was printed.
    change records.openNew.1.diagnostics own = []
    rw [Records.diagnostics_openNew, Records.diagnostics, Array.getElem?_eq_none (Nat.le_refl _)]
    rfl
  · intro path
    rw [List.mem_map]
    constructor
    · rintro ⟨identity, hidentity, rfl⟩
      obtain ⟨occurrence, hoccurs, hismarked, rfl⟩ := (hmem identity).1 hidentity
      exact ⟨occurrence, hoccurs, hismarked, rfl⟩
    · rintro ⟨occurrence, hoccurs, hismarked, rfl⟩
      exact ⟨occurrence.identity, (hmem _).2 ⟨occurrence, hoccurs, hismarked, rfl⟩, rfl⟩
  · intro path
    change store.Has .classOutput path ↔ _
    rw [hstored]
    constructor
    · rintro ⟨identity, hidentity, hsame⟩
      obtain ⟨occurrence, hoccurs, hismarked, rfl⟩ := (hmem identity).1 hidentity
      exact ⟨occurrence, hoccurs, hismarked, hsame⟩
    · rintro ⟨occurrence, hoccurs, hismarked, hsame⟩
      exact ⟨occurrence.identity, (hmem _).2 ⟨occurrence, hoccurs, hismarked, rfl⟩, hsame⟩
  · rw [List.forall₂_map_right_iff]
    exact hartifacts.imp fun id identity hidentity => ⟨identity, hidentity, rfl⟩

end Units

/-- A class in a class, the inner one with a scope, and an interface that has one as well. -/
def cartUnit : CompilationUnit where
  path := none
  package := some "shop"
  packageAnnotations := []
  imports := []
  types := [
    ⟨.classType, "Cart", [], none,
      [⟨.classType, "Item", ["javax.enterprise.context.SessionScoped"], none, []⟩]⟩,
    ⟨.interface, "Shop", ["javax.enterprise.context.Dependent"], none, []⟩]

theorem cartUnit_isWellFormed : cartUnit.IsWellFormed := by
  have hitem : ∀ declaration : Declaration, declaration.members = [] →
      declaration.kind ≠ .package → '/' ∉ declaration.name.toList →
        declaration.Every Declaration.IsWellFormed := by
    intro declaration hmembers hkind hname
    refine Declaration.every_iff.2 ⟨⟨⟨hkind, fun h => absurd hmembers h⟩, hname⟩, ?_⟩
    rw [hmembers]
    simp
  refine List.forall_mem_cons.2 ⟨?_, List.forall_mem_singleton.2 ?_⟩
  · refine Declaration.every_iff.2 ⟨⟨⟨by decide, fun _ => rfl⟩, by decide⟩, ?_⟩
    exact List.forall_mem_singleton.2 (hitem _ rfl (by decide) (by decide))
  · exact hitem _ rfl (by decide) (by decide)

/-- Both classes get a marker, the inner one first, and the interface gets none. -/
example :
    (processRound memoryFiler ⟨2026, 1, 1, 0, 0, 0, true, 0, 0⟩ .standard
      MarkerRegistry.standardIdentifiers (SourceRound.ofUnits [cartUnit]).toRound .empty).1.1 =
        .ok ⟨[⟨"shop", "Cart$Item"⟩, ⟨"shop", "Cart"⟩], []⟩ := by
  decide +kernel

theorem runRound_ofUnits_isExact_cartUnit :
    (∀ unit ∈ [cartUnit], unit.IsWellFormed) ∧
      (SourceRound.ofUnits [cartUnit]).elements.size < ElementId.count ∧
      ∃ session host report ended after,
        Session.start .new .log ⟨MemoryStore.empty, .empty, []⟩ = (session, host) ∧
        session.runRound memoryFiler ⟨2026, 1, 1, 0, 0, 0, true, 0, 0⟩
          (SourceRound.ofUnits [cartUnit]).toRound host = (.ok report, ended, after) ∧
        report.IsExact [cartUnit] after.resources := by
  have hshape : ∀ unit ∈ [cartUnit], unit.IsWellFormed :=
    List.forall_mem_singleton.2 cartUnit_isWellFormed
  have hsize : (SourceRound.ofUnits [cartUnit]).elements.size < ElementId.count := by
    decide +kernel
  refine ⟨hshape, hsize, ?_⟩
  exact (Session.runRound_ofUnits_isExact hshape hsize .log .empty []
    ⟨2026, 1, 1, 0, 0, 0, true, 0, 0⟩).2

end ComponentMarkers
