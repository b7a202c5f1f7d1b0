import ComponentMarkers.Proofs.Filer.Store
import ComponentMarkers.Proofs.Session.Rounds

/-!
# The markers a round leaves

What a fresh session leaves in an empty store is a matter of the round alone: the markers of the
classes it finds, as far as these have an identity and their names can be written.  Classes that fail
change nothing for the others.
-/

namespace ComponentMarkers

/-- The class gets a marker at the place. -/
def ElementTable.Places (table : ElementTable) (id : ElementId) (location : Location)
    (path : Path) : Prop :=
  ∃ identity, resolveIdentity table id = .ok identity ∧ isPlainName identity.resource.name ∧
    identity.resource.location = location ∧ identity.resource.path.same path

/-- The round asks for a marker at the place: for that of a class which carries a standard annotation
or has something within it that does. -/
def Round.Marks (round : Round) (location : Location) (path : Path) : Prop :=
  ∃ identifier ∈ MarkerRegistry.standardIdentifiers, ∃ start ∈ round.annotated identifier,
    ∃ id, round.table.Reaches start id ∧
      (∃ element, round.table.get? id = some element ∧ element.kind = .classType) ∧
      round.table.Places id location path

/-- Dealing with a class adds its marker to the store, if it gets one. -/
theorem has_afterClass
    (now : Timestamp) (table : ElementTable) (store : MemoryStore) (id : ElementId)
    (location : Location) (path : Path) :
    (memoryFiler.afterClass now table store id).Has location path ↔
      table.Places id location path ∨ store.Has location path := by
  rw [Filer.afterClass, ElementTable.Places]
  cases hidentity : resolveIdentity table id with
  | error fault => simp
  | ok identity =>
      simp only [Except.ok.injEq, exists_eq_left']
      by_cases hplain : isPlainName identity.resource.name
      · rw [MemoryStore.has_writeResource hplain]
        simp only [hplain, true_and]
      · -- The store refuses the name and stays as it is.
        have hcreate : memoryFiler.create identity.resource (some id) store =
            (.error (.invalidName identity.resource.name), store) :=
          if_neg hplain
        rw [(Filer.writeResource_of_create_error _ hcreate).1]
        simp [hplain]

/-- Dealing with classes one after the other adds the marker of each. -/
theorem has_afterClasses
    (now : Timestamp) (table : ElementTable) (ids : List ElementId) (store : MemoryStore)
    (location : Location) (path : Path) :
    (ids.foldl (memoryFiler.afterClass now table) store).Has location path ↔
      (∃ id ∈ ids, table.Places id location path) ∨ store.Has location path := by
  induction ids generalizing store with
  | nil => simp
  | cons id rest ih =>
      rw [List.foldl_cons, ih, has_afterClass, ← or_assoc]
      simp only [List.mem_cons, exists_eq_or_imp]
      rw [or_comm (a := table.Places id location path)]

/-- What the round function makes of a closed round and an empty store. -/
theorem processRound_has_iff
    {round : Round} (hround : round.IsClosed) (now : Timestamp) :
    ∃ outcome events store,
      processRound memoryFiler now .standard MarkerRegistry.standardIdentifiers round .empty =
        ((.ok outcome, events), store) ∧
      ∀ location path, store.Has location path ↔ round.Marks location path := by
  obtain ⟨classes, collected, hdiscover, hmem⟩ :=
    discover_of_isClosed hround .standard MarkerRegistry.standardIdentifiers
  obtain ⟨outcome, account, events, hrun, -⟩ := processRound_of_isClosed hround .standard
    MarkerRegistry.standardIdentifiers Filer.memoryFiler_decidedBy now .empty hdiscover
  have hregistered : ∀ identifier ∈ MarkerRegistry.standardIdentifiers,
      MarkerRegistry.standard.contains identifier := by
    decide
  refine ⟨outcome, events, _, hrun, ?_⟩
  intro location path
  rw [has_afterClasses]
  constructor
  · rintro (⟨id, hid, hplaces⟩ | hempty)
    · obtain ⟨identifier, hidentifier, -, start, hstart, hreach, hclass⟩ := (hmem id).1 hid
      exact ⟨identifier, hidentifier, start, hstart, id, hreach, hclass, hplaces⟩
    · exact absurd hempty (MemoryStore.not_has_empty location path)
  · rintro ⟨identifier, hidentifier, start, hstart, id, hreach, hclass, hplaces⟩
    refine Or.inl ⟨id, (hmem id).2 ?_, hplaces⟩
    exact ⟨identifier, hidentifier, hregistered identifier hidentifier, start, hstart, hreach,
      hclass⟩

namespace Session

/-- A fresh session over an empty store leaves the markers that its round asks for. -/
theorem exists_runRound_has_iff
    {round : Round} (hround : round.IsClosed) (hover : round.isOver = false) (messager : Messager)
    (records : Records) (log : List LogEvent) (now : Timestamp) :
    ∃ session host report ended after,
      start .new messager ⟨MemoryStore.empty, records, log⟩ = (session, host) ∧
      session.runRound memoryFiler now round host = (.ok report, ended, after) ∧
      ∀ location path, after.resources.Has location path ↔ round.Marks location path := by
  obtain ⟨outcome, events, store, hrun, hhas⟩ := processRound_has_iff hround now
  let own := records.entries.size
  let session : Session := ⟨Processor.new.init (.tee messager (.record own)), own, [], 0⟩
  let host : HostState MemoryStore := ⟨.empty, records.openNew.1, log⟩
  have hpresent : session.presentAnnotations round = round.markerAnnotations := by
    rw [presentAnnotations_of_standard rfl, hover, if_neg Bool.false_ne_true]
  rw [← processRound_filter_present, ← Round.markerAnnotations, ← hpresent] at hrun
  have hhost : processRound memoryFiler now .standard (session.presentAnnotations round) round
      host.resources = ((.ok outcome, events), store) := hrun
  obtain ⟨printed, after, -, hreport⟩ := runRound_of_processRound rfl rfl hhost
  exact ⟨session, host, _, _, _, rfl, hreport, hhas⟩

end Session

end ComponentMarkers
