import ComponentMarkers.Proofs.Marking.Results
import ComponentMarkers.Proofs.Marking.Stored
import ComponentMarkers.Proofs.Session.Rounds

/-!
# Runs of a session

Between two rounds a session is idle: its processor is set up and no finished resource waits for a
report.  Every round leaves an idle session idle, with a report or without.

Over a filer that stores by fates, a run leaves in an empty store the paths that its reports list and
no others.  What a round lists is a matter of the round alone, so running it again adds no path.
-/

namespace ComponentMarkers

variable {σ ω : Type}

/-- The paths that an outcome lists. -/
def RoundOutcome.paths (outcome : RoundOutcome) : List Path :=
  outcome.artifacts.map ArtifactIdentity.relativePath

/-- The paths that a round reported, none when it has no report. -/
def listed (result : Except UnknownElement RoundReport) : List Path :=
  (result.toOption.map RoundReport.written).getD []

theorem exists_of_forall₂_of_mem
    {α β : Type} {R : α → β → Prop} {as : List α} {bs : List β} (h : List.Forall₂ R as bs) {a : α}
    (ha : a ∈ as) : ∃ b ∈ bs, R a b := by
  induction h with
  | nil => cases ha
  | cons hfirst _ ih =>
      rcases List.mem_cons.1 ha with rfl | ha
      · exact ⟨_, List.mem_cons_self, hfirst⟩
      · obtain ⟨b, hb, hrel⟩ := ih ha
        exact ⟨b, List.mem_cons_of_mem _ hb, hrel⟩

namespace Session

/-- No round is under way. -/
structure IsIdle (session : Session) : Prop where
  processor_eq : ∃ messager, session.processor = Processor.new.init messager
  written_eq : session.written = []

theorem isIdle_start (messager : Messager) (host : HostState σ) :
    (start .new messager host).1.IsIdle :=
  ⟨⟨_, rfl⟩, rfl⟩

/-- The annotations that are handed on are the same in all idle sessions. -/
theorem IsIdle.presentAnnotations_eq {session : Session} (h : session.IsIdle) (round : Round) :
    session.presentAnnotations round = if round.isOver then [] else round.markerAnnotations := by
  obtain ⟨messager, hprocessor⟩ := h.processor_eq
  apply presentAnnotations_of_standard
  rw [hprocessor]
  rfl

/-- No round is under way, and the session has an empty record that nothing else is entered in. -/
structure IsReady (session : Session) (records : Records) : Prop where
  processor_eq : ∃ messager, messager.Spares session.record ∧
    session.processor = Processor.new.init (.tee messager (.record session.record))
  written_eq : session.written = []
  has : records.Has session.record
  diagnostics_eq : records.diagnostics session.record = []

theorem isReady_start
    {messager : Messager} {host : HostState σ} (h : messager.Spares host.records.entries.size) :
    (start .new messager host).1.IsReady (start .new messager host).2.records := by
  refine ⟨⟨messager, h, rfl⟩, rfl, ?_, ?_⟩
  · simp [start, Records.openNew, Records.Has]
  · simp [start, Records.openNew, Records.diagnostics]

/-- The report of a round from a session that is ready says what the round function makes of it. -/
theorem IsReady.runRound_eq
    {session : Session} (host : HostState σ) (h : session.IsReady host.records)
    {filer : Filer σ ω} {now : Timestamp} {round : Round} {outcome : RoundOutcome}
    {events : List LogEvent} {last : σ}
    (hrun : processRound filer now .standard (session.presentAnnotations round) round
      host.resources = ((.ok outcome, events), last)) :
    ∃ records log, session.runRound filer now round host =
      (.ok ⟨session.rounds + 1, session.presentAnnotations round, outcome.paths,
          outcome.diagnostics, true⟩,
        { session with rounds := session.rounds + 1 }, ⟨last, records, log⟩) := by
  obtain ⟨messager, hspares, hprocessor⟩ := h.processor_eq
  obtain ⟨records, log, hrecords, hran⟩ := runRound_of_processRound hprocessor h.written_eq hrun
  have hown : records.diagnostics session.record = outcome.diagnostics := by
    rw [hrecords, hspares.printAll_tee outcome.diagnostics h.has, h.diagnostics_eq,
      List.nil_append]
  refine ⟨records.clear session.record, log, ?_⟩
  rw [hran, hown, h.written_eq]
  rfl

/-- Runs rounds one after the other, each at a time of its own. -/
def runRounds (filer : Filer σ ω) : List (Timestamp × Round) → Session → HostState σ →
    List (Except UnknownElement RoundReport) × Session × HostState σ
  | [], session, host => ([], session, host)
  | (now, round) :: rest, session, host =>
    let (result, session, host) := session.runRound filer now round host
    let (results, session, host) := runRounds filer rest session host
    (result :: results, session, host)

section Steps

variable {session : Session}

/-- A round without a report leaves the filer and the session as they were, but for the number of
rounds. -/
theorem IsIdle.runRound_of_error
    (h : session.IsIdle) {filer : Filer σ ω} {now : Timestamp} {round : Round} {host : HostState σ}
    {unknown : UnknownElement} {events : List LogEvent} {last : σ}
    (hrun : processRound filer now .standard (session.presentAnnotations round) round
      host.resources = ((.error unknown, events), last)) :
    ∃ log, session.runRound filer now round host =
      (.error unknown, { session with rounds := session.rounds + 1 },
        ⟨host.resources, host.records, log⟩) := by
  obtain ⟨messager, hprocessor⟩ := h.processor_eq
  have hrecorded := processRound_recordingFiler_error
    (show processRound filer now .standard (session.presentAnnotations round) round
      (Recorded.mk host.resources []).state = ((.error unknown, events), last) from hrun)
  have hprocess : session.processor.process (recordingFiler filer) now
      (session.presentAnnotations round) round
      ⟨⟨host.resources, []⟩, host.records, host.log⟩ =
        (.error unknown, ⟨⟨host.resources, []⟩, host.records, host.log ++ events⟩) := by
    simp only [hprocessor, Processor.process, Processor.init, Processor.new, hrecorded]
  refine ⟨host.log ++ events, ?_⟩
  simp only [runRound, h.written_eq, hprocess]

/-- A round from an idle session lists what the round function makes of it, leaves the filer as the
round function leaves it, and leaves the session idle. -/
theorem IsIdle.runRound_spec
    (h : session.IsIdle) (filer : Filer σ ω) (now : Timestamp) (round : Round)
    (host : HostState σ) :
    let processed := processRound filer now .standard (session.presentAnnotations round) round
      host.resources
    let ran := session.runRound filer now round host
    ran.1.toOption.map RoundReport.written = processed.1.1.toOption.map RoundOutcome.paths ∧
      ran.2.1.IsIdle ∧ ran.2.2.resources = processed.2 := by
  obtain ⟨messager, hprocessor⟩ := h.processor_eq
  rcases hrun : processRound filer now .standard (session.presentAnnotations round) round
      host.resources with ⟨⟨unknown | outcome, events⟩, last⟩
  · obtain ⟨log, hran⟩ := h.runRound_of_error hrun
    rw [hran]
    exact ⟨rfl, ⟨⟨messager, hprocessor⟩, h.written_eq⟩, (processRound_eq_error_iff.1 hrun).2.symm⟩
  · obtain ⟨records, log, -, hran⟩ := runRound_of_processRound hprocessor h.written_eq hrun
    rw [hran]
    exact ⟨rfl, ⟨⟨messager, hprocessor⟩, rfl⟩, rfl⟩

end Steps

/-- What a round lists depends on the round alone when names decide the fates of resources. -/
theorem IsIdle.listed_runRound
    {session other : Session} (h : session.IsIdle) (hother : other.IsIdle) {filer : Filer σ ω}
    {fates : ResourceName → ResourceFate} (hfiler : filer.DecidedBy fates)
    (now otherNow : Timestamp) (round : Round) (host otherHost : HostState σ) :
    listed (session.runRound filer now round host).1 =
      listed (other.runRound filer otherNow round otherHost).1 := by
  obtain ⟨hlisted, -⟩ := h.runRound_spec filer now round host
  obtain ⟨hotherListed, -⟩ := hother.runRound_spec filer otherNow round otherHost
  rw [listed, listed, hlisted, hotherListed, h.presentAnnotations_eq, hother.presentAnnotations_eq,
    processRound_fst_eq hfiler now otherNow .standard _ round host.resources otherHost.resources]

theorem IsIdle.exists_report
    {session : Session} (h : session.IsIdle) (filer : Filer σ ω) (now : Timestamp) {round : Round}
    (hround : round.IsClosed) (host : HostState σ) :
    ∃ report, (session.runRound filer now round host).1 = .ok report := by
  obtain ⟨classes, collected, hdiscover, -⟩ :=
    discover_of_isClosed hround .standard (session.presentAnnotations round)
  obtain ⟨outcome, events, last, hrun⟩ := exists_processRound_of_discover filer now
    host.resources hdiscover
  obtain ⟨messager, hprocessor⟩ := h.processor_eq
  obtain ⟨records, log, -, hran⟩ := runRound_of_processRound hprocessor h.written_eq hrun
  rw [hran]
  exact ⟨_, rfl⟩

/-- A run goes through all its rounds.  Closed rounds have reports, and a round that is run again lists
what it listed. -/
theorem IsIdle.runRounds_spec
    {session : Session} (h : session.IsIdle) {filer : Filer σ ω}
    {fates : ResourceName → ResourceFate} (hfiler : filer.DecidedBy fates)
    (rounds : List (Timestamp × Round)) (host : HostState σ) :
    (runRounds filer rounds session host).2.1.IsIdle ∧
      List.Forall₂ (fun step result =>
          (step.2.IsClosed → ∃ report, result = .ok report) ∧
            ∀ (other : Session), other.IsIdle → ∀ now otherHost,
              listed (other.runRound filer now step.2 otherHost).1 = listed result)
        rounds (runRounds filer rounds session host).1 := by
  induction rounds generalizing session host with
  | nil => exact ⟨h, .nil⟩
  | cons step rest ih =>
      obtain ⟨now, round⟩ := step
      obtain ⟨-, hidle, -⟩ := h.runRound_spec filer now round host
      obtain ⟨hlast, hrest⟩ := ih hidle (session.runRound filer now round host).2.2
      refine ⟨hlast, .cons ⟨fun hround => h.exists_report filer now hround host, ?_⟩ hrest⟩
      intro other hother otherNow otherHost
      exact hother.listed_runRound h hfiler otherNow now round otherHost host

section Stores

variable {filer : Filer MemoryStore ω} {fates : ResourceName → ResourceFate} {session : Session}

/-- A round adds to the store what it lists. -/
theorem IsIdle.runRound_gains
    (h : session.IsIdle) (hfiler : filer.StoresBy fates) (now : Timestamp) (round : Round)
    (host : HostState MemoryStore) :
    host.resources.Gains (session.runRound filer now round host).2.2.resources
      (listed (session.runRound filer now round host).1) [Text.encode (provenance now)] := by
  obtain ⟨hlisted, -, hresources⟩ := h.runRound_spec filer now round host
  rw [listed, hlisted, hresources]
  rcases hrun : processRound filer now .standard (session.presentAnnotations round) round
      host.resources with ⟨⟨unknown | outcome, events⟩, last⟩
  · rw [(processRound_eq_error_iff.1 hrun).2]
    exact .refl _ _
  · exact processRound_gains hfiler hrun

/-- A run adds to the store what its rounds list. -/
theorem IsIdle.runRounds_gains
    (h : session.IsIdle) (hfiler : filer.StoresBy fates) (rounds : List (Timestamp × Round))
    (host : HostState MemoryStore) :
    host.resources.Gains (runRounds filer rounds session host).2.2.resources
      ((runRounds filer rounds session host).1.flatMap listed)
      (rounds.map fun step => Text.encode (provenance step.1)) := by
  induction rounds generalizing session host with
  | nil => exact .refl _ _
  | cons step rest ih =>
      obtain ⟨now, round⟩ := step
      obtain ⟨-, hidle, -⟩ := h.runRound_spec filer now round host
      exact (h.runRound_gains hfiler now round host).trans
        (ih hidle (session.runRound filer now round host).2.2)

/-- The store is what the reports say it is.  After any rounds, run in one session over a filer that
lets resources fail by their names and writes all others to a store that was empty at first: closed
rounds have reports; the paths in the class output are those that the reports list; there is nothing
in the source output; whatever is stored is one line, written by one of the rounds; and running one of
the rounds again, at any time, adds no path and takes none away. -/
theorem runRounds_stores_what_is_reported
    (hfiler : filer.StoresBy fates) (messager : Messager) (records : Records) (log : List LogEvent)
    (rounds : List (Timestamp × Round)) :
    let opened := start .new messager ⟨MemoryStore.empty, records, log⟩
    ∃ results session host, runRounds filer rounds opened.1 opened.2 = (results, session, host) ∧
      List.Forall₂ (fun step result => step.2.IsClosed → ∃ report, result = .ok report)
        rounds results ∧
      (∀ path, host.resources.Has .classOutput path ↔
        ∃ report, .ok report ∈ results ∧ ∃ written ∈ report.written, written.same path) ∧
      host.resources.paths .sourceOutput = [] ∧
      (∀ stored ∈ host.resources.resources, ∃ step ∈ rounds,
        stored.content = Text.encode (provenanceStart ++ step.1.text) ∧
          Text.IsLine (provenanceStart ++ step.1.text)) ∧
      ∀ step ∈ rounds, ∀ now location path,
        (session.runRound filer now step.2 host).2.2.resources.Has location path ↔
          host.resources.Has location path := by
  intro opened
  have hstart : opened.1.IsIdle := isIdle_start messager _
  obtain ⟨hidle, hresults⟩ := hstart.runRounds_spec hfiler.decidedBy rounds opened.2
  have hgains := hstart.runRounds_gains hfiler rounds opened.2
  rcases hran : runRounds filer rounds opened.1 opened.2 with ⟨results, session, host⟩
  rw [hran] at hidle hresults hgains
  change MemoryStore.empty.Gains _ _ _ at hgains
  have hhas : ∀ location path, host.resources.Has location path ↔
      location = .classOutput ∧ ∃ written ∈ results.flatMap listed, written.same path := by
    intro location path
    rw [hgains.has_iff, or_iff_left (MemoryStore.not_has_empty location path)]
  refine ⟨results, session, host, rfl, hresults.imp fun _ _ hstep => hstep.1, ?_, ?_, ?_, ?_⟩
  · intro path
    rw [hhas, and_iff_right rfl]
    simp only [List.mem_flatMap]
    constructor
    · rintro ⟨written, ⟨unknown | report, hresult, hwritten⟩, hsame⟩
      · cases hwritten
      · exact ⟨report, hresult, written, hwritten, hsame⟩
    · rintro ⟨report, hresult, written, hwritten, hsame⟩
      exact ⟨written, ⟨.ok report, hresult, hwritten⟩, hsame⟩
  · rw [List.eq_nil_iff_forall_not_mem]
    intro path hpath
    have hself : host.resources.Has .sourceOutput path := ⟨path, hpath, decide_eq_true rfl⟩
    obtain ⟨hlocation, -⟩ := (hhas .sourceOutput path).1 hself
    cases hlocation
  · intro stored hstored
    rcases hgains.content_mem stored hstored with hcontent | hempty
    · obtain ⟨step, hstep, hcontent⟩ := List.mem_map.1 hcontent
      exact ⟨step, hstep, hcontent.symm, isLine_provenance step.1⟩
    · cases hempty
  · intro step hstep now location path
    have hagain := hidle.runRound_gains hfiler now step.2 host
    rw [hagain.has_iff, or_iff_right_iff_imp, hhas]
    rintro ⟨hlocation, written, hwritten, hsame⟩
    refine ⟨hlocation, written, ?_, hsame⟩
    -- The round listed the same paths when it was run before.
    obtain ⟨result, hresult, -, hlisted⟩ := exists_of_forall₂_of_mem hresults hstep
    rw [hlisted session hidle now host] at hwritten
    exact List.mem_flatMap.2 ⟨result, hresult, hwritten⟩

end Stores

/-- A round is run twice behind a guard that refuses one of its markers: both rounds have reports, and
the store has what the reports list. -/
theorem runRounds_stores_what_is_reported_brokenRound :
    (guardedFiler refusesA memoryFiler).StoresBy
        (Filer.guardedFates refusesA Filer.memoryFates) ∧
      ∃ first second session host,
        runRounds (guardedFiler refusesA memoryFiler)
            [(⟨2026, 1, 1, 0, 0, 0, true, 0, 0⟩, brokenRound),
              (⟨2026, 1, 1, 0, 0, 1, true, 0, 0⟩, brokenRound)]
            (start .new .log ⟨MemoryStore.empty, .empty, []⟩).1
            (start .new .log ⟨MemoryStore.empty, .empty, []⟩).2 =
          ([.ok first, .ok second], session, host) ∧
        ∀ path, host.resources.Has .classOutput path ↔
          ∃ written ∈ first.written ++ second.written, written.same path := by
  have hfiler := Filer.memoryFiler_storesBy.guardedFiler refusesA
  refine ⟨hfiler, ?_⟩
  obtain ⟨results, session, host, hran, hreports, hhas, -⟩ :=
    runRounds_stores_what_is_reported hfiler .log .empty []
      [(⟨2026, 1, 1, 0, 0, 0, true, 0, 0⟩, brokenRound),
        (⟨2026, 1, 1, 0, 0, 1, true, 0, 0⟩, brokenRound)]
  cases hreports with
  | cons hfirst hrest =>
      cases hrest with
      | cons hsecond hnone =>
          cases hnone
          obtain ⟨first, rfl⟩ := hfirst brokenRound_isClosed
          obtain ⟨second, rfl⟩ := hsecond brokenRound_isClosed
          refine ⟨first, second, session, host, hran, fun path => ?_⟩
          rw [hhas]
          simp [or_and_right, exists_or]

end Session

end ComponentMarkers
