import ComponentMarkers.Proofs.Marking.Accounts
import ComponentMarkers.Proofs.Marking.Recorded
import ComponentMarkers.Proofs.Session.Records
import ComponentMarkers.Session

/-!
# One round of a session

Between two rounds a session is settled: no finished resource waits for a report, and the session's
own record is empty.  From a settled session a round either has no report, when the round function
has no outcome, or the report says what the round function makes of the round alone and the session is
settled again.
-/

namespace ComponentMarkers

variable {σ ω : Type}

/-- The annotations of the standard table that some element of a round carries. -/
def Round.markerAnnotations (round : Round) : List String :=
  MarkerRegistry.standardIdentifiers.filter fun identifier =>
    !(round.annotated identifier).isEmpty

/-- The report with the given number is the report of a round.  Unless the round ends the run, it
lists what the round function makes of the round with the full table, at any time and in any state of
the filer. -/
structure RoundReport.IsReportOf (report : RoundReport) (filer : Filer σ ω) (round : Round)
    (number : Nat) : Prop where
  number_eq : report.round = number
  of_isOver : round.isOver = true →
    report.annotations = [] ∧ report.written = [] ∧ report.diagnostics = []
  annotations_eq : round.isOver = false → report.annotations = round.markerAnnotations
  outcome_eq : round.isOver = false → ∀ now state, ∃ outcome events last,
    processRound filer now .standard MarkerRegistry.standardIdentifiers round state =
        ((.ok outcome, events), last) ∧
      report.written = outcome.artifacts.map ArtifactIdentity.relativePath ∧
      report.diagnostics = outcome.diagnostics

/-- Annotations that no element carries can be left out of a round. -/
theorem processRound_filter_present
    (filer : Filer σ ω) (now : Timestamp) (registry : MarkerRegistry) (annotations : List String)
    (round : Round) (state : σ) :
    processRound filer now registry
        (annotations.filter fun identifier => !(round.annotated identifier).isEmpty) round state =
      processRound filer now registry annotations round state := by
  rw [processRound, processRound, discover_filter_present]

/-- Without annotations nothing is marked. -/
theorem processRound_nil
    (filer : Filer σ ω) (now : Timestamp) (registry : MarkerRegistry) (round : Round) (state : σ) :
    processRound filer now registry [] round state = ((.ok ⟨[], []⟩, []), state) :=
  rfl

namespace Session

/-- A session between two rounds, with the number of its own record and the rounds it has run.  The
host's messager is the record with number 0. -/
def settled (own rounds : Nat) : Session :=
  ⟨Processor.new.init (.tee (.record 0) (.record own)), own, [], rounds⟩

/-- A session whose processor has the standard registry hands on the marker annotations of a round. -/
theorem presentAnnotations_of_standard
    {session : Session} (h : session.processor.registry = .standard) (round : Round) :
    session.presentAnnotations round = if round.isOver then [] else round.markerAnnotations := by
  have hstandard : MarkerRegistry.standard.toList = MarkerRegistry.standardIdentifiers := by
    decide
  rw [presentAnnotations, h, hstandard]
  rfl

end Session

section Rounds

variable {filer : Filer σ ω} {now : Timestamp} {round : Round}

theorem Processor.process_of_ok
    (messager : Messager) (host : HostState σ) {annotations : List String} {outcome : RoundOutcome}
    {events : List LogEvent} {last : σ}
    (hrun : processRound filer now .standard annotations round host.resources =
      ((.ok outcome, events), last)) :
    ∃ log, (new.init messager).process filer now annotations round host =
      (.ok true,
        ⟨last, (messager.printAll outcome.diagnostics (host.records, host.log ++ events)).1,
          log⟩) := by
  simp only [process, init, new, hrun]
  exact ⟨_, rfl⟩

theorem Processor.process_of_error
    (messager : Messager) (host : HostState σ) {annotations : List String}
    {unknown : UnknownElement}
    (hrun : (processRound filer now .standard annotations round host.resources).1.1 =
      .error unknown) :
    ((new.init messager).process filer now annotations round host).1 = .error unknown := by
  rcases hwhole : processRound filer now .standard annotations round host.resources with
    ⟨⟨other | outcome, events⟩, last⟩
  · rw [hwhole] at hrun
    simpa only [process, init, new, hwhole] using congrArg _ (Except.error.inj hrun)
  · rw [hwhole] at hrun
    cases hrun

namespace Session

variable {host : HostState σ}

theorem runRound_of_process_ok
    {session : Session} {claimed : Bool} {seen : HostState (Recorded σ)}
    (hprocess : session.processor.process (recordingFiler filer) now
      (session.presentAnnotations round) round
      ⟨⟨host.resources, session.written⟩, host.records, host.log⟩ = (.ok claimed, seen)) :
    session.runRound filer now round host =
      (.ok ⟨session.rounds + 1, session.presentAnnotations round, seen.resources.written,
          (seen.records.take session.record).1, claimed⟩,
        { session with written := [], rounds := session.rounds + 1 },
        ⟨seen.resources.state, (seen.records.take session.record).2, seen.log⟩) := by
  simp only [runRound, hprocess]

theorem runRound_of_process_error
    {session : Session} {unknown : UnknownElement}
    (hprocess : (session.processor.process (recordingFiler filer) now
      (session.presentAnnotations round) round
      ⟨⟨host.resources, session.written⟩, host.records, host.log⟩).1 = .error unknown) :
    (session.runRound filer now round host).1 = .error unknown := by
  simp only [runRound, hprocess]

/-- A round that the round function succeeds on is reported.  The report lists the paths of the
artifacts and what the session's own record holds when the diagnostics were printed. -/
theorem runRound_of_processRound
    {session : Session} {messager : Messager} (hnew : session.processor = Processor.new.init messager)
    (hwritten : session.written = []) {outcome : RoundOutcome} {events : List LogEvent} {last : σ}
    (hrun : processRound filer now .standard (session.presentAnnotations round) round
      host.resources = ((.ok outcome, events), last)) :
    ∃ records log, records =
        (messager.printAll outcome.diagnostics (host.records, host.log ++ events)).1 ∧
      session.runRound filer now round host =
        (.ok ⟨session.rounds + 1, session.presentAnnotations round,
            outcome.artifacts.map ArtifactIdentity.relativePath,
            records.diagnostics session.record, true⟩,
          { session with written := [], rounds := session.rounds + 1 },
          ⟨last, records.clear session.record, log⟩) := by
  have hrecorded := processRound_recordingFiler
    (show processRound filer now .standard (session.presentAnnotations round) round
      (Recorded.mk host.resources []).state = ((.ok outcome, events), last) from hrun)
  obtain ⟨log, hprocess⟩ := Processor.process_of_ok messager
    ⟨Recorded.mk host.resources [], host.records, host.log⟩ hrecorded
  rw [← hnew, ← hwritten] at hprocess
  refine ⟨_, log, rfl, ?_⟩
  rw [runRound_of_process_ok hprocess]
  dsimp only [Records.take]
  rw [hwritten, List.nil_append]

/-- There is no report of a round that the round function fails on. -/
theorem runRound_of_processRound_error
    {session : Session} {messager : Messager} (hnew : session.processor = Processor.new.init messager)
    (hwritten : session.written = []) {unknown : UnknownElement} {events : List LogEvent} {last : σ}
    (hrun : processRound filer now .standard (session.presentAnnotations round) round
      host.resources = ((.error unknown, events), last)) :
    (session.runRound filer now round host).1 = .error unknown := by
  have hrecorded := processRound_recordingFiler_error
    (show processRound filer now .standard (session.presentAnnotations round) round
      (Recorded.mk host.resources []).state = ((.error unknown, events), last) from hrun)
  have hprocess := Processor.process_of_error messager
    ⟨Recorded.mk host.resources [], host.records, host.log⟩
    (congrArg (fun result => result.1.1) hrecorded)
  rw [← hnew, ← hwritten] at hprocess
  exact runRound_of_process_error hprocess

/-- Behind every report there is an outcome of the round function. -/
theorem exists_processRound_of_runRound
    {session : Session} {messager : Messager} (hnew : session.processor = Processor.new.init messager)
    (hwritten : session.written = []) {report : RoundReport} {next : Session} {after : HostState σ}
    (hrun : session.runRound filer now round host = (.ok report, next, after)) :
    ∃ outcome events last, processRound filer now .standard (session.presentAnnotations round) round
        host.resources = ((.ok outcome, events), last) ∧
      report.written = outcome.artifacts.map ArtifactIdentity.relativePath := by
  rcases hprocess : processRound filer now .standard (session.presentAnnotations round) round
      host.resources with ⟨⟨unknown | outcome, events⟩, last⟩
  · have herror := runRound_of_processRound_error hnew hwritten hprocess
    rw [hrun] at herror
    cases herror
  · obtain ⟨records, log, -, hreport⟩ := runRound_of_processRound hnew hwritten hprocess
    rw [hrun] at hreport
    obtain ⟨rfl, -⟩ : report = _ ∧ _ := by simpa using hreport
    exact ⟨outcome, events, last, rfl, rfl⟩

variable {own rounds : Nat}

/-- A settled session is settled again when a round was reported. -/
theorem runRound_of_ok
    (hzero : host.records.Has 0) (hown : host.records.Has own) (hne : own ≠ 0)
    (hempty : host.records.diagnostics own = [])
    {outcome : RoundOutcome} {events : List LogEvent} {last : σ}
    (hrun : processRound filer now .standard ((settled own rounds).presentAnnotations round) round
      host.resources = ((.ok outcome, events), last)) :
    ∃ records log, (settled own rounds).runRound filer now round host =
        (.ok ⟨rounds + 1, (settled own rounds).presentAnnotations round,
            outcome.artifacts.map ArtifactIdentity.relativePath, outcome.diagnostics, true⟩,
          settled own (rounds + 1), ⟨last, records, log⟩) ∧
      (∀ number, records.Has number ↔ host.records.Has number) ∧
      records.diagnostics 0 = host.records.diagnostics 0 ++ outcome.diagnostics ∧
      records.diagnostics own = [] ∧
      ∀ number, number ≠ 0 → number ≠ own →
        records.diagnostics number = host.records.diagnostics number := by
  obtain ⟨printed, log, hprinted, hreport⟩ := runRound_of_processRound rfl rfl hrun
  obtain ⟨records, hprint, hhas, hhost, hself, hothers⟩ :=
    Messager.printAll_tee_record hne.symm outcome.diagnostics hzero hown (host.log ++ events)
  rw [hempty, List.nil_append] at hself
  rw [hprint] at hprinted
  subst hprinted
  refine ⟨printed.clear own, log, ?_, ?_, ?_, ?_, ?_⟩
  · rw [hreport]
    dsimp only [settled]
    rw [hself]
  · intro number
    rw [Records.has_clear]
    exact hhas number
  · rw [Records.diagnostics_clear_of_ne _ _ _ hne]
    exact hhost
  · exact Records.diagnostics_clear_self _ _
  · intro number hnumber hnumberOwn
    rw [Records.diagnostics_clear_of_ne _ _ _ hnumberOwn.symm]
    exact hothers number hnumber hnumberOwn

/-- Every closed round has a report. -/
theorem exists_runRound_settled
    (hzero : host.records.Has 0) (hown : host.records.Has own) (hne : own ≠ 0)
    (hempty : host.records.diagnostics own = []) {fates : ResourceName → ResourceFate}
    (hfiler : filer.DecidedBy fates) (now : Timestamp) (hround : round.IsClosed) :
    ∃ report session after,
      (settled own rounds).runRound filer now round host = (.ok report, session, after) := by
  obtain ⟨classes, collected, hdiscover, -⟩ := discover_of_isClosed hround .standard
    ((settled own rounds).presentAnnotations round)
  obtain ⟨outcome, account, events, hrun, -⟩ := processRound_of_isClosed hround .standard
    ((settled own rounds).presentAnnotations round) hfiler now host.resources hdiscover
  obtain ⟨records, log, hreport, -⟩ := runRound_of_ok hzero hown hne hempty hrun
  exact ⟨_, _, _, hreport⟩

/-- The report of a round, and what the round leaves behind. -/
theorem runRound_settled
    (hzero : host.records.Has 0) (hown : host.records.Has own) (hne : own ≠ 0)
    (hempty : host.records.diagnostics own = []) {fates : ResourceName → ResourceFate}
    (hfiler : filer.DecidedBy fates) {report : RoundReport} {session : Session}
    {after : HostState σ}
    (hrun : (settled own rounds).runRound filer now round host = (.ok report, session, after)) :
    report.IsReportOf filer round (rounds + 1) ∧ session = settled own (rounds + 1) ∧
      (round.isOver = true → after.resources = host.resources) ∧
      (∀ number, after.records.Has number ↔ host.records.Has number) ∧
      after.records.diagnostics 0 = host.records.diagnostics 0 ++ report.diagnostics ∧
      after.records.diagnostics own = [] ∧
      ∀ number, number ≠ 0 → number ≠ own →
        after.records.diagnostics number = host.records.diagnostics number := by
  rcases hprocess : processRound filer now .standard
      ((settled own rounds).presentAnnotations round) round host.resources with
    ⟨⟨unknown | outcome, events⟩, last⟩
  · have herror := runRound_of_processRound_error rfl rfl hprocess
    rw [hrun] at herror
    cases herror
  obtain ⟨records, log, hreport, hhas, hhost, hself, hothers⟩ :=
    runRound_of_ok hzero hown hne hempty hprocess
  rw [hrun] at hreport
  obtain ⟨rfl, rfl, rfl⟩ : report = _ ∧ session = _ ∧ after = _ := by simpa using hreport
  rw [presentAnnotations_of_standard rfl] at hprocess ⊢
  by_cases hover : round.isOver = true
  · rw [if_pos hover, processRound_nil] at hprocess
    obtain ⟨⟨rfl, rfl⟩, rfl⟩ : ((⟨[], []⟩ : RoundOutcome) = outcome ∧ [] = events) ∧
        host.resources = last := by simpa using hprocess
    refine ⟨⟨rfl, fun _ => ⟨if_pos hover, rfl, rfl⟩, fun hnot => ?_, fun hnot => ?_⟩, rfl,
      fun _ => rfl, hhas, hhost, hself, hothers⟩
    · rw [hover] at hnot
      cases hnot
    · rw [hover] at hnot
      cases hnot
  · rw [if_neg hover, Round.markerAnnotations, processRound_filter_present] at hprocess
    refine ⟨⟨rfl, fun h => absurd h hover, fun _ => if_neg hover, fun _ otherNow state => ?_⟩, rfl,
      fun h => absurd h hover, hhas, hhost, hself, hothers⟩
    have hsame := processRound_fst_eq hfiler otherNow now .standard
      MarkerRegistry.standardIdentifiers round state host.resources
    rw [hprocess] at hsame
    refine ⟨outcome, events, (processRound filer otherNow .standard
      MarkerRegistry.standardIdentifiers round state).2, ?_, rfl, rfl⟩
    exact Prod.ext hsame rfl

end Session

end Rounds

end ComponentMarkers
