import ComponentMarkers.Proofs.Marking.Results

/-!
# Rounds behind a record

A round that is processed through a recording filer has the result it has without the record, and
leaves the filer behind the record in the same state.  What the record gains are the paths of the
markers that the outcome lists, in the same order: a resource is finished exactly when its class is
marked.

Nothing here asks anything of the element table.
-/

namespace ComponentMarkers

variable {σ ω : Type}

/-- The paths that the marking of one class adds to a record. -/
def MarkResult.finished (result : MarkResult) : List Path :=
  (result.artifact?.map ArtifactIdentity.relativePath).toList

theorem RoundOutcome.relativePaths_ofResults (results : List MarkResult) :
    (RoundOutcome.ofResults results).artifacts.map ArtifactIdentity.relativePath =
      results.flatMap MarkResult.finished := by
  induction results with
  | nil => rfl
  | cons result rest ih =>
      rw [List.flatMap_cons, ← ih]
      cases result <;> rfl

theorem MarksClass.recorded
    {filer : Filer σ ω} {now : Timestamp} {table : ElementTable} {id : ElementId}
    {recorded : Recorded σ} {result : MarkResult} {last : σ}
    (h : MarksClass filer now table id recorded.state result last) :
    MarksClass (recordingFiler filer) now table id recorded result
      ⟨last, recorded.written ++ result.finished⟩ := by
  have hrecord (identity : ArtifactIdentity) := Filer.writeResource_recordingFiler filer
    identity.resource (some id) (Text.encode (provenance now)) recorded
  cases h with
  | @unresolved error hidentity =>
      have hsame : recorded.written ++ (MarkResult.unresolved id error).finished =
          recorded.written := List.append_nil _
      rw [hsame]
      exact .unresolved hidentity
  | @unwritten identity _ _ hidentity hwrite =>
      refine .unwritten hidentity ?_
      rw [hrecord, if_neg (mt (Filer.fate_eq_finished_iff hwrite).1 (by simp)), hwrite]
      rfl
  | @marked identity _ hidentity hwrite =>
      refine .marked hidentity ?_
      rw [hrecord, if_pos ((Filer.fate_eq_finished_iff hwrite).2 rfl), hwrite]
      rfl

/-- The record grows class by class. -/
theorem MarksAll.recorded
    {filer : Filer σ ω} {now : Timestamp} {table : ElementTable} {ids : List ElementId}
    {state last : σ} {results : List MarkResult}
    (h : MarksAll filer now table ids state results last) (written : List Path) :
    MarksAll (recordingFiler filer) now table ids ⟨state, written⟩ results
      ⟨last, written ++ results.flatMap MarkResult.finished⟩ := by
  induction h generalizing written with
  | nil state =>
      rw [List.flatMap_nil, List.append_nil]
      exact .nil _
  | cons hfirst _ ih =>
      rw [List.flatMap_cons, ← List.append_assoc]
      exact .cons hfirst.recorded (ih _)

/-- What the record of a round lists is what the outcome of the round lists. -/
theorem processRound_recordingFiler
    {filer : Filer σ ω} {now : Timestamp} {registry : MarkerRegistry} {annotations : List String}
    {round : Round} {recorded : Recorded σ} {outcome : RoundOutcome} {events : List LogEvent}
    {last : σ}
    (hrun : processRound filer now registry annotations round recorded.state =
      ((.ok outcome, events), last)) :
    processRound (recordingFiler filer) now registry annotations round recorded =
      ((.ok outcome, events),
        ⟨last,
          recorded.written ++ outcome.artifacts.map ArtifactIdentity.relativePath⟩) := by
  obtain ⟨classes, collected, results, hdiscover, hmarks, rfl, rfl⟩ := processRound_eq_ok_iff.1 hrun
  rw [RoundOutcome.relativePaths_ofResults]
  exact processRound_eq_ok_iff.2
    ⟨classes, collected, results, hdiscover, hmarks.recorded recorded.written, rfl, rfl⟩

/-- A record does not make a round fail that succeeds without it, nor the other way round. -/
theorem processRound_recordingFiler_error
    {filer : Filer σ ω} {now : Timestamp} {registry : MarkerRegistry} {annotations : List String}
    {round : Round} {recorded : Recorded σ} {unknown : UnknownElement} {events : List LogEvent}
    {last : σ}
    (hrun : processRound filer now registry annotations round recorded.state =
      ((.error unknown, events), last)) :
    processRound (recordingFiler filer) now registry annotations round recorded =
      ((.error unknown, events), recorded) :=
  processRound_eq_error_iff.2 ⟨(processRound_eq_error_iff.1 hrun).1, rfl⟩

section Decided

variable {filer : Filer σ ω} {fates : ResourceName → ResourceFate}

theorem markClass_fst_eq
    (hfiler : filer.DecidedBy fates) (now otherNow : Timestamp) (table : ElementTable)
    (id : ElementId) (state otherState : σ) :
    (markClass filer now table id state).1 = (markClass filer otherNow table id otherState).1 := by
  rw [markClass, markClass]
  rcases hidentity : resolveIdentity table id with (unknown | error) | identity
  · rfl
  · rfl
  · dsimp only
    have hfirst := hfiler.writeResource_fst identity.resource (some id)
      (Text.encode (provenance now)) state
    have hsecond := hfiler.writeResource_fst identity.resource (some id)
      (Text.encode (provenance otherNow)) otherState
    rcases hwrite : filer.writeResource identity.resource (some id)
      (Text.encode (provenance now)) state with ⟨error | _, last⟩
    · rw [hwrite] at hfirst
      rcases hother : filer.writeResource identity.resource (some id)
        (Text.encode (provenance otherNow)) otherState with ⟨otherError | _, otherLast⟩
      · rw [hother] at hsecond
        obtain rfl := Except.error.inj (hfirst.trans hsecond.symm)
        rfl
      · rw [hother] at hsecond
        cases hfirst.trans hsecond.symm
    · rw [hwrite] at hfirst
      rcases hother : filer.writeResource identity.resource (some id)
        (Text.encode (provenance otherNow)) otherState with ⟨otherError | _, otherLast⟩
      · rw [hother] at hsecond
        cases hfirst.trans hsecond.symm
      · rfl

theorem markAll_fst_eq
    (hfiler : filer.DecidedBy fates) (now otherNow : Timestamp) (table : ElementTable)
    (ids : List ElementId) (state otherState : σ) :
    (markAll filer now table ids state).1 = (markAll filer otherNow table ids otherState).1 := by
  induction ids generalizing state otherState with
  | nil => rfl
  | cons id rest ih =>
      have hmark := markClass_fst_eq hfiler now otherNow table id state otherState
      rw [markAll, markAll]
      rcases hfirst : markClass filer now table id state with ⟨result, last⟩
      rcases hsecond : markClass filer otherNow table id otherState with ⟨other, otherLast⟩
      rw [hfirst, hsecond] at hmark
      dsimp only at hmark
      obtain rfl := hmark
      cases result with
      | error unknown => rfl
      | ok result =>
          have hmarks := ih last otherLast
          dsimp only
          rcases hrest : markAll filer now table rest last with ⟨results, end'⟩
          rcases hotherRest : markAll filer otherNow table rest otherLast with ⟨others, otherEnd⟩
          rw [hrest, hotherRest] at hmarks
          dsimp only at hmarks
          obtain rfl := hmarks
          cases results <;> rfl

/-- When names decide, neither the clock nor what was written before has a say in the outcome. -/
theorem processRound_fst_eq
    (hfiler : filer.DecidedBy fates) (now otherNow : Timestamp) (registry : MarkerRegistry)
    (annotations : List String) (round : Round) (state otherState : σ) :
    (processRound filer now registry annotations round state).1 =
      (processRound filer otherNow registry annotations round otherState).1 := by
  rw [processRound, processRound]
  rcases hdiscover : discover registry annotations round with ⟨unknown | classes, collected⟩
  · rfl
  · have hmarks := markAll_fst_eq hfiler now otherNow round.table classes.toList state otherState
    dsimp only
    rcases hfirst : markAll filer now round.table classes.toList state with ⟨results, last⟩
    rcases hsecond : markAll filer otherNow round.table classes.toList otherState with
      ⟨others, otherLast⟩
    rw [hfirst, hsecond] at hmarks
    dsimp only at hmarks
    obtain rfl := hmarks
    cases results <;> rfl

end Decided

end ComponentMarkers
