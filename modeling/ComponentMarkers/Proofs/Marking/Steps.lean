import ComponentMarkers.Marking.Outcome

/-!
# The steps of a round

One class is marked in one of three ways, classes are marked one after the other, and a round marks the
classes that it collects.  What is proved about marking is proved by these steps.
-/

namespace ComponentMarkers

variable {σ ω : Type}

/-- What marking a class comes to: it has no identity, its marker is not written, or it is. -/
inductive MarksClass (filer : Filer σ ω) (now : Timestamp) (table : ElementTable) (id : ElementId)
    (state : σ) : MarkResult → σ → Prop where
  | unresolved {error : StructuralError}
      (hidentity : resolveIdentity table id = .error (.structural error)) :
      MarksClass filer now table id state (.unresolved id error) state
  | unwritten {identity : ArtifactIdentity} {error : IoError} {last : σ}
      (hidentity : resolveIdentity table id = .ok identity)
      (hwrite : filer.writeResource identity.resource (some id) (Text.encode (provenance now)) state =
        (.error error, last)) :
      MarksClass filer now table id state
        (.unwritten (((table.get? id).map Element.qualifiedName).getD "") error) last
  | marked {identity : ArtifactIdentity} {last : σ}
      (hidentity : resolveIdentity table id = .ok identity)
      (hwrite : filer.writeResource identity.resource (some id) (Text.encode (provenance now)) state =
        (.ok (), last)) :
      MarksClass filer now table id state (.marked identity) last

/-- What marking classes one after the other comes to. -/
inductive MarksAll (filer : Filer σ ω) (now : Timestamp) (table : ElementTable) :
    List ElementId → σ → List MarkResult → σ → Prop where
  | nil (state : σ) : MarksAll filer now table [] state [] state
  | cons {id : ElementId} {rest : List ElementId} {state middle last : σ} {result : MarkResult}
      {results : List MarkResult} (hfirst : MarksClass filer now table id state result middle)
      (hrest : MarksAll filer now table rest middle results last) :
      MarksAll filer now table (id :: rest) state (result :: results) last

variable {filer : Filer σ ω} {now : Timestamp} {table : ElementTable} {state last : σ}

theorem markClass_eq_ok_iff {id : ElementId} {result : MarkResult} :
    markClass filer now table id state = (.ok result, last) ↔
      MarksClass filer now table id state result last := by
  constructor
  · intro h
    rw [markClass] at h
    rcases hidentity : resolveIdentity table id with (unknown | error) | identity
    · simp [hidentity] at h
    · rw [hidentity] at h
      cases h
      exact .unresolved hidentity
    · rw [hidentity] at h
      dsimp only at h
      split at h
      · cases h
        exact .marked hidentity ‹_›
      · cases h
        exact .unwritten hidentity ‹_›
  · intro h
    cases h with
    | unresolved hidentity => rw [markClass, hidentity]
    | unwritten hidentity hwrite =>
        rw [markClass, hidentity]
        dsimp only
        rw [hwrite]
    | marked hidentity hwrite =>
        rw [markClass, hidentity]
        dsimp only
        rw [hwrite]

theorem markAll_eq_ok_iff {ids : List ElementId} {results : List MarkResult} :
    markAll filer now table ids state = (.ok results, last) ↔
      MarksAll filer now table ids state results last := by
  constructor
  · intro h
    induction ids generalizing state results with
    | nil =>
        rw [markAll] at h
        cases h
        exact .nil _
    | cons id rest ih =>
        rw [markAll] at h
        rcases hmark : markClass filer now table id state with ⟨unknown | result, middle⟩
        · simp [hmark] at h
        · rw [hmark] at h
          dsimp only at h
          rcases hrest : markAll filer now table rest middle with ⟨unknown | others, reached⟩
          · simp [hrest] at h
          · rw [hrest] at h
            cases h
            exact .cons (markClass_eq_ok_iff.1 hmark) (ih hrest)
  · intro h
    induction h with
    | nil => rfl
    | cons hfirst _ ih =>
        rw [markAll, markClass_eq_ok_iff.2 hfirst]
        dsimp only
        rw [ih]

/-- What a round that succeeds has done. -/
theorem processRound_eq_ok_iff
    {registry : MarkerRegistry} {annotations : List String} {round : Round}
    {outcome : RoundOutcome} {events : List LogEvent} :
    processRound filer now registry annotations round state = ((.ok outcome, events), last) ↔
      ∃ classes collected results,
        discover registry annotations round = (.ok classes, collected) ∧
        MarksAll filer now round.table classes.toList state results last ∧
        outcome = .ofResults results ∧
        events = collected ++ results.filterMap MarkResult.event? := by
  constructor
  · intro h
    rw [processRound] at h
    rcases hdiscover : discover registry annotations round with ⟨unknown | classes, collected⟩
    · simp [hdiscover] at h
    · rw [hdiscover] at h
      dsimp only at h
      rcases hmarks : markAll filer now round.table classes.toList state with
        ⟨unknown | results, reached⟩
      · simp [hmarks] at h
      · rw [hmarks] at h
        cases h
        exact ⟨classes, collected, results, rfl, markAll_eq_ok_iff.1 hmarks, rfl, rfl⟩
  · rintro ⟨classes, collected, results, hdiscover, hmarks, rfl, rfl⟩
    rw [processRound, hdiscover]
    dsimp only
    rw [markAll_eq_ok_iff.2 hmarks]

end ComponentMarkers
