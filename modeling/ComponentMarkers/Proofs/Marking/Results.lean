import ComponentMarkers.Proofs.Filer.Fates
import ComponentMarkers.Proofs.Marking.Collection
import ComponentMarkers.Proofs.Marking.Resolution
import ComponentMarkers.Proofs.Marking.Steps

/-!
# Results of the round function

A round function that fails fails while it collects, before the first class is marked: the filer is
never asked for anything then.  When it succeeds, the artifacts are the identities of some of the
collected classes, each class once and in the order of collection.

Nothing here asks anything of the element table or of the filer.
-/

namespace ComponentMarkers

variable {σ ω : Type} {filer : Filer σ ω} {now : Timestamp}

theorem exists_marksClass_of_knowsChain
    (filer : Filer σ ω) (now : Timestamp) {table : ElementTable} {id : ElementId}
    (hid : table.KnowsChain id) (state : σ) :
    ∃ result last, MarksClass filer now table id state result last := by
  rcases hidentity : resolveIdentity table id with (unknown | error) | identity
  · exact absurd hidentity (resolveIdentity_ne_unknown hid unknown)
  · exact ⟨_, _, .unresolved hidentity⟩
  · rcases hwrite : filer.writeResource identity.resource (some id)
      (Text.encode (provenance now)) state with ⟨error | ⟨⟩, last⟩
    · exact ⟨_, _, .unwritten hidentity hwrite⟩
    · exact ⟨_, _, .marked hidentity hwrite⟩

/-- Classes whose chains are known can all be dealt with. -/
theorem exists_marksAll_of_knowsChain
    (filer : Filer σ ω) (now : Timestamp) {table : ElementTable} {ids : List ElementId}
    (hids : ∀ id ∈ ids, table.KnowsChain id) (state : σ) :
    ∃ results last, MarksAll filer now table ids state results last := by
  induction ids generalizing state with
  | nil => exact ⟨[], state, .nil state⟩
  | cons id rest ih =>
      obtain ⟨hid, hrest⟩ := List.forall_mem_cons.1 hids
      obtain ⟨result, middle, hfirst⟩ := exists_marksClass_of_knowsChain filer now hid state
      obtain ⟨results, last, hmarks⟩ := ih hrest middle
      exact ⟨result :: results, last, .cons hfirst hmarks⟩

variable {registry : MarkerRegistry} {annotations : List String} {round : Round} {state : σ}

theorem exists_processRound_of_discover
    (filer : Filer σ ω) (now : Timestamp) (state : σ) {classes : OrderedSet ElementId}
    {collected : List LogEvent}
    (hdiscover : discover registry annotations round = (.ok classes, collected)) :
    ∃ outcome events last,
      processRound filer now registry annotations round state = ((.ok outcome, events), last) := by
  obtain ⟨results, last, hmarks⟩ := exists_marksAll_of_knowsChain filer now
    (fun id hid => knowsChain_of_mem_discover hdiscover hid) state
  exact ⟨_, _, last,
    processRound_eq_ok_iff.2 ⟨classes, collected, results, hdiscover, hmarks, rfl, rfl⟩⟩

/-- A round that fails fails while it collects, and has not touched the filer. -/
theorem processRound_eq_error_iff
    {unknown : UnknownElement} {events : List LogEvent} {last : σ} :
    processRound filer now registry annotations round state = ((.error unknown, events), last) ↔
      discover registry annotations round = (.error unknown, events) ∧ last = state := by
  constructor
  · intro h
    rcases hdiscover : discover registry annotations round with ⟨other | classes, collected⟩
    · rw [processRound, hdiscover] at h
      cases h
      exact ⟨rfl, rfl⟩
    · obtain ⟨outcome, seen, reached, hok⟩ :=
        exists_processRound_of_discover filer now state hdiscover
      rw [hok] at h
      cases h
  · rintro ⟨hdiscover, rfl⟩
    rw [processRound, hdiscover]

theorem MarksClass.resolveIdentity_eq
    {table : ElementTable} {id : ElementId} {last : σ} {result : MarkResult}
    (h : MarksClass filer now table id state result last) {identity : ArtifactIdentity}
    (hartifact : result.artifact? = some identity) : resolveIdentity table id = .ok identity := by
  cases h with
  | unresolved => cases hartifact
  | unwritten => cases hartifact
  | marked hidentity => rw [hidentity, Option.some.inj hartifact]

theorem MarksAll.exists_sublist
    {table : ElementTable} {ids : List ElementId} {last : σ} {results : List MarkResult}
    (h : MarksAll filer now table ids state results last) :
    ∃ marked, marked.Sublist ids ∧
      List.Forall₂ (fun id identity => resolveIdentity table id = .ok identity) marked
        (results.filterMap MarkResult.artifact?) := by
  induction h with
  | nil => exact ⟨[], .slnil, .nil⟩
  | @cons id rest state middle last result results hfirst _ ih =>
      obtain ⟨marked, hsublist, hall⟩ := ih
      rw [List.filterMap_cons]
      cases hartifact : result.artifact? with
      | none => exact ⟨marked, hsublist.cons id, hall⟩
      | some identity =>
          exact ⟨id :: marked, hsublist.cons_cons id,
            .cons (hfirst.resolveIdentity_eq hartifact) hall⟩

/-- Behind the artifacts of a round there are classes that it collects, each of them once. -/
theorem exists_sublist_of_processRound
    {outcome : RoundOutcome} {events : List LogEvent} {last : σ}
    (hrun : processRound filer now registry annotations round state =
      ((.ok outcome, events), last)) :
    ∃ classes collected marked,
      discover registry annotations round = (.ok classes, collected) ∧
      marked.Sublist classes.toList ∧
      List.Forall₂ (fun id identity => resolveIdentity round.table id = .ok identity) marked
        outcome.artifacts := by
  obtain ⟨classes, collected, results, hdiscover, hmarks, rfl, -⟩ := processRound_eq_ok_iff.1 hrun
  obtain ⟨marked, hsublist, hall⟩ := hmarks.exists_sublist
  exact ⟨classes, collected, marked, hdiscover, hsublist, hall⟩

/-- What becomes of a class is decided by whether the marker of its identity is blocked. -/
inductive MarkResult.IsDecidedBy (table : ElementTable) (blocked : ArtifactIdentity → Prop)
    (id : ElementId) : MarkResult → Prop where
  | unresolved {error : StructuralError}
      (hidentity : resolveIdentity table id = .error (.structural error)) :
      IsDecidedBy table blocked id (.unresolved id error)
  | marked {identity : ArtifactIdentity} (hidentity : resolveIdentity table id = .ok identity)
      (hfree : ¬ blocked identity) : IsDecidedBy table blocked id (.marked identity)
  | unwritten {identity : ArtifactIdentity} (hidentity : resolveIdentity table id = .ok identity)
      (hblocked : blocked identity) (error : IoError) :
      IsDecidedBy table blocked id
        (.unwritten (((table.get? id).map Element.qualifiedName).getD "") error)

theorem MarkResult.IsDecidedBy.congr
    {table : ElementTable} {blocked other : ArtifactIdentity → Prop} {id : ElementId}
    {result : MarkResult} (h : result.IsDecidedBy table blocked id)
    (hiff : ∀ identity, blocked identity ↔ other identity) : result.IsDecidedBy table other id := by
  cases h with
  | unresolved hidentity => exact .unresolved hidentity
  | marked hidentity hfree => exact .marked hidentity (mt (hiff _).2 hfree)
  | unwritten hidentity hblocked error => exact .unwritten hidentity ((hiff _).1 hblocked) error

/-- The classes that are marked are those with an identity whose marker is not blocked. -/
theorem filterMap_artifact?_of_isDecidedBy
    {table : ElementTable} {blocked : ArtifactIdentity → Prop} [DecidablePred blocked]
    {ids : List ElementId} {results : List MarkResult}
    (h : List.Forall₂ (fun id result => result.IsDecidedBy table blocked id) ids results) :
    results.filterMap MarkResult.artifact? = ids.filterMap fun id =>
      (resolveIdentity table id).toOption.filter fun identity => ¬ blocked identity := by
  induction h with
  | nil => rfl
  | cons hresult _ ih =>
      rw [List.filterMap_cons, List.filterMap_cons, ih]
      cases hresult with
      | unresolved hidentity => rw [hidentity]; rfl
      | @marked identity hidentity hfree =>
          have hkept : (some identity).filter (fun identity => ¬ blocked identity) =
              some identity := by
            rw [Option.filter_some, if_pos (by simpa using hfree)]
          rw [hidentity, Except.toOption, hkept]
          rfl
      | @unwritten identity hidentity hblocked error =>
          have hdropped : (some identity).filter (fun identity => ¬ blocked identity) = none := by
            rw [Option.filter_some, if_neg (by simpa using hblocked)]
          rw [hidentity, Except.toOption, hdropped]
          rfl

theorem mem_artifacts_iff_of_isDecidedBy
    {table : ElementTable} {blocked : ArtifactIdentity → Prop} {ids : List ElementId}
    {results : List MarkResult}
    (h : List.Forall₂ (fun id result => result.IsDecidedBy table blocked id) ids results)
    (identity : ArtifactIdentity) :
    identity ∈ results.filterMap MarkResult.artifact? ↔
      ∃ id ∈ ids, resolveIdentity table id = .ok identity ∧ ¬ blocked identity := by
  classical
  rw [filterMap_artifact?_of_isDecidedBy h, List.mem_filterMap]
  refine exists_congr fun id => and_congr_right fun _ => ?_
  cases resolveIdentity table id <;> simp [Except.toOption, Option.filter_eq_some_iff]

/-- Classes that are decided alike, nothing of theirs being blocked, have the same results. -/
theorem eq_of_isDecidedBy_of_free
    {table : ElementTable} {blocked other : ArtifactIdentity → Prop} {ids : List ElementId}
    {results others : List MarkResult}
    (h : List.Forall₂ (fun id result => result.IsDecidedBy table blocked id) ids results)
    (hother : List.Forall₂ (fun id result => result.IsDecidedBy table other id) ids others)
    (hfree : ∀ id ∈ ids, ∀ identity, resolveIdentity table id = .ok identity →
      ¬ blocked identity ∧ ¬ other identity) :
    results = others := by
  induction h generalizing others with
  | nil =>
      cases hother
      rfl
  | @cons id result rest results hresult _ ih =>
      cases hother with
      | @cons _ otherResult _ others hotherResult hothers =>
          obtain ⟨hid, hrest⟩ := List.forall_mem_cons.1 hfree
          rw [ih hothers hrest]
          congr 1
          cases hresult with
          | unresolved hidentity =>
              cases hotherResult with
              | unresolved hsame =>
                  rw [hidentity] at hsame
                  cases hsame
                  rfl
              | marked hsame => rw [hidentity] at hsame; cases hsame
              | unwritten hsame => rw [hidentity] at hsame; cases hsame
          | marked hidentity _ =>
              cases hotherResult with
              | unresolved hsame => rw [hidentity] at hsame; cases hsame
              | marked hsame =>
                  rw [hidentity] at hsame
                  cases hsame
                  rfl
              | unwritten hsame hblocked => exact absurd hblocked (hid _ hsame).2
          | unwritten hidentity hblocked error => exact absurd hblocked (hid _ hidentity).1

/-- A filer decided by names blocks what its fates do not let finish. -/
theorem MarksClass.isDecidedBy
    {fates : ResourceName → ResourceFate} (hfiler : filer.DecidedBy fates) {table : ElementTable}
    {id : ElementId} {last : σ} {result : MarkResult}
    (h : MarksClass filer now table id state result last) :
    result.IsDecidedBy table (fun identity => fates identity.resource ≠ .finished) id := by
  cases h with
  | unresolved hidentity => exact .unresolved hidentity
  | @unwritten identity error _ hidentity hwrite =>
      exact .unwritten hidentity (mt (hfiler.eq_finished_iff hwrite).1 (by simp)) error
  | marked hidentity hwrite =>
      exact .marked hidentity (not_not.2 ((hfiler.eq_finished_iff hwrite).2 rfl))

theorem MarksAll.isDecidedBy
    {fates : ResourceName → ResourceFate} (hfiler : filer.DecidedBy fates) {table : ElementTable}
    {ids : List ElementId} {last : σ} {results : List MarkResult}
    (h : MarksAll filer now table ids state results last) :
    List.Forall₂ (fun id result => result.IsDecidedBy table
      (fun identity => fates identity.resource ≠ .finished) id) ids results := by
  induction h with
  | nil => exact .nil
  | cons hfirst _ ih => exact .cons (hfirst.isDecidedBy hfiler) ih

end ComponentMarkers
