import ComponentMarkers.Proofs.Filer.Store
import ComponentMarkers.Proofs.Marking.Recorded
import ComponentMarkers.Proofs.Marking.Steps
import ComponentMarkers.Proofs.Text.Joined

/-!
# What marking leaves in a store

Marking classes adds to the class output the paths that the outcome lists and no others, and whatever
is written has the content of a marker.  `MemoryStore.Gains` says this of two stores, and it composes.
-/

namespace ComponentMarkers

/-- The text is a single line. -/
def Text.IsLine (s : String) : Prop :=
  ∀ c ∈ s.toList, c ≠ '\n' ∧ c ≠ '\r'

instance (s : String) : Decidable (Text.IsLine s) :=
  List.decidableBAll (fun c => c ≠ '\n' ∧ c ≠ '\r') s.toList

section Lines

open Text

theorem Text.isLine_append {s t : String} (hs : IsLine s) (ht : IsLine t) : IsLine (s ++ t) := by
  intro c hc
  rw [String.toList_append, List.mem_append] at hc
  exact hc.elim (hs c) (ht c)

theorem Text.isLine_intercalate
    {separator : String} {parts : List String} (hseparator : IsLine separator)
    (hparts : ∀ part ∈ parts, IsLine part) : IsLine (separator.intercalate parts) := by
  intro c hc
  rcases mem_intercalate hc with hc | ⟨part, hpart, hc⟩
  · exact hseparator c hc
  · exact hparts part hpart c hc

theorem Text.isLine_getD
    {names : List String} (hnames : ∀ name ∈ names, IsLine name) (n : Nat) :
    IsLine ((names[n]?).getD "") := by
  cases hget : names[n]? with
  | none => exact fun c hc => by cases hc
  | some name => exact hnames name (List.mem_of_getElem? hget)

theorem Timestamp.isLine_padded (width n : Nat) : IsLine (padded width n) := by
  apply isLine_append
  · intro c hc
    rw [String.toList_ofList] at hc
    rw [List.eq_of_mem_replicate hc]
    decide
  · intro c hc
    rw [Nat.toString_eq_repr, Nat.toList_repr] at hc
    have hdigit : c.isDigit := Nat.isDigit_of_mem_toDigits (by decide) (by decide) hc
    constructor
    · rintro rfl
      exact absurd hdigit (by decide)
    · rintro rfl
      exact absurd hdigit (by decide)

theorem Timestamp.isLine_text (time : Timestamp) : IsLine time.text := by
  apply isLine_intercalate (by decide)
  simp only [List.forall_mem_cons]
  refine ⟨isLine_getD (by decide) _, isLine_getD (by decide) _, isLine_padded _ _, ?_, ?_,
    isLine_padded _ _, by simp⟩
  · apply isLine_intercalate (by decide)
    simp only [List.forall_mem_cons]
    exact ⟨isLine_padded _ _, isLine_padded _ _, isLine_padded _ _, by simp⟩
  · refine isLine_append (isLine_append (isLine_append ?_ (isLine_padded _ _)) (by decide))
      (isLine_padded _ _)
    cases time.isAhead
    · decide
    · decide

/-- The content of a marker is one line. -/
theorem isLine_provenance (now : Timestamp) : IsLine (provenance now) :=
  isLine_append (by decide) now.isLine_text

end Lines

namespace MemoryStore

/-- The later store has the paths in its class output beside what the earlier one has, and whatever it
holds that the earlier one does not hold has one of the contents. -/
structure Gains (store last : MemoryStore) (paths : List Path) (contents : List (List UInt8)) :
    Prop where
  has_iff : ∀ location path, last.Has location path ↔
    (location = .classOutput ∧ ∃ written ∈ paths, written.same path) ∨ store.Has location path
  content_mem : ∀ stored ∈ last.resources, stored.content ∈ contents ∨ stored ∈ store.resources

theorem Gains.refl (store : MemoryStore) (contents : List (List UInt8)) :
    store.Gains store [] contents := by
  constructor
  · simp
  · exact fun stored hstored => Or.inr hstored

theorem Gains.trans
    {store middle last : MemoryStore} {paths morePaths : List Path}
    {contents moreContents : List (List UInt8)} (h : store.Gains middle paths contents)
    (hmore : middle.Gains last morePaths moreContents) :
    store.Gains last (paths ++ morePaths) (contents ++ moreContents) := by
  constructor
  · intro location path
    rw [hmore.has_iff, h.has_iff]
    simp only [List.mem_append, or_and_right, exists_or, and_or_left]
    rw [or_assoc, or_left_comm]
  · intro stored hstored
    rcases hmore.content_mem stored hstored with hcontent | hstored
    · exact Or.inl (List.mem_append_right _ hcontent)
    · exact (h.content_mem stored hstored).imp_left (List.mem_append_left _)

theorem Gains.weaken
    {store last : MemoryStore} {paths : List Path} {contents moreContents : List (List UInt8)}
    (h : store.Gains last paths contents) (hsubset : contents ⊆ moreContents) :
    store.Gains last paths moreContents :=
  ⟨h.has_iff, fun stored hstored => (h.content_mem stored hstored).imp_left fun hmem => hsubset hmem⟩

end MemoryStore

section Marking

variable {ω : Type} {filer : Filer MemoryStore ω} {fates : ResourceName → ResourceFate}

/-- A resource of the class output adds its path when its fate lets it finish. -/
theorem Filer.StoresBy.gains_writeResource
    (h : filer.StoresBy fates) {resource : ResourceName} (hlocation : resource.location = .classOutput)
    (origin : Option ElementId) (content : List UInt8) (store : MemoryStore) :
    store.Gains (filer.writeResource resource origin content store).2
      (if fates resource = .finished then [resource.path] else []) [content] := by
  refine ⟨fun location path => ?_, fun stored hstored => ?_⟩
  · rw [h.has_writeResource resource origin content store, hlocation]
    split_ifs with hfinished
    · simp [hfinished, eq_comm (b := location)]
    · simp [hfinished]
  · rw [List.mem_singleton]
    exact h.mem_resources_writeResource hstored

theorem MarksClass.gains
    (hfiler : filer.StoresBy fates) {now : Timestamp} {table : ElementTable} {id : ElementId}
    {store last : MemoryStore} {result : MarkResult}
    (h : MarksClass filer now table id store result last) :
    store.Gains last result.finished [Text.encode (provenance now)] := by
  have hwrite (identity : ArtifactIdentity) := hfiler.gains_writeResource
    (show identity.resource.location = .classOutput from rfl) (some id)
    (Text.encode (provenance now)) store
  cases h with
  | unresolved => exact .refl store _
  | @unwritten identity error _ _ hfailed =>
      have hgains := hwrite identity
      rwa [hfailed, if_neg (mt (hfiler.decidedBy.eq_finished_iff hfailed).1 (by simp))] at hgains
  | @marked identity _ _ hmarked =>
      have hgains := hwrite identity
      rwa [hmarked, if_pos ((hfiler.decidedBy.eq_finished_iff hmarked).2 rfl)] at hgains

/-- Marking classes adds the paths of those that were marked. -/
theorem MarksAll.gains
    (hfiler : filer.StoresBy fates) {now : Timestamp} {table : ElementTable} {ids : List ElementId}
    {store last : MemoryStore} {results : List MarkResult}
    (h : MarksAll filer now table ids store results last) :
    store.Gains last (results.flatMap MarkResult.finished) [Text.encode (provenance now)] := by
  induction h with
  | nil state => exact .refl state _
  | cons hfirst _ ih =>
      rw [List.flatMap_cons]
      exact ((hfirst.gains hfiler).trans ih).weaken (by simp)

/-- A round adds the paths that its outcome lists. -/
theorem processRound_gains
    (hfiler : filer.StoresBy fates) {now : Timestamp} {registry : MarkerRegistry}
    {annotations : List String} {round : Round} {store last : MemoryStore} {outcome : RoundOutcome}
    {events : List LogEvent}
    (hrun : processRound filer now registry annotations round store =
      ((.ok outcome, events), last)) :
    store.Gains last (outcome.artifacts.map ArtifactIdentity.relativePath)
      [Text.encode (provenance now)] := by
  obtain ⟨classes, collected, results, -, hmarks, rfl, -⟩ := processRound_eq_ok_iff.1 hrun
  rw [RoundOutcome.relativePaths_ofResults]
  exact hmarks.gains hfiler

end Marking

end ComponentMarkers
