import ComponentMarkers.Proofs.Session.Markers
import ComponentMarkers.Proofs.Source.Identities
import ComponentMarkers.Proofs.Source.Nesting

/-!
# The order of files

Units may come in any order.  The numbers of elements change, but as long as no two types have one
qualified name the rounds agree on annotated elements and superclasses, and the markers that are left
behind are the same.
-/

namespace ComponentMarkers

open Source

theorem Source.SourceRound.AreReordered.marks_of_marks
    {first second : SourceRound} {units others : List CompilationUnit}
    (h : first.AreReordered second units others) {location : Location} {path : Path}
    (hmarks : first.toRound.Marks location path) : second.toRound.Marks location path := by
  obtain ⟨identifier, hidentifier, start, hstart, id, hreach, ⟨element, hget, hkind⟩,
    identity, hidentity, hplace⟩ := hmarks
  obtain ⟨otherStart, hotherStart, other, hotherReach, hclass, hsame⟩ :=
    h.exists_annotated_within hstart hreach hget hkind
  exact ⟨identifier, hidentifier, otherStart, hotherStart, other, hotherReach, hclass, identity,
    hsame.trans hidentity, hplace⟩

/-- In fresh sessions over empty stores both rounds have a report, and then the stores have resources
at the same places. -/
def Round.LeavesMarkersOf (first second : Round) : Prop :=
  ∀ (messager otherMessager : Messager) (records otherRecords : Records)
    (log otherLog : List LogEvent) (now otherNow : Timestamp),
    ∃ session host report ended after otherSession otherHost otherReport otherEnded otherAfter,
      Session.start .new messager ⟨MemoryStore.empty, records, log⟩ = (session, host) ∧
      session.runRound memoryFiler now first host = (.ok report, ended, after) ∧
      Session.start .new otherMessager ⟨MemoryStore.empty, otherRecords, otherLog⟩ =
        (otherSession, otherHost) ∧
      otherSession.runRound memoryFiler otherNow second otherHost =
        (.ok otherReport, otherEnded, otherAfter) ∧
      ∀ location path, after.resources.Has location path ↔
        otherAfter.resources.Has location path

/-- The rounds of units in two orders agree, and they leave the same markers. -/
theorem ofUnits_agreesWith_of_perm
    {units others : List CompilationUnit} (hperm : units.Perm others)
    (hdistinct : HaveDistinctTypes units)
    (hsize : (SourceRound.ofUnits units).elements.size < ElementId.count) :
    (SourceRound.ofUnits units).AgreesWith (SourceRound.ofUnits others) ∧
      (SourceRound.ofUnits units).toRound.LeavesMarkersOf (SourceRound.ofUnits others).toRound := by
  have hreordered := SourceRound.AreReordered.of_perm hperm hdistinct hsize
  have hloaded := SourceRound.isLoaded_ofUnits units
  have hotherLoaded := SourceRound.isLoaded_ofUnits others
  refine ⟨hreordered.agreesWith, ?_⟩
  intro messager otherMessager records otherRecords log otherLog now otherNow
  obtain ⟨session, host, report, ended, after, hstart, hrun, hhas⟩ :=
    Session.exists_runRound_has_iff hloaded.isClosed hloaded.isOver_eq messager records log
      now
  obtain ⟨otherSession, otherHost, otherReport, otherEnded, otherAfter, hotherStart, hotherRun,
      hotherHas⟩ :=
    Session.exists_runRound_has_iff hotherLoaded.isClosed
      hotherLoaded.isOver_eq otherMessager otherRecords otherLog otherNow
  refine ⟨session, host, report, ended, after, otherSession, otherHost, otherReport, otherEnded,
    otherAfter, hstart, hrun, hotherStart, hotherRun, ?_⟩
  intro location path
  rw [hhas, hotherHas]
  exact ⟨hreordered.marks_of_marks, hreordered.symm.marks_of_marks⟩

/-- A class that extends one of another file, which stands in a scope. -/
def basketUnits : List CompilationUnit :=
  [{ path := none
     package := some "shop"
     packageAnnotations := []
     imports := []
     types := [⟨.classType, "Basket", [], some "Cart", []⟩] },
   { path := none
     package := some "shop"
     packageAnnotations := []
     imports := []
     types := [⟨.classType, "Cart", ["javax.enterprise.context.SessionScoped"], none, []⟩] }]

/-- The subclass is marked also when its superclass comes later. -/
example :
    (processRound memoryFiler ⟨2026, 1, 1, 0, 0, 0, true, 0, 0⟩ .standard
      MarkerRegistry.standardIdentifiers (SourceRound.ofUnits basketUnits).toRound .empty).1.1 =
        .ok ⟨[⟨"shop", "Basket"⟩, ⟨"shop", "Cart"⟩], []⟩ := by
  decide +kernel

theorem ofUnits_agreesWith_reversed_basketUnits :
    basketUnits.Perm basketUnits.reverse ∧ HaveDistinctTypes basketUnits ∧
      (SourceRound.ofUnits basketUnits).elements.size < ElementId.count ∧
      (SourceRound.ofUnits basketUnits).AgreesWith (SourceRound.ofUnits basketUnits.reverse) ∧
      (SourceRound.ofUnits basketUnits).toRound.LeavesMarkersOf
        (SourceRound.ofUnits basketUnits.reverse).toRound := by
  have hperm : basketUnits.Perm basketUnits.reverse := (List.reverse_perm _).symm
  have hdistinct : HaveDistinctTypes basketUnits := by
    decide +kernel
  have hsize : (SourceRound.ofUnits basketUnits).elements.size < ElementId.count := by
    decide +kernel
  exact ⟨hperm, hdistinct, hsize, ofUnits_agreesWith_of_perm hperm hdistinct hsize⟩

end ComponentMarkers
