import ComponentMarkers.Marking.Collect
import ComponentMarkers.Proofs.Marking.Chains

/-!
# What a collection finds

On a round that only hands out numbers of its own table, collecting never fails.  The classes it finds
are those that are reached from an annotated element, and annotations that no element carries do not
count.
-/

namespace ComponentMarkers

/-- The numbers that a round hands out belong to its table. -/
structure Round.IsClosed (round : Round) : Prop where
  table : round.table.IsClosed
  annotated : ∀ identifier, ∀ id ∈ round.annotated identifier, (round.table.get? id).isSome

namespace OrderedSet

variable {α : Type} [DecidableEq α]

theorem insertAll_insertAll (set : OrderedSet α) (first second : List α) :
    (set.insertAll first).insertAll second = set.insertAll (first ++ second) := by
  rw [insertAll, insertAll, insertAll, List.foldl_append]

end OrderedSet

theorem EnclosingChain.mem_classes_iff (chain : EnclosingChain) (id : ElementId) :
    id ∈ chain.classes ↔ ∃ element, (id, element) ∈ chain.links ∧ element.kind = .classType := by
  simp only [classes, List.mem_map, List.mem_filter, ElementKind.isClass, decide_eq_true_eq]
  constructor
  · rintro ⟨⟨other, element⟩, ⟨hlink, hkind⟩, rfl⟩
    exact ⟨element, hlink, hkind⟩
  · rintro ⟨element, hlink, hkind⟩
    exact ⟨(id, element), ⟨hlink, hkind⟩, rfl⟩

/-- Collecting succeeds when no chain runs into an unknown element, and then it enters the classes of
all chains in turn. -/
theorem collectInto_eq_ok_iff
    (table : ElementTable) (ids : List ElementId) (classes : OrderedSet ElementId)
    (log : List LogEvent) (found : OrderedSet ElementId) :
    (collectInto table classes log ids).1 = .ok found ↔
      (∀ id ∈ ids, table.KnowsChain id) ∧
        found = classes.insertAll (ids.flatMap fun id => (table.enclosingChain id).classes) := by
  induction ids generalizing classes log with
  | nil =>
      rw [collectInto, Except.ok.injEq]
      simp [OrderedSet.insertAll, eq_comm]
  | cons id rest ih =>
      rw [List.flatMap_cons, ← OrderedSet.insertAll_insertAll, List.forall_mem_cons, collectInto]
      split
      · rename_i hending
        have hknows : table.KnowsChain id := fun other => by rw [hending]; simp
        rw [ih, and_iff_right hknows]
      · rename_i back hending
        have hknows : table.KnowsChain id := fun other => by rw [hending]; simp
        rw [ih, and_iff_right hknows]
      · rename_i unknown hending
        constructor
        · intro herror
          cases herror
        · rintro ⟨⟨hknows, -⟩, -⟩
          exact absurd hending (hknows unknown)

/-- The classes that some elements are written in. -/
theorem mem_of_collectClasses
    {table : ElementTable} {ids : List ElementId} {classes : OrderedSet ElementId}
    (h : (collectClasses table ids).1 = .ok classes) (id : ElementId) :
    id ∈ classes.toList ↔ ∃ start ∈ ids, table.Reaches start id ∧
      ∃ element, table.get? id = some element ∧ element.kind = .classType := by
  obtain ⟨hknows, rfl⟩ := (collectInto_eq_ok_iff table ids .empty [] classes).1 h
  rw [OrderedSet.mem_insertAll]
  simp only [OrderedSet.empty, List.not_mem_nil, false_or, List.mem_flatMap,
    EnclosingChain.mem_classes_iff]
  constructor
  · rintro ⟨start, hstart, element, hlink, hkind⟩
    obtain ⟨hreach, hget⟩ := ((hknows start hstart).mem_links_iff id element).1 hlink
    exact ⟨start, hstart, hreach, element, hget, hkind⟩
  · rintro ⟨start, hstart, hreach, element, hget, hkind⟩
    exact ⟨start, hstart, element,
      ((hknows start hstart).mem_links_iff id element).2 ⟨hreach, hget⟩, hkind⟩

/-- What a successful collection finds has a chain without unknown elements. -/
theorem knowsChain_of_mem_discover
    {registry : MarkerRegistry} {annotations : List String} {round : Round}
    {classes : OrderedSet ElementId} {events : List LogEvent}
    (h : discover registry annotations round = (.ok classes, events)) {id : ElementId}
    (hid : id ∈ classes.toList) : round.table.KnowsChain id := by
  have hok := congrArg Prod.fst h
  obtain ⟨hknows, -⟩ := (collectInto_eq_ok_iff round.table _ .empty [] classes).1 hok
  obtain ⟨start, hstart, hreach, -⟩ := (mem_of_collectClasses hok id).1 hid
  exact (hknows start hstart).of_reaches hreach

/-- The classes that the given annotations mark in a round. -/
theorem discover_of_isClosed
    {round : Round} (hround : round.IsClosed) (registry : MarkerRegistry)
    (annotations : List String) :
    ∃ classes events, discover registry annotations round = (.ok classes, events) ∧
      ∀ id, id ∈ classes.toList ↔
        ∃ identifier ∈ annotations, registry.contains identifier ∧
          ∃ start ∈ round.annotated identifier, round.table.Reaches start id ∧
            ∃ element, round.table.get? id = some element ∧ element.kind = .classType := by
  have hids : ∀ id ∈ (annotations.filter registry.contains).flatMap round.annotated,
      (round.table.get? id).isSome := by
    intro id hid
    obtain ⟨identifier, -, hannotated⟩ := List.mem_flatMap.1 hid
    exact hround.annotated identifier id hannotated
  have hclasses := (collectInto_eq_ok_iff round.table _ .empty [] _).2
    ⟨fun id hid => ElementTable.knowsChain_of_isClosed hround.table (hids id hid), rfl⟩
  refine ⟨_, _, Prod.ext hclasses rfl, ?_⟩
  intro id
  rw [mem_of_collectClasses hclasses]
  simp only [List.mem_flatMap, List.mem_filter]
  constructor
  · rintro ⟨start, ⟨identifier, ⟨hidentifier, hregistered⟩, hstart⟩, hfound⟩
    exact ⟨identifier, hidentifier, hregistered, start, hstart, hfound⟩
  · rintro ⟨identifier, hidentifier, hregistered, start, hstart, hfound⟩
    exact ⟨start, ⟨identifier, ⟨hidentifier, hregistered⟩, hstart⟩, hfound⟩

/-- Leaving out annotations that no element carries changes nothing, not even the log. -/
theorem discover_filter_present
    (registry : MarkerRegistry) (annotations : List String) (round : Round) :
    discover registry (annotations.filter fun identifier => !(round.annotated identifier).isEmpty)
        round =
      discover registry annotations round := by
  have hflat : ((annotations.filter fun identifier =>
        !(round.annotated identifier).isEmpty).filter registry.contains).flatMap round.annotated =
      (annotations.filter registry.contains).flatMap round.annotated := by
    induction annotations with
    | nil => rfl
    | cons identifier rest ih =>
        by_cases hempty : round.annotated identifier = []
        · by_cases hregistered : registry.contains identifier
          · simpa [hempty, hregistered] using ih
          · simpa [hempty, hregistered] using ih
        · by_cases hregistered : registry.contains identifier
          · simpa [hempty, hregistered] using ih
          · simpa [hempty, hregistered] using ih
  rw [discover, discover, hflat]

end ComponentMarkers
