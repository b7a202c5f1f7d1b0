import ComponentMarkers.Proofs.Lists
import ComponentMarkers.Proofs.Marking.Collection
import ComponentMarkers.Proofs.Marking.Owners
import Mathlib.Data.List.Induction

/-!
# The order in which classes are collected

The elements to collect from are gone through as they are listed, and from each of them one goes up to
the top.  Classes are listed in the order in which they are met on the way for the first time.  Chains
share nothing but the set of classes, so it does not matter whether a class was met before: the way up
goes on behind it.

What is collected for a round is then said as a set, which depends on the annotations of the registry
only.
-/

namespace ComponentMarkers

namespace OrderedSet

variable {α : Type} [DecidableEq α]

/-- Distinct entries are added behind the others as far as they are new. -/
theorem toList_insertAll_of_nodup
    (set : OrderedSet α) {entries : List α} (hentries : entries.Nodup) :
    (set.insertAll entries).toList = set.toList ++ entries.filter (· ∉ set.toList) := by
  induction entries generalizing set with
  | nil => simp [insertAll]
  | cons entry rest ih =>
      obtain ⟨hentry, hrest⟩ := List.nodup_cons.1 hentries
      have hinsert : set.insertAll (entry :: rest) = (set.insert entry).insertAll rest := by
        rw [insertAll, insertAll, List.foldl_cons]
      rw [hinsert, ih (set.insert entry) hrest]
      by_cases hmem : entry ∈ set.toList
      · have hsame : set.insert entry = set := dif_pos hmem
        rw [hsame, List.filter_cons_of_neg (by simpa using hmem)]
      · have hadded : (set.insert entry).toList = set.toList ++ [entry] := by
          rw [insert, dif_neg hmem]
        have hnew : rest.filter (· ∉ set.toList ++ [entry]) = rest.filter (· ∉ set.toList) := by
          apply List.filter_congr
          intro other hother
          have hne : other ≠ entry := fun heq => hentry (heq ▸ hother)
          simp [hne]
        rw [hadded, hnew, List.filter_cons_of_pos (by simpa using hmem), List.append_assoc,
          List.singleton_append]

end OrderedSet

namespace ElementTable

variable {table : ElementTable}

/-- The element is met `n` steps above the element that is listed at position `i`. -/
def Meets (table : ElementTable) (ids : List ElementId) (i n : Nat) (id : ElementId) : Prop :=
  ∃ start, ids[i]? = some start ∧ table.ownerAfter? n start = some id

/-- When the listed elements are gone through in turn, from each of them upwards, `id` is met before
`later` is met for the first time. -/
def MeetsBefore (table : ElementTable) (ids : List ElementId) (id later : ElementId) : Prop :=
  ∃ i n, table.Meets ids i n id ∧
    ∀ j m, table.Meets ids j m later → i < j ∨ i = j ∧ n < m

/-- At the positions before the last a list with one more element meets what it met without. -/
theorem meets_concat_iff
    (ids : List ElementId) (last : ElementId) (i n : Nat) (id : ElementId) :
    table.Meets (ids ++ [last]) i n id ↔
      table.Meets ids i n id ∨ i = ids.length ∧ table.ownerAfter? n last = some id := by
  simp only [Meets, getElem?_concat_eq_some_iff]
  constructor
  · rintro ⟨start, hstart | ⟨hlast, rfl⟩, howner⟩
    · exact Or.inl ⟨start, hstart, howner⟩
    · exact Or.inr ⟨hlast, howner⟩
  · rintro (⟨start, hstart, howner⟩ | ⟨hlast, howner⟩)
    · exact ⟨start, Or.inl hstart, howner⟩
    · exact ⟨last, Or.inr ⟨hlast, rfl⟩, howner⟩

theorem Meets.lt_length
    {ids : List ElementId} {i n : Nat} {id : ElementId} (h : table.Meets ids i n id) :
    i < ids.length := by
  obtain ⟨start, hstart, -⟩ := h
  exact (List.getElem?_eq_some_iff.1 hstart).1

/-- What is reached from a listed element is met, and nothing else is. -/
theorem exists_meets_iff {ids : List ElementId} {id : ElementId} :
    (∃ i n, table.Meets ids i n id) ↔ ∃ start ∈ ids, table.Reaches start id := by
  constructor
  · rintro ⟨i, n, start, hstart, hn⟩
    exact ⟨start, List.mem_of_getElem? hstart, reaches_iff_exists_ownerAfter?.2 ⟨n, hn⟩⟩
  · rintro ⟨start, hstart, hreach⟩
    obtain ⟨i, hi⟩ := List.mem_iff_getElem?.1 hstart
    obtain ⟨n, hn⟩ := reaches_iff_exists_ownerAfter?.1 hreach
    exact ⟨i, n, start, hi, hn⟩

/-- What was met before the last element was listed is met before anything that was not. -/
theorem meetsBefore_concat_of_new
    {ids : List ElementId} (last : ElementId) {id later : ElementId}
    (hid : ∃ i n, table.Meets ids i n id) (hnew : ¬ ∃ j m, table.Meets ids j m later) :
    table.MeetsBefore (ids ++ [last]) id later := by
  obtain ⟨i, n, hmeets⟩ := hid
  refine ⟨i, n, (meets_concat_iff _ _ _ _ _).2 (.inl hmeets), fun j m hlater => .inl ?_⟩
  rcases (meets_concat_iff _ _ _ _ _).1 hlater with hearly | ⟨rfl, -⟩
  · exact absurd ⟨j, m, hearly⟩ hnew
  · exact hmeets.lt_length

/-- Listing one more element does not change what is met before what. -/
theorem MeetsBefore.concat
    {ids : List ElementId} {id later : ElementId} (h : table.MeetsBefore ids id later)
    (last : ElementId) : table.MeetsBefore (ids ++ [last]) id later := by
  obtain ⟨i, n, hmeets, hfirst⟩ := h
  refine ⟨i, n, (meets_concat_iff _ _ _ _ _).2 (.inl hmeets), fun j m hlater => ?_⟩
  rcases (meets_concat_iff _ _ _ _ _).1 hlater with hearly | ⟨rfl, -⟩
  · exact hfirst j m hearly
  · exact .inl hmeets.lt_length

/-- What is new above the last element is met in the order in which one comes to it from there. -/
theorem ComesFirst.meetsBefore
    {ids : List ElementId} {last id later : ElementId} (h : table.ComesFirst last id later)
    (hnew : ¬ ∃ j m, table.Meets ids j m later) :
    table.MeetsBefore (ids ++ [last]) id later := by
  obtain ⟨n, hn, hfirst⟩ := h
  refine ⟨ids.length, n, (meets_concat_iff _ _ _ _ _).2 (.inr ⟨rfl, hn⟩), fun j m hlater => ?_⟩
  rcases (meets_concat_iff _ _ _ _ _).1 hlater with hearly | ⟨rfl, hm⟩
  · exact absurd ⟨j, m, hearly⟩ hnew
  · exact .inr ⟨rfl, hfirst m hm⟩

/-- The classes of a chain are in the order in which one comes to them. -/
theorem pairwise_comesFirst_classes (table : ElementTable) (start : ElementId) :
    (table.enclosingChain start).classes.Pairwise (table.ComesFirst start) := by
  apply List.Pairwise.sublist _ (table.isChain_enclosingChain start).pairwise_comesFirst
  exact List.filter_sublist.map Prod.fst

theorem nodup_classes (table : ElementTable) (start : ElementId) :
    (table.enclosingChain start).classes.Nodup := by
  apply (table.pairwise_comesFirst_classes start).imp
  rintro id other ⟨n, hn, hfirst⟩ rfl
  exact Nat.lt_irrefl n (hfirst n hn)

end ElementTable

open ElementTable

/-- A class of any chain is collected if it is met from the listed elements. -/
theorem mem_of_collectClasses_of_meets
    {table : ElementTable} {ids : List ElementId} {classes : OrderedSet ElementId}
    (h : (collectClasses table ids).1 = .ok classes) {start id : ElementId}
    (hclass : id ∈ (table.enclosingChain start).classes) (hmeets : ∃ i n, table.Meets ids i n id) :
    id ∈ classes.toList := by
  obtain ⟨element, hlink, hkind⟩ := (EnclosingChain.mem_classes_iff _ id).1 hclass
  obtain ⟨hget, -⟩ := (table.isChain_enclosingChain start).link_spec _ hlink
  obtain ⟨origin, horigin, hreach⟩ := exists_meets_iff.1 hmeets
  exact (mem_of_collectClasses h id).2 ⟨origin, horigin, hreach, element, hget, hkind⟩

/-- Classes are collected in the order in which they are met for the first time. -/
theorem pairwise_meetsBefore_of_collectClasses
    {table : ElementTable} {ids : List ElementId} {classes : OrderedSet ElementId}
    (h : (collectClasses table ids).1 = .ok classes) :
    classes.toList.Pairwise (table.MeetsBefore ids) := by
  -- The induction is on the list from its end: the classes of the last chain are added behind those
  -- that the elements before it led to.
  induction ids using List.reverseRecOn generalizing classes with
  | nil =>
      obtain rfl := Except.ok.inj h
      exact .nil
  | append_singleton ids last ih =>
      obtain ⟨hknows, hclasses⟩ := (collectInto_eq_ok_iff table _ .empty [] classes).1 h
      obtain ⟨earlier, hearlier⟩ : ∃ earlier, (collectClasses table ids).1 = .ok earlier := by
        refine ⟨_, (collectInto_eq_ok_iff table ids .empty [] _).2 ⟨fun id hid => ?_, rfl⟩⟩
        exact hknows id (List.mem_append_left _ hid)
      obtain ⟨-, hset⟩ := (collectInto_eq_ok_iff table ids .empty [] earlier).1 hearlier
      rw [List.flatMap_append, List.flatMap_singleton, ← OrderedSet.insertAll_insertAll, ← hset]
        at hclasses
      have hmet : ∀ id ∈ earlier.toList, ∃ i n, table.Meets ids i n id := by
        intro id hid
        obtain ⟨start, hstart, hreach, -⟩ := (mem_of_collectClasses hearlier id).1 hid
        exact exists_meets_iff.2 ⟨start, hstart, hreach⟩
      -- A class of the last chain that is not collected yet was not met.
      have hnew : ∀ id ∈ (table.enclosingChain last).classes.filter (· ∉ earlier.toList),
          ¬ ∃ j m, table.Meets ids j m id := by
        intro id hid hmeets
        obtain ⟨hclass, hnot⟩ := List.mem_filter.1 hid
        exact of_decide_eq_true hnot (mem_of_collectClasses_of_meets hearlier hclass hmeets)
      rw [hclasses, OrderedSet.toList_insertAll_of_nodup _ (table.nodup_classes last),
        List.pairwise_append]
      refine ⟨(ih hearlier).imp fun hbefore => hbefore.concat last, ?_, ?_⟩
      · apply ((table.pairwise_comesFirst_classes last).filter _).imp_of_mem
        intro id later _ hlater hfirst
        exact hfirst.meetsBefore (hnew later hlater)
      · intro id hid later hlater
        exact meetsBefore_concat_of_new last (hmet id hid) (hnew later hlater)

/-- What is collected for a round depends on its registered annotations only. -/
theorem discover_agree_of_registered
    {round other : Round} (hround : round.IsClosed) (htable : other.table = round.table)
    {registry : MarkerRegistry} {annotations others : List String}
    (hsame : ∀ identifier, registry.contains identifier →
      (identifier ∈ annotations ↔ identifier ∈ others) ∧
        ∀ id, id ∈ round.annotated identifier ↔ id ∈ other.annotated identifier) :
    ∃ classes otherClasses,
      (discover registry annotations round).1 = .ok classes ∧
      (discover registry others other).1 = .ok otherClasses ∧
      ∀ id, id ∈ classes.toList ↔ id ∈ otherClasses.toList := by
  obtain ⟨classes, events, hdiscover, -⟩ := discover_of_isClosed hround registry annotations
  have hclasses := congrArg Prod.fst hdiscover
  -- The two lists of elements to collect from have the same members.
  have hids : ∀ id, id ∈ (annotations.filter registry.contains).flatMap round.annotated ↔
      id ∈ (others.filter registry.contains).flatMap other.annotated := by
    intro id
    simp only [List.mem_flatMap, List.mem_filter]
    apply exists_congr
    intro identifier
    by_cases hregistered : registry.contains identifier
    · obtain ⟨hlisted, hannotated⟩ := hsame identifier hregistered
      rw [hlisted, hannotated]
    · simp [hregistered]
  obtain ⟨hknows, -⟩ := (collectInto_eq_ok_iff round.table _ .empty [] classes).1 hclasses
  have hothers := (collectInto_eq_ok_iff round.table
    ((others.filter registry.contains).flatMap other.annotated) .empty [] _).2
    ⟨fun id hid => hknows id ((hids id).2 hid), rfl⟩
  rw [← htable] at hothers
  refine ⟨classes, _, hclasses, hothers, fun id => ?_⟩
  rw [mem_of_collectClasses hclasses, mem_of_collectClasses hothers, htable]
  simp only [hids]

/-- Collecting closes the listed elements upwards.  From elements of a closed table, which may lead round
in circles, it always ends with distinct classes, exactly those that are reached from a listed element,
in the order in which they are met for the first time.  For a round the set of classes depends only on
which registered annotations are listed and on which elements carry them, not on their order or
number. -/
theorem collects_upward_closure :
    (∀ (table : ElementTable) (ids : List ElementId), table.IsClosed →
      (∀ id ∈ ids, (table.get? id).isSome) →
        ∃ classes, (collectClasses table ids).1 = .ok classes ∧ classes.toList.Nodup ∧
          (∀ id, id ∈ classes.toList ↔
            (∃ element, table.get? id = some element ∧ element.kind.isClass) ∧
              ∃ start ∈ ids, table.Reaches start id) ∧
          classes.toList.Pairwise (table.MeetsBefore ids)) ∧
    ∀ (registry : MarkerRegistry) (annotations others : List String) (round other : Round),
      round.IsClosed → other.table = round.table →
      (∀ identifier, registry.contains identifier →
        (identifier ∈ annotations ↔ identifier ∈ others) ∧
          ∀ id, id ∈ round.annotated identifier ↔ id ∈ other.annotated identifier) →
        ∃ classes otherClasses,
          (discover registry annotations round).1 = .ok classes ∧
          (discover registry others other).1 = .ok otherClasses ∧
          ∀ id, id ∈ classes.toList ↔ id ∈ otherClasses.toList := by
  constructor
  · intro table ids htable hids
    have hclasses := (collectInto_eq_ok_iff table ids .empty [] _).2
      ⟨fun id hid => knowsChain_of_isClosed htable (hids id hid), rfl⟩
    refine ⟨_, hclasses, OrderedSet.nodup _, fun id => ?_,
      pairwise_meetsBefore_of_collectClasses hclasses⟩
    rw [mem_of_collectClasses hclasses]
    simp only [ElementKind.isClass, decide_eq_true_eq]
    constructor
    · rintro ⟨start, hstart, hreach, hclass⟩
      exact ⟨hclass, start, hstart, hreach⟩
    · rintro ⟨hclass, start, hstart, hreach⟩
      exact ⟨start, hstart, hreach, hclass⟩
  · intro registry annotations others round other hround htable hsame
    exact discover_agree_of_registered hround htable hsame

/-- A round with a method in a class and two classes that are written in each other. -/
def mutualRound : Round where
  table := ⟨#[⟨.package, "a", "a", none⟩, ⟨.classType, "A", "a.A", some ⟨0⟩⟩,
    ⟨.method, "m", "a.A.m", some ⟨1⟩⟩, ⟨.classType, "B", "C.B", some ⟨4⟩⟩,
    ⟨.classType, "C", "B.C", some ⟨3⟩⟩]⟩
  annotated _ := [⟨4⟩, ⟨2⟩, ⟨3⟩]
  isOver := false

theorem mutualRound_isClosed : mutualRound.IsClosed := by
  constructor
  · apply isClosed_of_forall_mem
    decide
  · intro identifier
    change ∀ id ∈ [⟨4⟩, ⟨2⟩, ⟨3⟩], (mutualRound.table.get? id).isSome
    decide

/-- From the two classes and the method three classes are collected, the outer one of the two behind the
inner one; and so they are when one annotation is listed twice beside one that is not registered. -/
theorem collects_upward_closure_mutualRound :
    mutualRound.IsClosed ∧ (∀ id ∈ [⟨4⟩, ⟨2⟩, ⟨3⟩], (mutualRound.table.get? id).isSome) ∧
      (∃ classes, (collectClasses mutualRound.table [⟨4⟩, ⟨2⟩, ⟨3⟩]).1 = .ok classes ∧
        classes.toList = [⟨4⟩, ⟨3⟩, ⟨1⟩] ∧
        classes.toList.Pairwise (mutualRound.table.MeetsBefore [⟨4⟩, ⟨2⟩, ⟨3⟩])) ∧
      ∃ classes otherClasses,
        (discover .standard ["javax.interceptor.Interceptor"] mutualRound).1 = .ok classes ∧
        (discover .standard
          ["javax.interceptor.Interceptor", "java.lang.Override", "javax.interceptor.Interceptor"]
          { mutualRound with annotated := fun _ => [⟨2⟩, ⟨3⟩, ⟨4⟩, ⟨3⟩] }).1 = .ok otherClasses ∧
        ∀ id, id ∈ classes.toList ↔ id ∈ otherClasses.toList := by
  have hids : ∀ id ∈ [⟨4⟩, ⟨2⟩, ⟨3⟩], (mutualRound.table.get? id).isSome := by decide
  obtain ⟨hcollect, hdiscover⟩ := collects_upward_closure
  refine ⟨mutualRound_isClosed, hids, ?_, ?_⟩
  · obtain ⟨classes, hclasses, -, -, horder⟩ := hcollect _ _ mutualRound_isClosed.table hids
    have hlist : (collectClasses mutualRound.table [⟨4⟩, ⟨2⟩, ⟨3⟩]).1.toOption.map
        OrderedSet.toList = some [⟨4⟩, ⟨3⟩, ⟨1⟩] := by
      decide
    rw [hclasses] at hlist
    exact ⟨classes, hclasses, Option.some.inj hlist, horder⟩
  · refine hdiscover .standard _ _ mutualRound
      { mutualRound with annotated := fun _ => [⟨2⟩, ⟨3⟩, ⟨4⟩, ⟨3⟩] } mutualRound_isClosed rfl ?_
    intro identifier hregistered
    have hne : identifier ≠ "java.lang.Override" := by
      rintro rfl
      exact absurd hregistered (by decide)
    constructor
    · simp [hne]
    · intro id
      simp only [mutualRound, List.mem_cons, List.not_mem_nil, or_false]
      tauto

end ComponentMarkers
