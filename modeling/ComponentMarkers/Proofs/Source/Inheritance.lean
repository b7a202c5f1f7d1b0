import ComponentMarkers.Proofs.Source.Usages

/-!
# Annotations and their inheritance

The walk along the superclasses of a class stops at the first class it meets again.  `SuperclassAfter`
has no such stop, so on a chain that runs into a cycle it goes round for ever; still the walk misses no
class but the one it starts from, and the main statement says that an element is annotated if and only if
the annotation is used on it, or is inherited and used on a superclass at any distance.
-/

namespace ComponentMarkers.Source

namespace SourceRound

/-- The class that is reached by going to the superclass `n` times. -/
def superclassAfter? (round : SourceRound) (id : ElementId) : Nat → Option ElementId
  | 0 => some id
  | n + 1 => (round.superclassAfter? id n).bind round.superclass?

/-- The identifier is that of a normal scope, or its first declaration in the round is an annotation
type on which the annotation for inheritance is used. -/
def IsInheritedIn (round : SourceRound) (units : List CompilationUnit) (identifier : String) :
    Prop :=
  identifier ∈ inheritedScopes ∨
    ∃ n element, round.IsFirstType identifier n ∧ round.element? n = some element ∧
      element.kind = .annotationType ∧ IsUsedOn units inheritedAnnotation (.ofIndex n)

/-- The elements that carry an annotation are exactly those on which it is used and, if it is inherited,
the classes with a superclass on which it is used. -/
structure AnnotatesExactly (round : SourceRound) (units : List CompilationUnit)
    (identifier : String) : Prop where
  ascending : (round.annotated identifier).Pairwise fun id later => id.index < later.index
  mem_iff : ∀ id, id ∈ round.annotated identifier ↔
    IsUsedOn units identifier id ∨
      round.IsInheritedIn units identifier ∧
        (∃ found, round.get? id = some found ∧ found.element.kind = .classType) ∧
        ∃ n ancestor, 1 ≤ n ∧ round.superclassAfter? id n = some ancestor ∧
          IsUsedOn units identifier ancestor

section Walk

variable {round : SourceRound}

theorem superclassAfter?_succ (id : ElementId) (n : Nat) :
    round.superclassAfter? id (n + 1) =
      (round.superclass? id).bind fun ancestor => round.superclassAfter? ancestor n := by
  induction n with
  | zero =>
      simp [superclassAfter?]
  | succ n ih =>
      rw [superclassAfter?, ih, Option.bind_assoc]
      rfl

/-- Superclasses are classes of the round. -/
theorem isClass_of_superclass?
    {id ancestor : ElementId} (h : round.superclass? id = some ancestor) :
    round.isClass ancestor := by
  obtain ⟨found, -, h⟩ := Option.bind_eq_some_iff.1 h
  obtain ⟨name, -, h⟩ := Option.bind_eq_some_iff.1 h
  exact List.find?_some h

theorem isSome_get?_of_isClass
    {id : ElementId} (h : round.isClass id) : (round.get? id).isSome := by
  rw [isClass, Option.any_eq_true] at h
  obtain ⟨found, hget, -⟩ := h
  rw [hget]
  rfl

/-- Distinct elements of a round are not more than the round has. -/
theorem length_le_size_of_nodup
    {ids : List ElementId} (hnodup : ids.Nodup) (hknown : ∀ id ∈ ids, (round.get? id).isSome) :
    ids.length ≤ round.elements.size := by
  have htable : ∀ id ∈ ids, (round.toRound.table.get? id).isSome := by
    intro id hid
    rw [toRound_get?, element?, Option.isSome_map]
    exact hknown id hid
  have hle := ElementTable.length_le_size_of_known hnodup htable
  have hsize : round.toRound.table.elements.size = round.elements.size := by
    simp [toRound]
  rwa [hsize] at hle

theorem exists_superclassAfter?_of_mem_ancestorsFrom
    {bound : Nat} {seen : List ElementId} {id ancestor : ElementId}
    (h : ancestor ∈ round.ancestorsFrom bound seen id) :
    ∃ n, 1 ≤ n ∧ round.superclassAfter? id n = some ancestor := by
  induction bound generalizing seen id with
  | zero => cases h
  | succ bound ih =>
      rw [ancestorsFrom] at h
      cases hsuper : round.superclass? id with
      | none =>
          rw [hsuper] at h
          cases h
      | some next =>
          rw [hsuper] at h
          dsimp only at h
          by_cases hseen : seen.contains next
          · rw [if_pos hseen] at h
            cases h
          · rw [if_neg hseen] at h
            rcases List.mem_cons.1 h with rfl | h
            · refine ⟨1, Nat.le_refl _, ?_⟩
              rw [superclassAfter?_succ, hsuper]
              rfl
            · obtain ⟨n, -, hn⟩ := ih h
              refine ⟨n + 1, Nat.le_add_left _ _, ?_⟩
              rw [superclassAfter?_succ, hsuper]
              exact hn

/-- Distinct classes that a walk has come by.  The superclass of each of them is among them, except that
the walk has not gone on from the last one. -/
structure IsTrail (round : SourceRound) (seen : List ElementId) (last : ElementId) : Prop where
  nodup : seen.Nodup
  known : ∀ other ∈ seen, (round.get? other).isSome
  closed : ∀ other ∈ seen, other ≠ last → ∀ ancestor, round.superclass? other = some ancestor →
    ancestor ∈ seen

theorem isTrail_singleton {id : ElementId} (h : (round.get? id).isSome) : round.IsTrail [id] id where
  nodup := List.nodup_singleton id
  known := List.forall_mem_singleton.2 h
  closed := fun _ hother hne => absurd (List.mem_singleton.1 hother) hne

section Trails

variable {seen : List ElementId} {last : ElementId} (h : round.IsTrail seen last)

include h

theorem IsTrail.length_le : seen.length ≤ round.elements.size :=
  length_le_size_of_nodup h.nodup h.known

/-- A trail goes on with a class that is not on it. -/
theorem IsTrail.cons
    {next : ElementId} (hnext : round.superclass? last = some next) (hnew : next ∉ seen) :
    round.IsTrail (next :: seen) next := by
  refine ⟨List.nodup_cons.2 ⟨hnew, h.nodup⟩, ?_, ?_⟩
  · have hsome := isSome_get?_of_isClass (isClass_of_superclass? hnext)
    exact List.forall_mem_cons.2 ⟨hsome, h.known⟩
  · intro other hother hne ancestor hancestor
    have hold := (List.mem_cons.1 hother).resolve_left hne
    by_cases hlast : other = last
    · rw [hlast, hnext] at hancestor
      rw [← Option.some.inj hancestor]
      exact List.mem_cons_self
    · exact List.mem_cons_of_mem _ (h.closed other hold hlast ancestor hancestor)

/-- Where a trail does not go on, nothing is missing on it. -/
theorem IsTrail.superclass?_mem
    (hlast : ∀ ancestor, round.superclass? last = some ancestor → ancestor ∈ seen) :
    ∀ other ∈ seen, ∀ ancestor, round.superclass? other = some ancestor → ancestor ∈ seen := by
  intro other hother ancestor hancestor
  by_cases hsame : other = last
  · exact hlast ancestor (hsame ▸ hancestor)
  · exact h.closed other hother hsame ancestor hancestor

end Trails

/-- With what was seen before it, a walk holds the superclass of every class it holds.  The bound is
never used up, since the classes seen are distinct. -/
theorem IsTrail.closed_ancestorsFrom
    {bound : Nat} {seen : List ElementId} {id : ElementId} (h : round.IsTrail seen id)
    (hbound : round.elements.size ≤ seen.length + bound) :
    ∀ other ∈ seen ++ round.ancestorsFrom bound seen id, ∀ ancestor,
      round.superclass? other = some ancestor →
        ancestor ∈ seen ++ round.ancestorsFrom bound seen id := by
  induction bound generalizing seen id with
  | zero =>
      rw [ancestorsFrom, List.append_nil]
      refine h.superclass?_mem fun ancestor hancestor => ?_
      by_contra hnew
      have hle := (h.cons hancestor hnew).length_le
      rw [List.length_cons] at hle
      omega
  | succ bound ih =>
      rw [ancestorsFrom]
      cases hsuper : round.superclass? id with
      | none =>
          dsimp only
          rw [List.append_nil]
          refine h.superclass?_mem fun ancestor hancestor => ?_
          rw [hsuper] at hancestor
          cases hancestor
      | some next =>
          dsimp only
          by_cases hseen : next ∈ seen
          · rw [if_pos (List.contains_iff_mem.2 hseen), List.append_nil]
            refine h.superclass?_mem fun ancestor hancestor => ?_
            rw [hsuper] at hancestor
            rwa [← Option.some.inj hancestor]
          · rw [if_neg (mt List.contains_iff_mem.1 hseen)]
            have hwalk := ih (h.cons hsuper hseen) (by
              rw [List.length_cons]
              omega)
            intro other hother ancestor hancestor
            exact List.perm_middle.mem_iff.2
              (hwalk other (List.perm_middle.mem_iff.1 hother) ancestor hancestor)

/-- A superclass at any distance is on the walk, unless it is the class itself. -/
theorem eq_or_mem_ancestors
    {id : ElementId} (hid : (round.get? id).isSome) {n : Nat} {ancestor : ElementId}
    (h : round.superclassAfter? id n = some ancestor) :
    ancestor = id ∨ ancestor ∈ round.ancestors id := by
  have hwalk : ∀ other ∈ [id] ++ round.ancestors id, ∀ next, round.superclass? other = some next →
      next ∈ [id] ++ round.ancestors id :=
    (isTrail_singleton hid).closed_ancestorsFrom (Nat.le_add_left _ _)
  have hmem : ancestor ∈ [id] ++ round.ancestors id := by
    induction n generalizing ancestor with
    | zero =>
        rw [superclassAfter?] at h
        rw [← Option.some.inj h]
        exact List.mem_append_left _ (List.mem_singleton.2 rfl)
    | succ n ih =>
        obtain ⟨middle, hmiddle, hsuper⟩ := Option.bind_eq_some_iff.1 h
        exact hwalk middle (ih hmiddle) ancestor hsuper
  rcases List.mem_append.1 hmem with hself | hmore
  · exact Or.inl (List.mem_singleton.1 hself)
  · exact Or.inr hmore

/-- Some superclass has a property if and only if one on the walk has it, the class itself not having
it. -/
theorem exists_superclassAfter?_iff
    {id : ElementId} (hid : (round.get? id).isSome) {p : ElementId → Prop} (hself : ¬ p id) :
    (∃ ancestor ∈ round.ancestors id, p ancestor) ↔
      ∃ n ancestor, 1 ≤ n ∧ round.superclassAfter? id n = some ancestor ∧ p ancestor := by
  constructor
  · rintro ⟨ancestor, hancestor, hp⟩
    obtain ⟨n, hpos, hn⟩ := exists_superclassAfter?_of_mem_ancestorsFrom hancestor
    exact ⟨n, ancestor, hpos, hn, hp⟩
  · rintro ⟨n, ancestor, -, hn, hp⟩
    rcases eq_or_mem_ancestors hid hn with rfl | hancestor
    · exact absurd hp hself
    · exact ⟨ancestor, hancestor, hp⟩

end Walk

section Numbers

variable {round : SourceRound}

theorem mem_ids_iff
    (hsize : round.elements.size < ElementId.count) (id : ElementId) :
    id ∈ round.ids ↔ (round.get? id).isSome := by
  rw [ids, List.mem_map]
  constructor
  · rintro ⟨n, hn, rfl⟩
    have hlt := List.mem_range.1 hn
    rw [get?_ofIndex hsize (Array.getElem?_eq_getElem hlt)]
    rfl
  · intro hsome
    obtain ⟨found, hget⟩ := Option.isSome_iff_exists.1 hsome
    have hlt := (Array.getElem?_eq_some_iff.1 hget).1
    exact ⟨id.index, List.mem_range.2 hlt, ElementId.ofIndex_index id⟩

theorem ids_pairwise_lt
    (hsize : round.elements.size < ElementId.count) :
    round.ids.Pairwise fun id later => id.index < later.index := by
  rw [ids, List.pairwise_map]
  apply List.Pairwise.imp_of_mem _ List.pairwise_lt_range
  intro m n hm hn hlt
  have hm := List.mem_range.1 hm
  have hn := List.mem_range.1 hn
  rw [ElementId.index_ofIndex_of_lt (by omega), ElementId.index_ofIndex_of_lt (by omega)]
  exact hlt

end Numbers

theorem IsMadeOf.isInherited_iff
    {round : SourceRound} {units : List CompilationUnit} (h : round.IsMadeOf units)
    (hsize : round.elements.size < ElementId.count) (identifier : String) :
    round.isInherited identifier ↔ round.IsInheritedIn units identifier := by
  have hget : ∀ n, n < round.elements.size →
      (round.get? (.ofIndex n)).map SourceElement.element = round.element? n := by
    intro n hn
    rw [get?, ElementId.index_ofIndex_of_lt (by omega)]
    rfl
  have hkind : ∀ n, n < round.elements.size →
      ((round.get? (.ofIndex n)).any fun found => found.element.kind = .annotationType) =
        (round.element? n).any fun element => element.kind = .annotationType := by
    intro n hn
    rw [← hget n hn, Option.any_map]
  rw [isInherited, Bool.or_eq_true, List.contains_iff_mem, Option.any_eq_true]
  apply or_congr_right
  constructor
  · rintro ⟨id, hfind, hspec⟩
    obtain ⟨n, hn, rfl⟩ := (h.types identifier id).1 hfind
    rw [Bool.and_eq_true, hkind n hn.1.lt_size, Option.any_eq_true] at hspec
    obtain ⟨⟨element, helement, hannotation⟩, hcarries⟩ := hspec
    exact ⟨n, element, hn, helement, of_decide_eq_true hannotation,
      (h.carries_iff hsize _ _).1 hcarries⟩
  · rintro ⟨n, element, hn, helement, hannotation, hused⟩
    refine ⟨.ofIndex n, (h.types identifier _).2 ⟨n, hn, rfl⟩, ?_⟩
    rw [Bool.and_eq_true, hkind n hn.1.lt_size, Option.any_eq_true]
    exact ⟨⟨element, helement, decide_eq_true hannotation⟩, (h.carries_iff hsize _ _).2 hused⟩

theorem IsMadeOf.mem_annotated_iff
    {round : SourceRound} {units : List CompilationUnit} (h : round.IsMadeOf units)
    (hsize : round.elements.size < ElementId.count) (identifier : String) (id : ElementId) :
    id ∈ round.annotated identifier ↔
      IsUsedOn units identifier id ∨
        round.IsInheritedIn units identifier ∧
          (∃ found, round.get? id = some found ∧ found.element.kind = .classType) ∧
          ∃ n ancestor, 1 ≤ n ∧ round.superclassAfter? id n = some ancestor ∧
            IsUsedOn units identifier ancestor := by
  have hclass : round.isClass id ↔
      ∃ found, round.get? id = some found ∧ found.element.kind = .classType := by
    rw [isClass, Option.any_eq_true]
    simp only [decide_eq_true_eq]
  have hcarries : ∀ other, round.carries other identifier ↔ IsUsedOn units identifier other :=
    fun other => h.carries_iff hsize other identifier
  have hinherited := h.isInherited_iff hsize identifier
  have hany : ((round.ancestors id).any fun ancestor => round.carries ancestor identifier) ↔
      ∃ ancestor ∈ round.ancestors id, IsUsedOn units identifier ancestor := by
    rw [List.any_eq_true]
    simp only [hcarries]
  rw [annotated, List.mem_filter, mem_ids_iff hsize, Bool.or_eq_true, Bool.and_eq_true,
    Bool.and_eq_true, hcarries, hinherited, hclass, hany]
  constructor
  · rintro ⟨hid, hused | ⟨⟨hvisible, hkind⟩, hancestor⟩⟩
    · exact Or.inl hused
    · by_cases hself : IsUsedOn units identifier id
      · exact Or.inl hself
      · exact Or.inr ⟨hvisible, hkind, (exists_superclassAfter?_iff hid hself).1 hancestor⟩
  · rintro (hused | ⟨hvisible, hkind, hancestor⟩)
    · refine ⟨?_, Or.inl hused⟩
      obtain ⟨k, unit, text, hunit, hwritten, -⟩ := hused
      obtain ⟨found, hget⟩ := h.isSome_get?_of_writtenOn hsize hunit hwritten
      rw [hget]
      rfl
    · have hid : (round.get? id).isSome := by
        obtain ⟨found, hget, -⟩ := hkind
        rw [hget]
        rfl
      by_cases hself : IsUsedOn units identifier id
      · exact ⟨hid, Or.inl hself⟩
      · exact ⟨hid, Or.inr ⟨⟨hvisible, hkind⟩,
          (exists_superclassAfter?_iff hid hself).2 hancestor⟩⟩

/-- In a round that was made by adding units, an annotation is listed on exactly the elements it is used
on or inherited by, in ascending order. -/
theorem Reached.annotatesExactly
    {units : List CompilationUnit} {round : SourceRound} (h : Reached units round)
    (hsize : round.elements.size < ElementId.count) (identifier : String) :
    round.AnnotatesExactly units identifier := by
  refine ⟨?_, (h.isMadeOf hsize).mem_annotated_iff hsize identifier⟩
  exact (ids_pairwise_lt hsize).filter _

/-- Two classes that extend each other, one of them with a scope, and a third that extends one of the
two. -/
def loopUnit : CompilationUnit where
  path := none
  package := some "shop"
  packageAnnotations := []
  imports := [⟨"javax.enterprise.context", true, false⟩]
  types := [⟨.classType, "Cart", [], some "Order", []⟩,
    ⟨.classType, "Order", ["SessionScoped"], some "Cart", []⟩,
    ⟨.classType, "Basket", [], some "Cart", []⟩]

/-- The walk from the third class goes on past the cycle's begin, and that from the second ends. -/
example : (empty.addUnit loopUnit).1.annotated "javax.enterprise.context.SessionScoped" =
    [⟨1⟩, ⟨2⟩, ⟨3⟩] := by
  decide +kernel

theorem annotatesExactly_loopUnit :
    Reached [loopUnit] (empty.addUnit loopUnit).1 ∧
      (empty.addUnit loopUnit).1.elements.size < ElementId.count ∧
      (empty.addUnit loopUnit).1.AnnotatesExactly [loopUnit]
        "javax.enterprise.context.SessionScoped" := by
  have hreached : Reached [loopUnit] (empty.addUnit loopUnit).1 := Reached.addUnit .new loopUnit
  have hsize : (empty.addUnit loopUnit).1.elements.size < ElementId.count := by
    decide +kernel
  exact ⟨hreached, hsize, hreached.annotatesExactly hsize _⟩

end SourceRound

end ComponentMarkers.Source
