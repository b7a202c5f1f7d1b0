import ComponentMarkers.Proofs.Source.Places
import Mathlib.Algebra.BigOperators.Group.List.Basic
import Mathlib.Algebra.GroupWithZero.Nat
import Mathlib.Data.Finset.Card

/-!
# Units in another order

What a round says of an element depends on the place of the element alone, as long as no two types have
one qualified name.  So two rounds of the same units in different orders, whose elements have other
numbers, still agree on annotations and superclasses.
-/

namespace ComponentMarkers.Source

open Text

/-- The names that an `extends` text may stand for, inside the given types and among the names of a
unit. -/
def superclassNames (owners : List String) (context : ImportContext) (text : String) :
    List String :=
  let (first, rest) :=
    match splitFirst? text with
    | some (first, rest) => (first, some rest)
    | none => (text, none)
  let candidates := owners.map (fun owner => owner ++ "." ++ first) ++ context.typeCandidates first
  match rest with
  | none => candidates
  | some rest => candidates.map (fun candidate => candidate ++ "." ++ rest) ++ [text]

/-- The names that the `extends` text at a place may stand for. -/
def CompilationUnit.superclassNamesAt (unit : CompilationUnit) : List Declaration → List String
  | [] => []
  | declaration :: outer =>
    (declaration.superclass.map (superclassNames (unit.typesAround outer) unit.context)).getD []

/-- The annotation is used at the place.  A package has the annotations of all its units. -/
def UsedAt (units : List CompilationUnit) (identifier : String) (unit : CompilationUnit) :
    List Declaration → Prop
  | [] => ∃ other ∈ units, other.package.getD "" = unit.package.getD "" ∧
      ∃ text ∈ other.packageAnnotations, other.context.denotes text identifier
  | declaration :: _ => ∃ text ∈ declaration.annotations, unit.context.denotes text identifier

theorem UsedAt.of_perm
    {units others : List CompilationUnit} (hperm : units.Perm others) {identifier : String}
    {unit : CompilationUnit} {place : List Declaration} (h : UsedAt units identifier unit place) :
    UsedAt others identifier unit place := by
  cases place with
  | nil =>
      obtain ⟨other, hother, hspec⟩ := h
      exact ⟨other, hperm.mem_iff.1 hother, hspec⟩
  | cons declaration outer => exact h

namespace SourceRound

/-- The first type of the name is a class. -/
def namesClass (round : SourceRound) (name : String) : Bool :=
  (round.types.find? name).any round.isClass

/-- The qualified name of an element. -/
def qualifiedName? (round : SourceRound) (id : ElementId) : Option String :=
  (round.get? id).map fun found => found.element.qualifiedName

/-- Two rounds agree up to the numbers of their elements. -/
structure AgreesWith (first second : SourceRound) : Prop where
  annotated_iff : ∀ identifier kind name,
    (∃ id ∈ first.annotated identifier, ∃ found, first.get? id = some found ∧
        found.element.kind = kind ∧ found.element.qualifiedName = name) ↔
      ∃ id ∈ second.annotated identifier, ∃ found, second.get? id = some found ∧
        found.element.kind = kind ∧ found.element.qualifiedName = name
  class_iff : ∀ name, (∃ id, first.isClass id ∧ first.qualifiedName? id = some name) ↔
    ∃ id, second.isClass id ∧ second.qualifiedName? id = some name
  superclass_eq : ∀ id other, first.isClass id → second.isClass other →
    first.qualifiedName? id = second.qualifiedName? other →
      (first.superclass? id).bind first.qualifiedName? =
        (second.superclass? other).bind second.qualifiedName?

section Reading

variable {round : SourceRound} {units : List CompilationUnit} {unit : CompilationUnit}

theorem StandsAt.enclosingTypeNames_eq
    (hmade : round.IsMadeOf units) {id : ElementId} {place : List Declaration}
    (h : round.StandsAt units unit id place) {bound : Nat} (hbound : place.length ≤ bound) :
    round.enclosingTypeNames bound (some id) = unit.typesAround place := by
  induction h generalizing bound with
  | package _ hid =>
      obtain ⟨found, hget, helement, -⟩ := hmade.packages _ _ hid
      cases bound with
      | zero => rfl
      | succ bound =>
          rw [enclosingTypeNames, hget]
          dsimp only
          rw [helement]
          exact if_neg Bool.false_ne_true
  | @declared _ _ owner outer declaration _ _ _ hget _ ih =>
      cases bound with
      | zero => cases hbound
      | succ bound =>
          rw [enclosingTypeNames, hget, CompilationUnit.typesAround]
          rw [List.length_cons] at hbound
          have howner := ih (Nat.le_of_succ_le_succ hbound)
          change (if declaration.kind.isType then
            _ :: round.enclosingTypeNames bound (some owner) else []) = _
          rw [howner]
          rfl

/-- The superclass is the first class that a name at the place leads to. -/
theorem StandsAt.superclass?_eq
    (hmade : round.IsMadeOf units) {id : ElementId} {place : List Declaration}
    (h : round.StandsAt units unit id place) :
    round.superclass? id =
      ((unit.superclassNamesAt place).find? round.namesClass).bind round.types.find? := by
  cases h with
  | package _ hid =>
      obtain ⟨found, hget, -, hsuper, -⟩ := hmade.packages _ _ hid
      rw [superclass?, hget]
      change found.superclass.bind _ = _
      rw [hsuper]
      rfl
  | @declared k _ owner outer declaration hunit howner _ hget hlt =>
      have hsize : outer.length ≤ round.elements.size := by
        have hlength := howner.length_le
        have hbound := (Array.getElem?_eq_some_iff.1 hget).1
        omega
      rw [superclass?, hget]
      change (declaration.superclass.map fun text => WrittenName.mk text k).bind _ = _
      rw [CompilationUnit.superclassNamesAt]
      cases declaration.superclass with
      | none => rfl
      | some text =>
          have hcandidates : round.superclassCandidates
              (declaration.entry k unit.path owner (unit.nameAt outer)).element ⟨text, k⟩ =
                superclassNames (unit.typesAround outer) unit.context text := by
            rw [← howner.enclosingTypeNames_eq hmade hsize,
              ← hmade.contextOf_eq (show units[(WrittenName.mk text k).unit]? = some unit from hunit)]
            rfl
          change ((round.superclassCandidates _ _).filterMap _).find? _ = _
          rw [hcandidates, List.find?_filterMap]
          rfl

theorem StandsAt.carries_iff
    (hmade : round.IsMadeOf units) {id : ElementId} {place : List Declaration}
    (h : round.StandsAt units unit id place) (identifier : String) :
    round.carries id identifier ↔ UsedAt units identifier unit place := by
  rw [carries, Option.any_eq_true]
  cases h with
  | package hunit hid =>
      obtain ⟨found, hget, -, -, husages⟩ := hmade.packages _ _ hid
      simp only [hget, Option.some.injEq, exists_eq_left', List.any_eq_true, husages]
      constructor
      · rintro ⟨usage, ⟨other, hother, hpackage, htext⟩, hdenotes⟩
        rw [hmade.contextOf_eq hother] at hdenotes
        exact ⟨other, List.mem_of_getElem? hother, hpackage, usage.text, htext, hdenotes⟩
      · rintro ⟨other, hother, hpackage, text, htext, hdenotes⟩
        obtain ⟨k, hk, hfound⟩ := List.mem_iff_getElem.1 hother
        have hother : units[k]? = some other := List.getElem?_eq_some_iff.2 ⟨hk, hfound⟩
        refine ⟨⟨text, k⟩, ⟨other, hother, hpackage, htext⟩, ?_⟩
        rw [hmade.contextOf_eq hother]
        exact hdenotes
  | @declared k _ owner outer declaration hunit _ _ hget _ =>
      have hcontext : ∀ text, round.contextOf ⟨text, k⟩ = unit.context :=
        fun text => hmade.contextOf_eq hunit
      simp only [hget, Option.some.injEq, exists_eq_left', List.any_eq_true]
      constructor
      · rintro ⟨usage, husage, hdenotes⟩
        obtain ⟨text, htext, rfl⟩ := List.mem_map.1 husage
        rw [hcontext] at hdenotes
        exact ⟨text, htext, hdenotes⟩
      · rintro ⟨text, htext, hdenotes⟩
        refine ⟨⟨text, k⟩, List.mem_map_of_mem htext, ?_⟩
        rw [hcontext]
        exact hdenotes

/-- What the index of types finds stands at a place with the name. -/
theorem IsMadeOf.exists_place_of_find?
    (hmade : round.IsMadeOf units) (hsize : round.elements.size < ElementId.count) {name : String}
    {id : ElementId} (hfind : round.types.find? name = some id) :
    ∃ unit place, round.StandsAt units unit id place ∧ isTypePlace place ∧
      unit.nameAt place = name := by
  obtain ⟨n, hn, rfl⟩ := (hmade.types name id).1 hfind
  obtain ⟨element, helement, hkind, hname⟩ := hn.1
  obtain ⟨found, hfound, rfl⟩ := Option.map_eq_some_iff.1 helement
  have hget := get?_ofIndex hsize hfound
  obtain ⟨unit, place, hstands⟩ := hmade.exists_place hsize hget
  obtain ⟨same, hsame, hnameAt, hkindAt⟩ := hstands.exists_get? hmade
  obtain rfl := Option.some.inj (hget.symm.trans hsame)
  refine ⟨unit, place, hstands, ?_, ?_⟩
  · rw [hkindAt] at hkind
    cases place with
    | nil => cases hkind
    | cons declaration outer => exact hkind
  · exact hnameAt.symm.trans hname

/-- The name of a type leads to its place. -/
theorem IsMadeOf.exists_find?_of_place
    (hmade : round.IsMadeOf units) (hsize : round.elements.size < ElementId.count)
    (hdistinct : HaveDistinctTypes units) (hunit : unit ∈ units) {place : List Declaration}
    (hplace : unit.HasPlace place) (htype : isTypePlace place) :
    ∃ id, round.types.find? (unit.nameAt place) = some id ∧
      round.StandsAt units unit id place := by
  obtain ⟨id, hstands⟩ := hmade.exists_standsAt hsize hunit hplace
  obtain ⟨found, hget, hname, hkind⟩ := hstands.exists_get? hmade
  have hdeclares : round.DeclaresType (unit.nameAt place) id.index := by
    refine ⟨found.element, element?_of_get? hget, ?_, hname⟩
    rw [hkind]
    cases place with
    | nil => cases htype
    | cons declaration outer => exact htype
  obtain ⟨n, hn⟩ := hdeclares.exists_first
  have hfind := (hmade.types (unit.nameAt place) (.ofIndex n)).2 ⟨n, hn, rfl⟩
  obtain ⟨other, otherPlace, hother, hotherType, hotherName⟩ :=
    hmade.exists_place_of_find? hsize hfind
  obtain ⟨rfl, rfl⟩ := hdistinct.place_eq hother.mem_units hunit hother.hasPlace hplace hotherType
    htype hotherName
  exact ⟨_, hfind, hother⟩

theorem StandsAt.isClass_iff
    (hmade : round.IsMadeOf units) {id : ElementId} {place : List Declaration}
    (h : round.StandsAt units unit id place) :
    round.isClass id ↔ place.head?.elim .package Declaration.kind = .classType := by
  obtain ⟨found, hget, -, hkind⟩ := h.exists_get? hmade
  rw [isClass, hget, ← hkind]
  exact decide_eq_true_iff

end Reading

section Counting

/-- The packages that have an element are those of the units. -/
theorem isSome_find?_packages_iff (units : List CompilationUnit) (name : String) :
    ((ofUnits units).packages.find? name).isSome ↔
      name ∈ units.map fun unit => unit.package.getD "" := by
  induction units using List.reverseRecOn with
  | nil => simp [ofUnits, empty, NameIndex.find?_empty]
  | append_singleton units unit ih =>
      rw [ofUnits_concat, packages_addUnit, openUnit, isSome_find?_package_iff, List.map_append,
        List.mem_append, ← ih, List.map_singleton, List.mem_singleton]
      exact or_congr_right eq_comm

/-- A round has an element for every declaration and one for every package. -/
theorem size_ofUnits (units : List CompilationUnit) :
    (ofUnits units).elements.size =
      (units.map fun unit => sizeOfAll unit.types).sum +
        (units.map fun unit => unit.package.getD "").toFinset.card := by
  induction units using List.reverseRecOn with
  | nil => rfl
  | append_singleton units unit ih =>
      have hopen : ((ofUnits units).openUnit unit).1.elements.size =
          (ofUnits units).elements.size +
            if ((ofUnits units).packages.find? (unit.package.getD "")).isSome then 0 else 1 :=
        size_package _ _
      simp only [isSome_find?_packages_iff] at hopen
      rw [ofUnits_concat, size_addUnit, hopen, ih, List.map_append, List.map_append, List.sum_append,
        List.toFinset_append, List.map_singleton, List.map_singleton, List.sum_singleton,
        List.toFinset_cons, List.toFinset_nil, insert_empty_eq, Finset.union_singleton]
      by_cases hknown : unit.package.getD "" ∈ units.map fun unit => unit.package.getD ""
      · rw [if_pos hknown, Finset.insert_eq_of_mem (List.mem_toFinset.2 hknown)]
        omega
      · rw [if_neg hknown, Finset.card_insert_of_notMem (mt List.mem_toFinset.1 hknown)]
        omega

/-- The number of elements does not depend on the order of the units. -/
theorem size_ofUnits_of_perm {units others : List CompilationUnit} (h : units.Perm others) :
    (ofUnits units).elements.size = (ofUnits others).elements.size := by
  rw [size_ofUnits, size_ofUnits]
  congr 1
  · exact (h.map _).sum_eq
  · rw [List.toFinset_eq_of_perm _ _ (h.map _)]

end Counting

/-- Two rounds of the same units in different orders. -/
structure AreReordered (first second : SourceRound) (units others : List CompilationUnit) : Prop
    where
  first_made : first.IsMadeOf units
  second_made : second.IsMadeOf others
  perm : units.Perm others
  distinct : HaveDistinctTypes units
  first_size : first.elements.size < ElementId.count
  second_size : second.elements.size < ElementId.count

namespace AreReordered

variable {first second : SourceRound} {units others : List CompilationUnit}
  {unit : CompilationUnit}

theorem of_perm
    (hperm : units.Perm others) (hdistinct : HaveDistinctTypes units)
    (hsize : (ofUnits units).elements.size < ElementId.count) :
    AreReordered (ofUnits units) (ofUnits others) units others := by
  have hothers : (ofUnits others).elements.size < ElementId.count := by
    rw [← size_ofUnits_of_perm hperm]
    exact hsize
  exact ⟨isMadeOf_ofUnits units hsize, isMadeOf_ofUnits others hothers, hperm, hdistinct, hsize,
    hothers⟩

theorem distinct_others (h : AreReordered first second units others) :
    HaveDistinctTypes others :=
  (h.perm.flatMap_right CompilationUnit.typeNames).nodup_iff.1 h.distinct

theorem symm (h : AreReordered first second units others) :
    AreReordered second first others units :=
  ⟨h.second_made, h.first_made, h.perm.symm, h.distinct_others, h.second_size, h.first_size⟩

/-- The place of an element of one round is one of the other. -/
theorem exists_standsAt
    (h : AreReordered first second units others) {id : ElementId} {place : List Declaration}
    (hstands : first.StandsAt units unit id place) :
    ∃ other, second.StandsAt others unit other place :=
  h.second_made.exists_standsAt h.second_size (h.perm.mem_iff.1 hstands.mem_units)
    hstands.hasPlace

/-- A name leads to the same place in both rounds. -/
theorem exists_find?
    (h : AreReordered first second units others) {name : String} {id : ElementId}
    (hfind : first.types.find? name = some id) :
    ∃ unit place other, isTypePlace place ∧ first.StandsAt units unit id place ∧
      second.types.find? name = some other ∧ second.StandsAt others unit other place := by
  obtain ⟨unit, place, hstands, htype, rfl⟩ := h.first_made.exists_place_of_find? h.first_size hfind
  obtain ⟨other, hother, hotherStands⟩ := h.second_made.exists_find?_of_place h.second_size
    h.distinct_others (h.perm.mem_iff.1 hstands.mem_units) hstands.hasPlace htype
  exact ⟨unit, place, other, htype, hstands, hother, hotherStands⟩

theorem namesClass_of_namesClass
    (h : AreReordered first second units others) {name : String} (hname : first.namesClass name) :
    second.namesClass name := by
  rw [namesClass, Option.any_eq_true] at hname ⊢
  obtain ⟨id, hfind, hclass⟩ := hname
  obtain ⟨unit, place, other, -, hstands, hother, hotherStands⟩ := h.exists_find? hfind
  refine ⟨other, hother, ?_⟩
  rw [hotherStands.isClass_iff h.second_made]
  exact (hstands.isClass_iff h.first_made).1 hclass

theorem namesClass_eq (h : AreReordered first second units others) :
    first.namesClass = second.namesClass := by
  funext name
  rw [Bool.eq_iff_iff]
  exact ⟨h.namesClass_of_namesClass, h.symm.namesClass_of_namesClass⟩

/-- The superclasses of elements at one place stand at one place. -/
theorem exists_superclass?
    (h : AreReordered first second units others) {id other : ElementId} {place : List Declaration}
    (hid : first.StandsAt units unit id place) (hother : second.StandsAt others unit other place)
    {ancestor : ElementId} (hsuper : first.superclass? id = some ancestor) :
    ∃ unit place match', first.StandsAt units unit ancestor place ∧
      second.superclass? other = some match' ∧ second.StandsAt others unit match' place := by
  rw [hid.superclass?_eq h.first_made] at hsuper
  rw [hother.superclass?_eq h.second_made, ← h.namesClass_eq]
  obtain ⟨name, hname, hfind⟩ := Option.bind_eq_some_iff.1 hsuper
  obtain ⟨found, place, other, -, hstands, hotherFind, hotherStands⟩ := h.exists_find? hfind
  refine ⟨found, place, other, hstands, ?_, hotherStands⟩
  rw [hname]
  exact hotherFind

/-- So do their superclasses at every distance. -/
theorem exists_superclassAfter?
    (h : AreReordered first second units others) {id other : ElementId} {place : List Declaration}
    (hid : first.StandsAt units unit id place) (hother : second.StandsAt others unit other place)
    {n : Nat} {ancestor : ElementId} (hafter : first.superclassAfter? id n = some ancestor) :
    ∃ unit place match', first.StandsAt units unit ancestor place ∧
      second.superclassAfter? other n = some match' ∧
      second.StandsAt others unit match' place := by
  induction n generalizing ancestor with
  | zero =>
      obtain rfl := Option.some.inj hafter
      exact ⟨unit, place, other, hid, rfl, hother⟩
  | succ n ih =>
      obtain ⟨middle, hmiddle, hsuper⟩ := Option.bind_eq_some_iff.1 hafter
      obtain ⟨found, around, otherMiddle, hstands, hotherAfter, hotherStands⟩ := ih hmiddle
      obtain ⟨last, lastPlace, otherLast, hlast, hotherSuper, hotherLast⟩ :=
        h.exists_superclass? hstands hotherStands hsuper
      refine ⟨last, lastPlace, otherLast, hlast, ?_, hotherLast⟩
      rw [superclassAfter?, hotherAfter]
      exact hotherSuper

theorem carries_of_carries
    (h : AreReordered first second units others) {id other : ElementId} {place : List Declaration}
    (hid : first.StandsAt units unit id place) (hother : second.StandsAt others unit other place)
    {identifier : String} (hcarries : first.carries id identifier) :
    second.carries other identifier := by
  rw [hother.carries_iff h.second_made]
  exact ((hid.carries_iff h.first_made identifier).1 hcarries).of_perm h.perm

theorem isInherited_of_isInherited
    (h : AreReordered first second units others) {identifier : String}
    (hinherited : first.isInherited identifier) : second.isInherited identifier := by
  rw [isInherited, Bool.or_eq_true, Option.any_eq_true] at hinherited ⊢
  rcases hinherited with hscope | ⟨id, hfind, hspec⟩
  · exact Or.inl hscope
  · obtain ⟨unit, place, other, -, hstands, hother, hotherStands⟩ := h.exists_find? hfind
    obtain ⟨hkind, hcarries⟩ := Bool.and_eq_true_iff.1 hspec
    refine Or.inr ⟨other, hother, Bool.and_eq_true_iff.2 ⟨?_, ?_⟩⟩
    · obtain ⟨found, hget, -, hfound⟩ := hstands.exists_get? h.first_made
      obtain ⟨same, hsame, -, hotherKind⟩ := hotherStands.exists_get? h.second_made
      rw [hget, Option.any_some, hfound] at hkind
      rw [hsame, Option.any_some, hotherKind]
      exact hkind
    · exact h.carries_of_carries hstands hotherStands hcarries

/-- An annotated element of one round has an annotated one at its place in the other. -/
theorem mem_annotated_of_mem_annotated
    (h : AreReordered first second units others) {id other : ElementId} {place : List Declaration}
    (hid : first.StandsAt units unit id place) (hother : second.StandsAt others unit other place)
    {identifier : String} (hmem : id ∈ first.annotated identifier) :
    other ∈ second.annotated identifier := by
  have hused : ∀ {unit : CompilationUnit} {place : List Declaration} {id other : ElementId},
      first.StandsAt units unit id place → second.StandsAt others unit other place →
        IsUsedOn units identifier id → IsUsedOn others identifier other := by
    intro unit place id other hid hother hid'
    rw [← h.first_made.carries_iff h.first_size] at hid'
    rw [← h.second_made.carries_iff h.second_size]
    exact h.carries_of_carries hid hother hid'
  rw [h.first_made.mem_annotated_iff h.first_size] at hmem
  rw [h.second_made.mem_annotated_iff h.second_size]
  rcases hmem with hself | ⟨hinherited, ⟨found, hget, hkind⟩, n, ancestor, hpos, hafter, hancestor⟩
  · exact Or.inl (hused hid hother hself)
  · right
    obtain ⟨last, lastPlace, otherLast, hlast, hotherAfter, hotherLast⟩ :=
      h.exists_superclassAfter? hid hother hafter
    refine ⟨?_, ?_, n, otherLast, hpos, hotherAfter, hused hlast hotherLast hancestor⟩
    · rw [← h.first_made.isInherited_iff h.first_size] at hinherited
      rw [← h.second_made.isInherited_iff h.second_size]
      exact h.isInherited_of_isInherited hinherited
    · obtain ⟨same, hsame, -, hfound⟩ := hid.exists_get? h.first_made
      obtain ⟨otherFound, hotherGet, -, hotherKind⟩ := hother.exists_get? h.second_made
      obtain rfl := Option.some.inj (hget.symm.trans hsame)
      exact ⟨otherFound, hotherGet, hotherKind.trans (hfound.symm.trans hkind)⟩

theorem exists_annotated
    (h : AreReordered first second units others) {identifier : String} {kind : ElementKind}
    {name : String}
    (hfirst : ∃ id ∈ first.annotated identifier, ∃ found, first.get? id = some found ∧
      found.element.kind = kind ∧ found.element.qualifiedName = name) :
    ∃ id ∈ second.annotated identifier, ∃ found, second.get? id = some found ∧
      found.element.kind = kind ∧ found.element.qualifiedName = name := by
  obtain ⟨id, hmem, found, hget, rfl, rfl⟩ := hfirst
  obtain ⟨unit, place, hstands⟩ := h.first_made.exists_place h.first_size hget
  obtain ⟨other, hother⟩ := h.exists_standsAt hstands
  obtain ⟨same, hsame, hname, hkind⟩ := hstands.exists_get? h.first_made
  obtain ⟨otherFound, hotherGet, hotherName, hotherKind⟩ := hother.exists_get? h.second_made
  obtain rfl := Option.some.inj (hget.symm.trans hsame)
  exact ⟨other, h.mem_annotated_of_mem_annotated hstands hother hmem, otherFound, hotherGet,
    hotherKind.trans hkind.symm, hotherName.trans hname.symm⟩

/-- A class has its place, its name being that of the place. -/
theorem exists_class_place
    (h : AreReordered first second units others) {id : ElementId} (hclass : first.isClass id) :
    ∃ unit place, first.StandsAt units unit id place ∧ isTypePlace place ∧
      first.qualifiedName? id = some (unit.nameAt place) := by
  obtain ⟨found, hget⟩ := Option.isSome_iff_exists.1 (isSome_get?_of_isClass hclass)
  obtain ⟨unit, place, hstands⟩ := h.first_made.exists_place h.first_size hget
  obtain ⟨same, hsame, hname, -⟩ := hstands.exists_get? h.first_made
  have hkind := (hstands.isClass_iff h.first_made).1 hclass
  refine ⟨unit, place, hstands, ?_, ?_⟩
  · cases place with
    | nil => cases hkind
    | cons declaration outer =>
        have hsame : declaration.kind = .classType := hkind
        simp [isTypePlace, hsame, ElementKind.isType]
  · rw [qualifiedName?, hsame, Option.map_some, hname]

theorem exists_class
    (h : AreReordered first second units others) {name : String}
    (hfirst : ∃ id, first.isClass id ∧ first.qualifiedName? id = some name) :
    ∃ id, second.isClass id ∧ second.qualifiedName? id = some name := by
  obtain ⟨id, hclass, hname⟩ := hfirst
  obtain ⟨unit, place, hstands, -, hplaceName⟩ := h.exists_class_place hclass
  obtain ⟨other, hother⟩ := h.exists_standsAt hstands
  obtain ⟨found, hget, hotherName, -⟩ := hother.exists_get? h.second_made
  refine ⟨other, ?_, ?_⟩
  · rw [hother.isClass_iff h.second_made]
    exact (hstands.isClass_iff h.first_made).1 hclass
  · rw [← hname, hplaceName, qualifiedName?, hget, Option.map_some, hotherName]

/-- Rounds of the same units agree. -/
theorem agreesWith (h : AreReordered first second units others) : first.AgreesWith second := by
  refine ⟨?_, ?_, ?_⟩
  · intro identifier kind name
    exact ⟨h.exists_annotated, h.symm.exists_annotated⟩
  · intro name
    exact ⟨h.exists_class, h.symm.exists_class⟩
  · intro id other hid hother hnames
    obtain ⟨unit, place, hstands, htype, hname⟩ := h.exists_class_place hid
    obtain ⟨otherUnit, otherPlace, hotherStands, hotherType, hotherName⟩ :=
      h.symm.exists_class_place hother
    rw [hname, hotherName] at hnames
    -- Classes of one name stand at one place.
    obtain ⟨rfl, rfl⟩ := h.distinct.place_eq hstands.mem_units
      (h.perm.mem_iff.2 hotherStands.mem_units) hstands.hasPlace hotherStands.hasPlace htype
      hotherType (Option.some.inj hnames)
    cases hsuper : first.superclass? id with
    | some ancestor =>
        obtain ⟨last, lastPlace, otherLast, hlast, hotherSuper, hotherLast⟩ :=
          h.exists_superclass? hstands hotherStands hsuper
        obtain ⟨found, hget, hlastName, -⟩ := hlast.exists_get? h.first_made
        obtain ⟨otherFound, hotherGet, hotherLastName, -⟩ := hotherLast.exists_get? h.second_made
        rw [hotherSuper, Option.bind_some, Option.bind_some, qualifiedName?, qualifiedName?, hget,
          hotherGet, Option.map_some, Option.map_some, hlastName, hotherLastName]
    | none =>
        cases hotherSuper : second.superclass? other with
        | none => rfl
        | some ancestor =>
            obtain ⟨_, _, found, _, hfound, _⟩ :=
              h.symm.exists_superclass? hotherStands hstands hotherSuper
            rw [hsuper] at hfound
            cases hfound

end AreReordered

end SourceRound

end ComponentMarkers.Source
