import ComponentMarkers.Proofs.Source.Accesses
import ComponentMarkers.Proofs.Source.Trees

/-!
# The representation of rounds

Whatever units are added to a new round or to one that ends a run, the elements, the two indexes of names
and the roots belong together: `Represents` says how.  Nothing that the round has stored leads out of it,
so nothing that is looked up in it by one of its numbers is missing.
-/

namespace ComponentMarkers.Source

open Text

namespace SourceRound

/-- The element at the index is a package of the name, and inside nothing. -/
def IsPackage (round : SourceRound) (name : String) (n : Nat) : Prop :=
  ∃ element, round.element? n = some element ∧ element.kind = .package ∧ element.enclosing = none ∧
    element.qualifiedName = name

/-- There is one package for each name that the units use, the one that the index of packages leads to,
and nothing else is inside nothing. -/
structure HasPackagesOf (round : SourceRound) (units : List CompilationUnit) : Prop where
  used : ∀ unit ∈ units, ∃ id, round.packages.find? (unit.package.getD "") = some id ∧
    ∀ n, round.IsPackage (unit.package.getD "") n ↔ n = id.index
  unused : ∀ name, (∀ unit ∈ units, unit.package.getD "" ≠ name) →
    round.packages.find? name = none ∧ ∀ n, ¬ round.IsPackage name n
  outermost : ∀ n element, round.element? n = some element → element.enclosing = none →
    round.IsPackage element.qualifiedName n

/-- What is looked up by a number of the round is there, and the numbers that are found are its own. -/
structure IsAccessible (round : SourceRound) : Prop where
  element : ∀ id, id.index < round.elements.size →
    ∃ found, round.elementAt id = .ok found ∧ round.toRound.table.get id = .ok found.element ∧
      round.sourceFile? id = found.source
  find : ∀ name kind id, round.find? name kind = some id →
    ∃ found, round.elementAt id = .ok found ∧ found.element.kind = kind ∧
      found.element.qualifiedName = name
  superclass : ∀ id, round.superclassAt id = .ok (round.superclass? id) ∧
    ∀ ancestor, round.superclass? id = some ancestor → ancestor.index < round.elements.size
  annotated : ∀ identifier, round.annotatedAt identifier = .ok (round.annotated identifier) ∧
    ∀ id ∈ round.annotated identifier, id.index < round.elements.size

/-- The round is made of the units, for which the given numbers were returned. -/
structure Represents (round : SourceRound) (units : List CompilationUnit)
    (returned : List (List ElementId)) : Prop where
  trees : round.HoldsTrees units returned
  packages : round.HasPackagesOf units
  type_iff : ∀ name id, round.types.find? name = some id ↔ round.IsFirstType name id.index
  roots_eq : round.roots = returned.flatten
  ascending : round.roots.Pairwise fun before after => before.index < after.index
  inRange : round.IsInRange
  accessible : round.IsAccessible

section Parts

variable {round : SourceRound} {units : List CompilationUnit} {returned : List (List ElementId)}

theorem Reached.packagesCover (h : Reached units round) : round.PackagesCover := by
  obtain ⟨roots, isOver, rfl⟩ := h.exists_framed
  exact (packagesCover_ofUnits units).of_eq (fun _ => rfl) rfl

theorem Reached.hasPackagesOf
    (h : Reached units round) (hsize : round.elements.size < ElementId.count) :
    round.HasPackagesOf units := by
  have hmade := h.isMadeOf hsize
  have hcover := h.packagesCover
  have hpackage : ∀ name id, round.packages.find? name = some id →
      round.IsPackage name id.index := by
    intro name id hid
    obtain ⟨found, hget, helement, -⟩ := hmade.packages name id hid
    refine ⟨found.element, element?_of_get? hget, ?_⟩
    rw [helement]
    exact ⟨rfl, rfl, rfl⟩
  refine ⟨?_, ?_, ?_⟩
  · intro unit hunit
    obtain ⟨k, hk, hget⟩ := List.mem_iff_getElem.1 hunit
    obtain ⟨hid, -⟩ := hmade.entered k unit (List.getElem?_eq_some_iff.2 ⟨hk, hget⟩)
    refine ⟨packageAt units k unit, hid, fun n => ⟨?_, ?_⟩⟩
    · rintro ⟨element, helement, -, hnone, hname⟩
      have hlt := lt_size_of_element? helement
      have hsame := hcover n element helement hnone
      rw [hname, hid] at hsame
      rw [Option.some.inj hsame, ElementId.index_ofIndex_of_lt (by omega)]
    · rintro rfl
      exact hpackage _ _ hid
  · intro name hunused
    have hnone : round.packages.find? name = none := by
      rw [Option.eq_none_iff_forall_ne_some]
      intro id hid
      obtain ⟨unit, hunit, hname⟩ := hmade.known name id hid
      exact hunused unit hunit hname
    refine ⟨hnone, ?_⟩
    rintro n ⟨element, helement, -, howner, hname⟩
    have hsome := hcover n element helement howner
    rw [hname, hnone] at hsome
    cases hsome
  · intro n element helement hnone
    have hlt := lt_size_of_element? helement
    have hknown := hpackage _ _ (hcover n element helement hnone)
    rwa [ElementId.index_ofIndex_of_lt (by omega)] at hknown

/-- The index of types leads to the first type of a name, and without one to nothing. -/
theorem IsMadeOf.type_iff
    (h : round.IsMadeOf units) (hsize : round.elements.size < ElementId.count) (name : String)
    (id : ElementId) : round.types.find? name = some id ↔ round.IsFirstType name id.index := by
  rw [h.types name id]
  constructor
  · rintro ⟨n, hfirst, rfl⟩
    have hlt := hfirst.1.lt_size
    rwa [ElementId.index_ofIndex_of_lt (by omega)]
  · intro hfirst
    exact ⟨id.index, hfirst, (ElementId.ofIndex_index id).symm⟩

/-- An element is inside nothing and extends nothing, or it is what was entered for a declaration inside
an element before it. -/
theorem IsMadeOf.get?_cases
    (h : round.IsMadeOf units) (hsize : round.elements.size < ElementId.count) {id : ElementId}
    {found : SourceElement} (hget : round.get? id = some found) :
    (found.element.enclosing = none ∧ found.superclass = none) ∨
      ∃ k unit owner ownerName, ∃ declaration : Declaration, units[k]? = some unit ∧
        found = declaration.entry k unit.path owner ownerName ∧ owner.index < id.index := by
  obtain ⟨unit, place, hstands⟩ := h.exists_place hsize hget
  cases hstands with
  | package _ hid =>
      obtain ⟨same, hsame, helement, hsuper, -⟩ := h.packages _ _ hid
      obtain rfl := Option.some.inj (hget.symm.trans hsame)
      rw [helement]
      exact Or.inl ⟨rfl, hsuper⟩
  | declared hunit _ _ hsame hlt =>
      obtain rfl := Option.some.inj (hget.symm.trans hsame)
      exact Or.inr ⟨_, unit, _, _, _, hunit, rfl, hlt⟩

theorem Returns.isInRange
    (h : round.Returns units returned) (hsize : round.elements.size < ElementId.count) :
    round.IsInRange := by
  have hmade := h.reached.isMadeOf hsize
  have hunits : ∀ (n : Nat) (unit : CompilationUnit), units[n]? = some unit →
      n < round.units.size := by
    intro n unit hunit
    rw [← Array.length_toList, hmade.units_eq, List.length_map]
    exact (List.getElem?_eq_some_iff.1 hunit).1
  refine ⟨?_, ?_, ?_, ?_, ?_, h.bounded⟩
  · intro n found owner hfound howner
    have hn := (Array.getElem?_eq_some_iff.1 hfound).1
    rcases hmade.get?_cases hsize (get?_ofIndex hsize hfound) with
      ⟨hnone, -⟩ | ⟨_, _, _, _, _, -, rfl, hlt⟩
    · rw [hnone] at howner
      cases howner
    · rw [ElementId.index_ofIndex_of_lt (Nat.lt_trans hn hsize)] at hlt
      rwa [← Option.some.inj howner]
  · intro n found hfound name hname
    obtain ⟨unit, hunit, -⟩ :=
      (hmade.usage_iff hsize (get?_ofIndex hsize hfound) name).1 hname
    exact hunits name.unit unit hunit
  · intro n found name hfound hname
    rcases hmade.get?_cases hsize (get?_ofIndex hsize hfound) with
      ⟨-, hnone⟩ | ⟨k, unit, _, _, declaration, hunit, rfl, -⟩
    · rw [hnone] at hname
      cases hname
    · obtain ⟨text, -, rfl⟩ := Option.map_eq_some_iff.1 hname
      exact hunits k unit hunit
  · intro name id hid
    obtain ⟨found, hfound, -⟩ := hmade.packages name id hid
    exact (Array.getElem?_eq_some_iff.1 hfound).1
  · intro name id hid
    exact ((hmade.type_iff hsize name id).1 hid).1.lt_size

theorem exists_get?_of_find?
    (hsize : round.elements.size < ElementId.count) {name : String} {kind : ElementKind}
    {id : ElementId} (h : round.find? name kind = some id) :
    ∃ found, round.get? id = some found ∧ found.element.kind = kind ∧
      found.element.qualifiedName = name := by
  obtain ⟨n, hn, rfl⟩ := Option.map_eq_some_iff.1 h
  obtain ⟨hlt, hspec, -⟩ := Array.findIdx?_eq_some_iff_getElem.1 hn
  rw [Bool.and_eq_true, decide_eq_true_eq, decide_eq_true_eq] at hspec
  exact ⟨round.elements[n], get?_ofIndex hsize (Array.getElem?_eq_getElem hlt), hspec⟩

theorem IsInRange.isAccessible
    (h : round.IsInRange) (hsize : round.elements.size < ElementId.count) :
    round.IsAccessible := by
  refine ⟨?_, ?_, ?_, ?_⟩
  · intro id hid
    obtain ⟨found, hget⟩ := exists_get?_of_lt hid
    refine ⟨found, elementAt_eq_ok hget, ?_, ?_⟩
    · rw [ElementTable.get, table_get?_of_get? hget]
    · rw [sourceFile?, hget]
      rfl
  · intro name kind id hid
    obtain ⟨found, hget, hspec⟩ := exists_get?_of_find? hsize hid
    exact ⟨found, elementAt_eq_ok hget, hspec⟩
  · intro id
    refine ⟨h.superclassAt_eq id, ?_⟩
    intro ancestor hancestor
    obtain ⟨found, hget⟩ :=
      Option.isSome_iff_exists.1 (isSome_get?_of_isClass (isClass_of_superclass? hancestor))
    exact (Array.getElem?_eq_some_iff.1 hget).1
  · intro identifier
    refine ⟨h.annotatedAt_eq hsize identifier, ?_⟩
    intro id hid
    exact lt_size_of_mem_ids hsize (List.mem_filter.1 hid).1

end Parts

/-- However units are added, from a new round or from one that ends a run, as long as the numbers of the
elements do not wrap around: every tree of declarations is a row of elements, owners before what they
hold, and begins at the number that was returned for it; each package has one element; the index of types
leads to the first type of each name; the roots are the numbers that were returned, in their order; and no
number that the round has stored is out of range, so that none of the lookups fails. -/
theorem addUnits_represents
    {start : SourceRound} (hstart : start = empty ∨ start = final) (units : List CompilationUnit)
    (hsize : (start.addUnits units).1.elements.size < ElementId.count) :
    (start.addUnits units).1.Represents units (start.addUnits units).2 := by
  have hreturns := returns_addUnits hstart units hsize
  have hrange := hreturns.isInRange hsize
  refine ⟨?_, ?_, ?_, ?_, ?_, ?_, ?_⟩
  · exact hreturns.holdsTrees hsize
  · exact hreturns.reached.hasPackagesOf hsize
  · exact (hreturns.reached.isMadeOf hsize).type_iff hsize
  · exact hreturns.roots_eq
  · exact hreturns.ascending
  · exact hrange
  · exact hrange.isAccessible hsize

/-- Three units, two of which are in one package and declare a class of the same name there. -/
def overlappingUnits : List CompilationUnit :=
  [⟨none, some "shop", [], [],
      [⟨.classType, "Cart", ["Singleton"], none,
        [⟨.record, "Item", [], none, [⟨.method, "total", [], none, []⟩]⟩,
          ⟨.field, "items", [], none, []⟩]⟩]⟩,
    ⟨none, none, [], [⟨"shop.Cart", false, false⟩], [⟨.classType, "Main", [], some "Cart", []⟩]⟩,
    ⟨none, some "shop", ["Internal"], [],
      [⟨.classType, "Cart", [], none, []⟩, ⟨.interface, "Shop", [], none, []⟩]⟩]

/-- The first unit makes five elements, its package among them, the second one two and the third one, whose
package is there already, two. -/
theorem addUnits_represents_overlappingUnits :
    (final.addUnits overlappingUnits).1.Represents overlappingUnits
      [[⟨1⟩], [⟨6⟩], [⟨7⟩, ⟨8⟩]] := by
  have hreturned : (final.addUnits overlappingUnits).2 = [[⟨1⟩], [⟨6⟩], [⟨7⟩, ⟨8⟩]] := by
    decide +kernel
  rw [← hreturned]
  exact addUnits_represents (Or.inr rfl) overlappingUnits (by decide +kernel)

end SourceRound

end ComponentMarkers.Source
