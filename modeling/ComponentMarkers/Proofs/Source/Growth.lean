import ComponentMarkers.Proofs.Source.Superclasses

/-!
# What one more unit leaves as it is

A unit adds elements behind those that were there, and a name that led somewhere leads there still.  What
an annotation or an `extends` text of an earlier unit stands for is fixed by that unit; only a type that
was not there before can come in between.  So annotations are never lost, while a superclass may give way
to a new class that an earlier name leads to, though to no other one.
-/

namespace ComponentMarkers.Source

open Text

namespace SourceRound

/-- The elements of a round are still there, and what was found before is found again.  The package of the
unit may carry more annotations.  A superclass may be another one only if that is new. -/
structure GrowsInto (round after : SourceRound) (unit : CompilationUnit) : Prop where
  get? : ∀ id found, round.get? id = some found →
    after.get? id = some found ∨
      found.element.kind = .package ∧ found.element.qualifiedName = unit.package.getD "" ∧
        after.get? id = some { found with
          annotations := found.annotations ++
            unit.packageAnnotations.map fun text => ⟨text, round.units.size⟩ }
  find? : ∀ name kind id, round.find? name kind = some id → after.find? name kind = some id
  carries : ∀ id identifier, round.carries id identifier → after.carries id identifier
  isInherited : ∀ identifier, round.isInherited identifier → after.isInherited identifier
  superclass? : ∀ id, (round.get? id).isSome →
    after.superclass? id = round.superclass? id ∨
      ∃ added, after.superclass? id = some added ∧ round.get? added = none ∧
        (after.get? added).isSome

section Extending

variable {before after : SourceRound}

theorem Extends.element?_eq
    (h : before.Extends after) {n : Nat} (hn : n < before.elements.size) :
    after.element? n = before.element? n := by
  obtain ⟨element, helement⟩ := exists_element?_of_lt hn
  rw [helement, h n element helement]

theorem Extends.size_le (h : before.Extends after) : before.elements.size ≤ after.elements.size := by
  by_contra hlt
  have hlast := h.element?_eq (Nat.lt_of_not_le hlt)
  obtain ⟨element, helement⟩ := exists_element?_of_lt (Nat.lt_of_not_le hlt)
  have hbound := lt_size_of_element? (hlast.trans helement)
  exact Nat.lt_irrefl _ hbound

theorem Extends.declaresType_iff
    (h : before.Extends after) (name : String) {n : Nat} (hn : n < before.elements.size) :
    after.DeclaresType name n ↔ before.DeclaresType name n := by
  rw [DeclaresType, DeclaresType, h.element?_eq hn]

/-- Among the elements that were there before, the same one is the first type of a name. -/
theorem Extends.isFirstType_iff
    (h : before.Extends after) (name : String) {n : Nat} (hn : n < before.elements.size) :
    after.IsFirstType name n ↔ before.IsFirstType name n := by
  rw [IsFirstType, IsFirstType, h.declaresType_iff name hn]
  apply and_congr_right
  intro _
  apply forall₂_congr
  intro m hm
  rw [h.declaresType_iff name (Nat.lt_trans hm hn)]

theorem isClass_eq (round : SourceRound) (id : ElementId) :
    round.isClass id = (round.element? id.index).any fun element => element.kind = .classType := by
  rw [isClass, element?, Option.any_map]
  rfl

/-- A class that a name leads to is still the class of that name. -/
theorem Extends.classNamed?
    (h : before.Extends after) (hsize : after.elements.size < ElementId.count) {name : String}
    {id : ElementId} (hclass : before.classNamed? name = some id) :
    after.classNamed? name = some id := by
  have hbefore := Nat.lt_of_le_of_lt h.size_le hsize
  rw [SourceRound.classNamed?, Option.filter_eq_some_iff, firstType?_eq_some_iff hbefore] at hclass
  obtain ⟨⟨n, hn, rfl⟩, hkind⟩ := hclass
  have hlt := hn.1.lt_size
  rw [SourceRound.classNamed?, Option.filter_eq_some_iff, firstType?_eq_some_iff hsize]
  refine ⟨⟨n, (h.isFirstType_iff name hlt).2 hn, rfl⟩, ?_⟩
  rw [isClass_eq, ElementId.index_ofIndex_of_lt (Nat.lt_trans hlt hbefore)] at hkind ⊢
  rw [h.element?_eq hlt]
  exact hkind

/-- A class that a name leads to is a new one unless the name led to it before. -/
theorem Extends.classNamed?_eq_or_new
    (h : before.Extends after) (hsize : after.elements.size < ElementId.count) {name : String}
    {id : ElementId} (hclass : after.classNamed? name = some id) :
    before.classNamed? name = some id ∨ before.get? id = none ∧ (after.get? id).isSome := by
  have hbefore := Nat.lt_of_le_of_lt h.size_le hsize
  rw [SourceRound.classNamed?, Option.filter_eq_some_iff, firstType?_eq_some_iff hsize] at hclass
  obtain ⟨⟨n, hn, rfl⟩, hkind⟩ := hclass
  have hindex := ElementId.index_ofIndex_of_lt (Nat.lt_trans hn.1.lt_size hsize)
  by_cases hlt : n < before.elements.size
  · left
    rw [SourceRound.classNamed?, Option.filter_eq_some_iff, firstType?_eq_some_iff hbefore]
    refine ⟨⟨n, (h.isFirstType_iff name hlt).1 hn, rfl⟩, ?_⟩
    rw [isClass_eq, hindex] at hkind ⊢
    rw [← h.element?_eq hlt]
    exact hkind
  · right
    constructor
    · rw [SourceRound.get?, hindex]
      exact Array.getElem?_eq_none (Nat.le_of_not_lt hlt)
    · exact isSome_get?_of_isClass hkind

/-- The first element with a name and a kind is found where it was found before. -/
theorem Extends.find?
    (h : before.Extends after) {name : String} {kind : ElementKind} {id : ElementId}
    (hfind : before.find? name kind = some id) : after.find? name kind = some id := by
  have hsearch : ∀ round : SourceRound, round.find? name kind =
      (((round.elements.toList.map SourceElement.element).findIdx? fun element =>
        element.kind = kind && element.qualifiedName = name).map ElementId.ofIndex) := by
    intro round
    rw [SourceRound.find?, List.findIdx?_map, ← List.findIdx?_toArray]
    rfl
  have hfront : before.elements.toList.map SourceElement.element <+:
      after.elements.toList.map SourceElement.element := by
    rw [List.prefix_iff_getElem?]
    intro n hn
    rw [List.length_map, Array.length_toList] at hn
    have hsame := h.element?_eq hn
    rw [element?, element?, Array.getElem?_eq_getElem hn] at hsame
    simpa using hsame
  rw [hsearch] at hfind ⊢
  obtain ⟨n, hn, rfl⟩ := Option.map_eq_some_iff.1 hfind
  rw [hfront.findIdx?_eq_some hn]
  rfl

end Extending

/-- Of two searches the second finds what the first finds or something new, if that is so for each name. -/
theorem findSome?_eq_or_new
    {α β : Type} {f g : α → Option β} {New : β → Prop} (hkeep : ∀ a b, f a = some b → g a = some b)
    (hnew : ∀ a b, g a = some b → f a = some b ∨ New b) (l : List α) :
    l.findSome? g = l.findSome? f ∨ ∃ b, l.findSome? g = some b ∧ New b := by
  induction l with
  | nil => exact Or.inl rfl
  | cons a rest ih =>
      rw [List.findSome?_cons, List.findSome?_cons]
      cases hg : g a with
      | none =>
          have hf : f a = none := by
            apply Option.eq_none_iff_forall_ne_some.2
            intro b hb
            rw [hkeep a b hb] at hg
            cases hg
          rw [hf]
          exact ih
      | some b =>
          rcases hnew a b hg with hf | hb
          · rw [hf]
            exact Or.inl rfl
          · exact Or.inr ⟨b, rfl, hb⟩

theorem extends_openUnit (round : SourceRound) (unit : CompilationUnit) :
    round.Extends (round.openUnit unit).1 := by
  rw [openUnit_eq]
  exact extends_package (round.withContext unit) (unit.package.getD "")

/-- A unit leaves every element that processors see as it is. -/
theorem extends_addUnit (round : SourceRound) (unit : CompilationUnit) :
    round.Extends (round.addUnit unit).1 := by
  apply addUnit_induction (extends_openUnit round unit)
  · intro middle id names h n element helement
    rw [element?_annotate]
    exact h n element helement
  · intro middle owner declaration h
    exact h.trans (extends_declare middle _ unit.path owner declaration)
  · intro middle roots isOver h
    exact h

section Adding

variable {round : SourceRound} {units : List CompilationUnit}

/-- What is written down for an element stays, but for further annotations of the unit's package. -/
theorem IsMadeOf.get?_addUnit
    (hmade : round.IsMadeOf units) (unit : CompilationUnit)
    (hsize : (round.addUnit unit).1.elements.size < ElementId.count) {id : ElementId}
    {found : SourceElement} (hget : round.get? id = some found) :
    (round.addUnit unit).1.get? id = some found ∨
      found.element =
          ⟨.package, lastSegment (unit.package.getD ""), unit.package.getD "", none⟩ ∧
        (round.addUnit unit).1.get? id = some { found with
          annotations := found.annotations ++
            unit.packageAnnotations.map fun text => ⟨text, round.units.size⟩ } := by
  rw [size_addUnit] at hsize
  have hpackages := hmade.packages.openUnit unit
    (Nat.lt_of_le_of_lt (Nat.le_add_right _ _) hsize) hmade.isSome_find?
  have hpackage := (find?_openUnit round unit _).trans (if_pos rfl)
  have hopen := (keeps_openUnit round unit).get? hget
  obtain ⟨roots, hadd⟩ := exists_addUnit_eq round unit
  rw [hadd]
  have hkeeps : (round.withPackageOf unit).Keeps
      (((round.withPackageOf unit).insertAll round.units.size unit.path (round.openUnit unit).2
        unit.types).framed roots (round.openUnit unit).1.isOver) := by
    apply insertAll_induction (P := fun after => (round.withPackageOf unit).Keeps after)
    · intro after owner declaration h
      exact h.trans (keeps_declare after _ _ owner declaration)
    · intro n kept hkept
      exact hkept
  by_cases hsame : id = (round.openUnit unit).2
  · right
    obtain ⟨package, hpackageGet, helement, -⟩ := hpackages _ _ hpackage
    rw [← hsame] at hpackageGet
    obtain rfl := Option.some.inj (hopen.symm.trans hpackageGet)
    refine ⟨helement, hkeeps.get? ?_⟩
    rw [withPackageOf, ← hsame]
    exact get?_annotate_self _ id _ hopen
  · left
    have hne : id.index ≠ (round.openUnit unit).2.index := by
      intro hindex
      apply hsame
      rw [← ElementId.ofIndex_index id, hindex, ElementId.ofIndex_index]
    exact hkeeps.get? ((getElem?_annotate_of_ne _ _ hne).trans hopen)

/-- Places stay where they are. -/
theorem StandsAt.addUnit
    (hmade : round.IsMadeOf units) {unit : CompilationUnit}
    (hafter : (round.addUnit unit).1.IsMadeOf (units ++ [unit]))
    (hsize : (round.addUnit unit).1.elements.size < ElementId.count) {old : CompilationUnit}
    {id : ElementId} {place : List Declaration} (h : round.StandsAt units old id place) :
    (round.addUnit unit).1.StandsAt (units ++ [unit]) old id place := by
  induction h with
  | package hunit hid =>
      refine .package (List.mem_append_left _ hunit) ?_
      -- The element of the package was there, and the round has one for each package only.
      obtain ⟨found, hget, helement, -⟩ := hmade.packages _ _ hid
      obtain ⟨k, hk, hold⟩ := List.mem_iff_getElem.1 hunit
      have hentered := hafter.entered k old (by
        rw [List.getElem?_append_left hk, List.getElem?_eq_getElem hk, hold])
      rw [hentered.1, packageAt_concat (Nat.le_of_lt hk)]
      have hbefore := (hmade.entered k old (by rw [List.getElem?_eq_getElem hk, hold])).1
      rw [← hbefore, hid]
  | @declared k _ owner outer declaration hunit _ hdeclared hget hlt ih =>
      have hlong := (List.getElem?_eq_some_iff.1 hunit).1
      refine .declared (k := k) ?_ ih hdeclared ?_ hlt
      · rw [List.getElem?_append_left hlong, hunit]
      · rcases hmade.get?_addUnit unit hsize hget with hsame | ⟨helement, -⟩
        · exact hsame
        · have howner := congrArg Element.enclosing helement
          cases howner

/-- Texts of earlier units are written where they were. -/
theorem IsUsedOn.concat
    {identifier : String} {id : ElementId} (h : IsUsedOn units identifier id)
    (unit : CompilationUnit) : IsUsedOn (units ++ [unit]) identifier id := by
  obtain ⟨k, old, text, hold, hwritten, hdenotes⟩ := h
  have hlt := (List.getElem?_eq_some_iff.1 hold).1
  refine ⟨k, old, text, ?_, ?_, hdenotes⟩
  · rw [List.getElem?_append_left hlt, hold]
  · cases hwritten with
    | package htext =>
        rw [← packageAt_concat (Nat.le_of_lt hlt) unit old]
        exact .package htext
    | declaration htop hwithin htext =>
        refine .declaration ?_ hwithin htext
        rw [typesAt_concat (Nat.le_of_lt hlt)]
        exact htop

/-- One more unit extends a round without disturbing it. -/
theorem Reached.growsInto
    (h : Reached units round) (unit : CompilationUnit)
    (hsize : (round.addUnit unit).1.elements.size < ElementId.count) :
    round.GrowsInto (round.addUnit unit).1 unit := by
  have hextends := extends_addUnit round unit
  have hbefore := Nat.lt_of_le_of_lt hextends.size_le hsize
  have hmade := h.isMadeOf hbefore
  have hafter := (h.addUnit unit).isMadeOf hsize
  refine ⟨?_, ?_, ?_, ?_, ?_⟩
  · intro id found hget
    apply (hmade.get?_addUnit unit hsize hget).imp_right
    rintro ⟨helement, hlater⟩
    refine ⟨?_, ?_, hlater⟩
    · rw [helement]
    · rw [helement]
  · intro name kind id hfind
    exact hextends.find? hfind
  · intro id identifier hcarries
    rw [hafter.carries_iff hsize]
    exact ((hmade.carries_iff hbefore id identifier).1 hcarries).concat unit
  · intro identifier hinherited
    rw [hafter.isInherited_iff hsize]
    apply ((hmade.isInherited_iff hbefore identifier).1 hinherited).imp_right
    rintro ⟨n, element, hn, helement, hkind, hused⟩
    exact ⟨n, element, (hextends.isFirstType_iff identifier hn.1.lt_size).2 hn,
      hextends n element helement, hkind, hused.concat unit⟩
  · intro id hid
    obtain ⟨found, hget⟩ := Option.isSome_iff_exists.1 hid
    obtain ⟨old, place, hstands⟩ := hmade.exists_place hbefore hget
    rw [hstands.superclass?_eq_findSome? hmade hbefore,
      (hstands.addUnit hmade hafter hsize).superclass?_eq_findSome? hafter hsize]
    apply findSome?_eq_or_new
    · intro name ancestor hclass
      exact hextends.classNamed? hsize hclass
    · intro name ancestor hclass
      exact hextends.classNamed?_eq_or_new hsize hclass

end Adding

/-- A class that extends an imported one. -/
def orderUnit : CompilationUnit where
  path := none
  package := some "shop"
  packageAnnotations := ["Module"]
  imports := [⟨"lib", true, false⟩, ⟨"javax.enterprise.context", true, false⟩]
  types := [⟨.classType, "Order", ["SessionScoped"], some "Base", []⟩]

/-- The class that is imported. -/
def libraryUnit : CompilationUnit where
  path := none
  package := some "lib"
  packageAnnotations := []
  imports := []
  types := [⟨.classType, "Base", [], none, []⟩]

/-- A class of the same name in the package of the class that extends it. -/
def baseUnit : CompilationUnit where
  path := none
  package := some "shop"
  packageAnnotations := ["Open"]
  imports := []
  types := [⟨.classType, "Base", [], none, []⟩]

/-- The new class comes before the imported one, and the package has one more annotation. -/
theorem growsInto_baseUnit :
    let round := ((empty.addUnit orderUnit).1.addUnit libraryUnit).1
    let after := (round.addUnit baseUnit).1
    Reached [orderUnit, libraryUnit] round ∧ after.elements.size < ElementId.count ∧
      round.GrowsInto after baseUnit ∧
      round.superclass? ⟨1⟩ = some ⟨3⟩ ∧ after.superclass? ⟨1⟩ = some ⟨4⟩ ∧
      (round.get? ⟨0⟩).map SourceElement.annotations = some [⟨"Module", 0⟩] ∧
      (after.get? ⟨0⟩).map SourceElement.annotations = some [⟨"Module", 0⟩, ⟨"Open", 2⟩] := by
  intro round after
  have hreached : Reached [orderUnit, libraryUnit] round :=
    (Reached.addUnit .new orderUnit).addUnit libraryUnit
  have hsize : after.elements.size < ElementId.count := by decide +kernel
  refine ⟨hreached, hsize, hreached.growsInto baseUnit hsize, ?_, ?_, ?_, ?_⟩
  all_goals decide +kernel

end SourceRound

end ComponentMarkers.Source
