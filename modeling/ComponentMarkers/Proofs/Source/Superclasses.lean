import ComponentMarkers.Proofs.Source.Imports
import ComponentMarkers.Proofs.Source.Reordering

/-!
# Superclasses by linear search

Where an `extends` text leads is decided by an order of names: members of the types around the class come
first, from inside out, then what the name means in the unit, and for a dotted text the text itself.  The
first of these names under which a class was declared first gives the superclass.  Here this is said by
going through the elements of the round one by one, with no index of names and no bound on the walk
outwards.
-/

namespace ComponentMarkers.Source

open Text

/-- The qualified names that a simple name may stand for in a unit, the nearest first.  The first import
that brings the name into scope by itself leaves no other. -/
def CompilationUnit.meanings (unit : CompilationUnit) (simple : String) : List String :=
  match unit.imports.find? fun item =>
      !item.isStatic && !item.onDemand && lastSegment item.name = simple with
  | some item => [item.name]
  | none =>
    (unit.package.getD "" ::
      ((unit.imports.filter fun item => !item.isStatic && item.onDemand).map Import.name ++
        ["java.lang"])).map fun package => qualify package simple

/-- The qualified names that a simple name may stand for in a class of a unit, `owners` being the names of
the types around the class, the innermost first. -/
def CompilationUnit.meaningsInside (unit : CompilationUnit) (owners : List String) (simple : String) :
    List String :=
  owners.map (fun owner => owner ++ "." ++ simple) ++ unit.meanings simple

theorem typeCandidates_context (unit : CompilationUnit) (simple : String) :
    unit.context.typeCandidates simple = unit.meanings simple := by
  have himported : unit.context.imported? simple =
      (unit.imports.find? fun item =>
        !item.isStatic && !item.onDemand && lastSegment item.name = simple).map Import.name := by
    simp only [ImportContext.imported?, CompilationUnit.context, ImportContext.ofImports, List.find?_map,
      List.filter_filter, List.find?_filter]
    congr 2
    funext item
    simp [Bool.and_comm]
  rw [ImportContext.typeCandidates, himported, CompilationUnit.meanings]
  cases unit.imports.find? fun item =>
      !item.isStatic && !item.onDemand && lastSegment item.name = simple with
  | some item => rfl
  | none =>
      simp [CompilationUnit.context, ImportContext.ofImports, implicitPackage, List.filter_filter,
        Bool.and_comm]

namespace SourceRound

/-- The first element that declares a type with the qualified name. -/
def firstType? (round : SourceRound) (name : String) : Option ElementId :=
  round.ids.find? fun id => (round.get? id).any fun found =>
    found.element.kind.isType && found.element.qualifiedName = name

/-- The class with the qualified name, if the first type declared under the name is a class. -/
def classNamed? (round : SourceRound) (name : String) : Option ElementId :=
  (round.firstType? name).filter round.isClass

/-- The qualified names of the types met on the way outwards from an owner, the innermost first.  The way
ends at the first element that is no type. -/
inductive HasTypesAround (round : SourceRound) : Option ElementId → List String → Prop where
  | none : HasTypesAround round none []
  | notType {id : ElementId} {found : SourceElement} (hget : round.get? id = some found)
      (hkind : found.element.kind.isType = false) : HasTypesAround round (some id) []
  | type {id : ElementId} {found : SourceElement} {names : List String}
      (hget : round.get? id = some found) (hkind : found.element.kind.isType)
      (haround : HasTypesAround round found.element.enclosing names) :
      HasTypesAround round (some id) (found.element.qualifiedName :: names)

/-- There is one way outwards. -/
theorem HasTypesAround.unique
    {round : SourceRound} {owner : Option ElementId} {names others : List String}
    (h : round.HasTypesAround owner names) (h' : round.HasTypesAround owner others) :
    names = others := by
  have hkinds : ∀ {id : ElementId} {found same : SourceElement}, round.get? id = some found →
      round.get? id = some same → found.element.kind.isType = same.element.kind.isType := by
    intro id found same hfound hsame
    rw [Option.some.inj (hfound.symm.trans hsame)]
  induction h generalizing others with
  | none =>
      cases h'
      rfl
  | notType hget hkind =>
      cases h' with
      | notType _ _ => rfl
      | type hsame hother _ => simp [← hkinds hget hsame, hkind] at hother
  | type hget hkind _ ih =>
      cases h' with
      | notType hsame hother => simp [← hkinds hget hsame, hkind] at hother
      | type hsame _ haround =>
          obtain rfl := Option.some.inj (hget.symm.trans hsame)
          rw [ih haround]

section Search

variable {round : SourceRound}

theorem any_get?_ofIndex_iff
    (hsize : round.elements.size < ElementId.count) (name : String) {n : Nat}
    (hn : n < round.elements.size) :
    ((round.get? (.ofIndex n)).any fun found =>
        found.element.kind.isType && found.element.qualifiedName = name) ↔
      round.DeclaresType name n := by
  rw [get?, ElementId.index_ofIndex_of_lt (Nat.lt_trans hn hsize), DeclaresType, element?,
    Array.getElem?_eq_getElem hn]
  simp

/-- The search finds the first declaration. -/
theorem firstType?_eq_some_iff
    (hsize : round.elements.size < ElementId.count) (name : String) (id : ElementId) :
    round.firstType? name = some id ↔ ∃ n, round.IsFirstType name n ∧ id = .ofIndex n := by
  rw [firstType?, ids, List.find?_map, Option.map_eq_some_iff]
  constructor
  · rintro ⟨n, hfind, rfl⟩
    obtain ⟨hself, hmem, hbefore⟩ := List.find?_range_eq_some.1 hfind
    have hn := List.mem_range.1 hmem
    refine ⟨n, ⟨(any_get?_ofIndex_iff hsize name hn).1 hself, ?_⟩, rfl⟩
    intro m hm hdeclares
    have hnot := hbefore m hm
    rw [Function.comp_apply, (any_get?_ofIndex_iff hsize name (Nat.lt_trans hm hn)).2 hdeclares] at hnot
    cases hnot
  · rintro ⟨n, hfirst, rfl⟩
    have hn := hfirst.1.lt_size
    refine ⟨n, List.find?_range_eq_some.2 ⟨?_, List.mem_range.2 hn, ?_⟩, rfl⟩
    · exact (any_get?_ofIndex_iff hsize name hn).2 hfirst.1
    · intro m hm
      rw [Bool.not_eq_true', ← Bool.not_eq_true, Function.comp_apply,
        any_get?_ofIndex_iff hsize name (Nat.lt_trans hm hn)]
      exact hfirst.2 m hm

/-- The index of types leads where the search leads. -/
theorem IndexesTypes.find?_eq_firstType?
    (h : round.IndexesTypes) (hsize : round.elements.size < ElementId.count) (name : String) :
    round.types.find? name = round.firstType? name := by
  apply Option.ext
  intro id
  rw [h name id, firstType?_eq_some_iff hsize]

/-- The first name that leads to a class, and that class, are found at once. -/
theorem bind_find?_any {α β : Type} (f : α → Option β) (p : β → Bool) (l : List α) :
    (l.find? fun a => (f a).any p).bind f = l.findSome? fun a => (f a).filter p := by
  rw [← List.find?_filterMap, ← List.head?_filter, List.filter_filterMap, List.head?_filterMap]

/-- The types around an element are the ones around its place. -/
theorem StandsAt.hasTypesAround
    {units : List CompilationUnit} {unit : CompilationUnit} (hmade : round.IsMadeOf units)
    {id : ElementId} {place : List Declaration} (h : round.StandsAt units unit id place) :
    round.HasTypesAround (some id) (unit.typesAround place) := by
  induction h with
  | package _ hid =>
      obtain ⟨found, hget, helement, -⟩ := hmade.packages _ _ hid
      apply HasTypesAround.notType hget
      rw [helement]
      rfl
  | @declared k id owner outer declaration hunit _ _ hget _ ih =>
      rw [CompilationUnit.typesAround]
      by_cases hkind : declaration.kind.isType
      · rw [if_pos hkind]
        exact HasTypesAround.type hget hkind ih
      · rw [if_neg hkind]
        exact HasTypesAround.notType hget (Bool.eq_false_iff.2 hkind)

end Search

end SourceRound

section Names

variable (unit : CompilationUnit) (owners : List String)

theorem superclassNames_of_not_mem {text : String} (h : '.' ∉ text.toList) :
    superclassNames owners unit.context text = unit.meaningsInside owners text := by
  rw [superclassNames, splitFirst?_of_not_mem h]
  dsimp only
  rw [typeCandidates_context, CompilationUnit.meaningsInside]

theorem superclassNames_append_dot {first : String} (h : '.' ∉ first.toList) (rest : String) :
    superclassNames owners unit.context (first ++ "." ++ rest) =
      (unit.meaningsInside owners first).map (fun meaning => meaning ++ "." ++ rest) ++
        [first ++ "." ++ rest] := by
  rw [superclassNames, splitFirst?_append_dot h]
  dsimp only
  rw [typeCandidates_context, CompilationUnit.meaningsInside]

end Names

namespace SourceRound

variable {round : SourceRound} {units : List CompilationUnit} {unit : CompilationUnit}

/-- The superclass of an element is the first class that the search comes to. -/
theorem StandsAt.superclass?_eq_findSome?
    (hmade : round.IsMadeOf units) (hsize : round.elements.size < ElementId.count) {id : ElementId}
    {place : List Declaration} (h : round.StandsAt units unit id place) :
    round.superclass? id = (unit.superclassNamesAt place).findSome? round.classNamed? := by
  rw [h.superclass?_eq hmade]
  have hsearch : round.namesClass = fun name => (round.firstType? name).any round.isClass := by
    funext name
    rw [namesClass, hmade.types.find?_eq_firstType? hsize]
  have hfind : round.types.find? = round.firstType? :=
    funext (hmade.types.find?_eq_firstType? hsize)
  rw [hsearch, hfind]
  exact bind_find?_any round.firstType? round.isClass _

/-- The superclass of an element is what the order of names leads to.  Nothing leads anywhere for numbers
of no element and for elements without an `extends` text.  The text of any other element is that of a
declaration of a unit; `owners` are the types around it.  Note that the name of a member is put together
with a dot even where the type around it has no name. -/
theorem Reached.superclass?_eq_search
    (h : Reached units round) (hsize : round.elements.size < ElementId.count) (id : ElementId) :
    (round.get? id = none → round.superclass? id = none) ∧
      ∀ found, round.get? id = some found →
        (found.superclass = none → round.superclass? id = none) ∧
          ∀ name, found.superclass = some name →
            ∃ unit declaration outer owners, units[name.unit]? = some unit ∧
              round.StandsAt units unit id (declaration :: outer) ∧
              declaration.superclass = some name.text ∧
              round.HasTypesAround found.element.enclosing owners ∧
              ('.' ∉ name.text.toList → round.superclass? id =
                (unit.meaningsInside owners name.text).findSome? round.classNamed?) ∧
              ∀ first rest, '.' ∉ first.toList → name.text = first ++ "." ++ rest →
                round.superclass? id =
                  ((unit.meaningsInside owners first).map (fun meaning => meaning ++ "." ++ rest) ++
                    [name.text]).findSome? round.classNamed? := by
  have hmade := h.isMadeOf hsize
  refine ⟨?_, ?_⟩
  · intro hnone
    rw [superclass?, hnone]
    rfl
  intro found hget
  refine ⟨?_, ?_⟩
  · intro hnone
    rw [superclass?, hget]
    change found.superclass.bind _ = _
    rw [hnone]
    rfl
  intro name hname
  obtain ⟨unit, place, hstands⟩ := hmade.exists_place hsize hget
  have hplace := hstands
  cases hstands with
  | package _ hid =>
      obtain ⟨same, hsame, -, hsuper, -⟩ := hmade.packages _ _ hid
      obtain rfl := Option.some.inj (hget.symm.trans hsame)
      rw [hsuper] at hname
      cases hname
  | @declared k _ owner outer declaration hunit howner _ hentry _ =>
      obtain rfl := Option.some.inj (hget.symm.trans hentry)
      obtain ⟨text, htext, rfl⟩ := Option.map_eq_some_iff.1 hname
      have hsearch := hplace.superclass?_eq_findSome? hmade hsize
      rw [CompilationUnit.superclassNamesAt, htext, Option.map_some, Option.getD_some] at hsearch
      refine ⟨unit, declaration, outer, unit.typesAround outer, hunit, hplace, htext,
        howner.hasTypesAround hmade, ?_, ?_⟩
      · intro hdot
        rw [hsearch, superclassNames_of_not_mem unit _ hdot]
      · rintro first rest hdot hsplit
        dsimp only at hsplit
        rw [hsearch, hsplit, superclassNames_append_dot unit _ hdot]

/-- A class beside the type that has a member of the same name. -/
def lineUnit : CompilationUnit where
  path := none
  package := some "shop"
  packageAnnotations := []
  imports := []
  types := [⟨.classType, "Base", [], none, []⟩,
    ⟨.classType, "Cart", [], none,
      [⟨.classType, "Base", [], none, []⟩, ⟨.classType, "Line", [], some "Base", []⟩]⟩]

/-- A class that extends the member of an imported type. -/
def pageUnit : CompilationUnit where
  path := none
  package := some "web"
  packageAnnotations := []
  imports := [⟨"shop.Cart", false, false⟩]
  types := [⟨.classType, "Page", [], some "Cart.Base", []⟩]

/-- Both units in one round. -/
def lineRound : SourceRound :=
  ((empty.addUnit lineUnit).1.addUnit pageUnit).1

/-- Inside the cart its member hides the class of the package, and the page gets to the member through its
import. -/
theorem superclass?_eq_search_lineRound :
    Reached [lineUnit, pageUnit] lineRound ∧ lineRound.elements.size < ElementId.count ∧
      lineRound.superclass? ⟨4⟩ =
        ["shop.Cart.Base", "shop.Base", "java.lang.Base"].findSome? lineRound.classNamed? ∧
      lineRound.superclass? ⟨6⟩ =
        ["shop.Cart.Base", "Cart.Base"].findSome? lineRound.classNamed? ∧
      lineRound.superclass? ⟨4⟩ = some ⟨3⟩ ∧ lineRound.superclass? ⟨6⟩ = some ⟨3⟩ ∧
      lineRound.superclass? ⟨0⟩ = none ∧ lineRound.superclass? ⟨7⟩ = none := by
  have hreached : Reached [lineUnit, pageUnit] lineRound :=
    (Reached.addUnit .new lineUnit).addUnit pageUnit
  have hsize : lineRound.elements.size < ElementId.count := by decide +kernel
  have hshop : lineRound.get? ⟨0⟩ = some ⟨⟨.package, "shop", "shop", none⟩, none, [], none⟩ := by
    decide +kernel
  have hline : lineRound.superclass? ⟨4⟩ =
      ["shop.Cart.Base", "shop.Base", "java.lang.Base"].findSome? lineRound.classNamed? := by
    have hself : lineRound.get? ⟨4⟩ =
        some ⟨⟨.classType, "Line", "shop.Cart.Line", some ⟨2⟩⟩, none, [], some ⟨"Base", 0⟩⟩ := by
      decide +kernel
    have hcart : lineRound.get? ⟨2⟩ =
        some ⟨⟨.classType, "Cart", "shop.Cart", some ⟨0⟩⟩, none, [], none⟩ := by decide +kernel
    have haround : lineRound.HasTypesAround (some ⟨2⟩) ["shop.Cart"] :=
      .type hcart rfl (.notType hshop rfl)
    obtain ⟨unit, declaration, outer, owners, hunit, -, -, howners, hsimple, -⟩ :=
      ((hreached.superclass?_eq_search hsize ⟨4⟩).2 _ hself).2 _ rfl
    obtain rfl := Option.some.inj hunit
    obtain rfl := howners.unique haround
    exact (hsimple (by decide)).trans (by decide +kernel)
  have hpage : lineRound.superclass? ⟨6⟩ =
      ["shop.Cart.Base", "Cart.Base"].findSome? lineRound.classNamed? := by
    have hself : lineRound.get? ⟨6⟩ =
        some ⟨⟨.classType, "Page", "web.Page", some ⟨5⟩⟩, none, [], some ⟨"Cart.Base", 1⟩⟩ := by
      decide +kernel
    have hweb : lineRound.get? ⟨5⟩ = some ⟨⟨.package, "web", "web", none⟩, none, [], none⟩ := by
      decide +kernel
    have haround : lineRound.HasTypesAround (some ⟨5⟩) [] := .notType hweb rfl
    obtain ⟨unit, declaration, outer, owners, hunit, -, -, howners, -, hdotted⟩ :=
      ((hreached.superclass?_eq_search hsize ⟨6⟩).2 _ hself).2 _ rfl
    obtain rfl := Option.some.inj hunit
    obtain rfl := howners.unique haround
    exact (hdotted "Cart" "Base" (by decide) rfl).trans (by decide +kernel)
  refine ⟨hreached, hsize, hline, hpage, ?_, ?_, ?_, ?_⟩
  · rw [hline]
    decide +kernel
  · rw [hpage]
    decide +kernel
  · exact ((hreached.superclass?_eq_search hsize ⟨0⟩).2 _ hshop).1 rfl
  · exact (hreached.superclass?_eq_search hsize ⟨7⟩).1 (by decide +kernel)

end SourceRound

end ComponentMarkers.Source
