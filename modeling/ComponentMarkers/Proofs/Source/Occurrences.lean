import ComponentMarkers.MarkerRegistry
import ComponentMarkers.Marking.Identity
import ComponentMarkers.Source.Round
import Mathlib.Logic.Relation

/-!
# Where declarations stand

The declarations of some units are numbered in the order in which they are written, owners before what
they hold, and packages take a number when they are met for the first time.  An occurrence is a
declaration with its number, its package and the names on the way to it.  Which occurrence is within
which is read off the declarations alone, no table of elements is asked.
-/

namespace ComponentMarkers.Source

mutual

/-- How many declarations a declaration is with its members at every depth. -/
def Declaration.size : Declaration → Nat
  | ⟨_, _, _, _, members⟩ => 1 + sizeOfAll members

/-- How many declarations some declarations are with their members at every depth. -/
def sizeOfAll : List Declaration → Nat
  | [] => 0
  | declaration :: rest => Declaration.size declaration + sizeOfAll rest

end

mutual

/-- Something is true of a declaration and of its members at every depth. -/
def Declaration.Every (p : Declaration → Prop) : Declaration → Prop
  | ⟨kind, name, annotations, superclass, members⟩ =>
    p ⟨kind, name, annotations, superclass, members⟩ ∧ EveryAmong p members

/-- Something is true of some declarations and of their members at every depth. -/
def EveryAmong (p : Declaration → Prop) : List Declaration → Prop
  | [] => True
  | declaration :: rest => Declaration.Every p declaration ∧ EveryAmong p rest

end

theorem everyAmong_iff {p : Declaration → Prop} {declarations : List Declaration} :
    EveryAmong p declarations ↔ ∀ declaration ∈ declarations, declaration.Every p := by
  induction declarations with
  | nil => simp [EveryAmong]
  | cons declaration rest ih => rw [EveryAmong, ih, List.forall_mem_cons]

theorem Declaration.every_iff {p : Declaration → Prop} {declaration : Declaration} :
    declaration.Every p ↔ p declaration ∧ ∀ member ∈ declaration.members, member.Every p := by
  obtain ⟨kind, name, annotations, superclass, members⟩ := declaration
  rw [Declaration.Every, everyAmong_iff]

mutual

theorem Declaration.every_imp
    {p q : Declaration → Prop} (h : ∀ declaration, p declaration → q declaration) :
    (declaration : Declaration) → declaration.Every p → declaration.Every q
  | ⟨_, _, _, _, members⟩, hevery => ⟨h _ hevery.1, everyAmong_imp h members hevery.2⟩

theorem everyAmong_imp
    {p q : Declaration → Prop} (h : ∀ declaration, p declaration → q declaration) :
    (declarations : List Declaration) → EveryAmong p declarations → EveryAmong q declarations
  | [], _ => trivial
  | declaration :: rest, hevery =>
    ⟨Declaration.every_imp h declaration hevery.1, everyAmong_imp h rest hevery.2⟩

end

/-- The declaration is no package, and it has members only as a type. -/
structure Declaration.IsProper (declaration : Declaration) : Prop where
  kind_ne : declaration.kind ≠ .package
  isType_of_members : declaration.members ≠ [] → declaration.kind.isType

/-- A declaration with its place among the elements of a round. -/
structure Occurrence where
  index : Nat
  package : String
  /-- The simple names on the way to the declaration, its own last. -/
  names : List String
  declaration : Declaration

/-- The declarations, the first of them at an index and each behind all that is within the one before
it. -/
def placeAll (package : String) (outer : List String) : (first : Nat) → List Declaration →
    List Occurrence
  | _, [] => []
  | first, declaration :: rest =>
    ⟨first, package, outer ++ [declaration.name], declaration⟩ ::
      placeAll package outer (first + declaration.size) rest

namespace Occurrence

/-- The number of the declaration's element. -/
def id (occurrence : Occurrence) : ElementId :=
  .ofIndex occurrence.index

/-- The identity that the names on the way make. -/
def identity (occurrence : Occurrence) : ArtifactIdentity :=
  ⟨occurrence.package, ArtifactIdentity.separator.intercalate occurrence.names⟩

/-- The direct members. -/
def members (occurrence : Occurrence) : List Occurrence :=
  placeAll occurrence.package occurrence.names (occurrence.index + 1)
    occurrence.declaration.members

/-- The first is the second or a member of it at some depth. -/
def IsWithin (inner outer : Occurrence) : Prop :=
  Relation.ReflTransGen (fun owner member => member ∈ owner.members) outer inner

/-- The occurrence is a class that marking annotations ask a marker for: one of them is on the class
or on something within it. -/
def IsMarked (occurrence : Occurrence) (round : Round) : Prop :=
  occurrence.declaration.kind = .classType ∧
    ∃ inner : Occurrence, inner.IsWithin occurrence ∧
      ∃ identifier ∈ MarkerRegistry.standardIdentifiers, inner.id ∈ round.annotated identifier

end Occurrence

theorem exists_of_mem_placeAll
    {package : String} {outer : List String} {first : Nat} {declarations : List Declaration}
    {occurrence : Occurrence} (h : occurrence ∈ placeAll package outer first declarations) :
    occurrence.declaration ∈ declarations ∧ occurrence.package = package ∧
      occurrence.names = outer ++ [occurrence.declaration.name] := by
  induction declarations generalizing first with
  | nil => cases h
  | cons declaration rest ih =>
      rcases List.mem_cons.1 h with rfl | h
      · exact ⟨List.mem_cons_self, rfl, rfl⟩
      · obtain ⟨hmem, hplace⟩ := ih h
        exact ⟨List.mem_cons_of_mem _ hmem, hplace⟩

namespace Occurrence

/-- What is true of a declaration at every depth is true of what is within it. -/
theorem IsWithin.every
    {p : Declaration → Prop} {inner outer : Occurrence} (h : inner.IsWithin outer)
    (houter : outer.declaration.Every p) : inner.declaration.Every p := by
  induction h with
  | refl => exact houter
  | tail _ hmember ih =>
      exact (Declaration.every_iff.1 ih).2 _ (exists_of_mem_placeAll hmember).1

end Occurrence

mutual

/-- Every index from that of a declaration on is taken by something within it, as many as its size
says. -/
theorem exists_isWithin_of_index
    (package : String) (names : List String) (first n : Nat) (hfirst : first ≤ n) :
    (declaration : Declaration) → n < first + declaration.size →
      ∃ occurrence : Occurrence,
        occurrence.IsWithin ⟨first, package, names, declaration⟩ ∧ occurrence.index = n
  | ⟨kind, name, annotations, superclass, members⟩, hlast => by
    by_cases hself : n = first
    · exact ⟨_, Relation.ReflTransGen.refl, hself.symm⟩
    · rw [Declaration.size] at hlast
      obtain ⟨member, hmember, occurrence, hwithin, hindex⟩ :=
        exists_mem_placeAll_of_index package names (first + 1) n (by omega) members (by omega)
      exact ⟨occurrence, Relation.ReflTransGen.head hmember hwithin, hindex⟩

theorem exists_mem_placeAll_of_index
    (package : String) (outer : List String) (first n : Nat) (hfirst : first ≤ n) :
    (declarations : List Declaration) → n < first + sizeOfAll declarations →
      ∃ top ∈ placeAll package outer first declarations,
        ∃ occurrence : Occurrence, occurrence.IsWithin top ∧ occurrence.index = n
  | [], hlast => by
    rw [sizeOfAll] at hlast
    omega
  | declaration :: rest, hlast => by
    rw [sizeOfAll] at hlast
    by_cases hbefore : n < first + declaration.size
    · obtain ⟨occurrence, hwithin, hindex⟩ := exists_isWithin_of_index package
        (outer ++ [declaration.name]) first n hfirst declaration hbefore
      exact ⟨_, List.mem_cons_self, occurrence, hwithin, hindex⟩
    · obtain ⟨top, htop, hfound⟩ := exists_mem_placeAll_of_index package outer
        (first + declaration.size) n (by omega) rest (by omega)
      exact ⟨top, List.mem_cons_of_mem _ htop, hfound⟩

end

namespace SourceRound

/-- The package of a unit is entered, and the context of its names. -/
def openUnit (round : SourceRound) (unit : CompilationUnit) : SourceRound × ElementId :=
  ({ round with
      units := round.units.push (ImportContext.ofImports unit.package unit.imports) }).package
    (unit.package.getD "")

/-- The round of some units. -/
def ofUnits (units : List CompilationUnit) : SourceRound :=
  units.foldl (fun round unit => (round.addUnit unit).1) .empty

/-- The types at the top of units that are added to a round. -/
def topLevelAfter (round : SourceRound) : List CompilationUnit → List Occurrence
  | [] => []
  | unit :: rest =>
    placeAll (unit.package.getD "") [] (round.openUnit unit).1.elements.size unit.types ++
      topLevelAfter (round.addUnit unit).1 rest

end SourceRound

/-- The types at the top of some units. -/
def topLevel (units : List CompilationUnit) : List Occurrence :=
  SourceRound.empty.topLevelAfter units

/-- The declarations of some units, at every depth. -/
def Occurrence.Occurs (occurrence : Occurrence) (units : List CompilationUnit) : Prop :=
  ∃ top ∈ topLevel units, occurrence.IsWithin top

/-- A type at the top of some units is a type of one of them. -/
theorem exists_unit_of_mem_topLevelAfter
    {round : SourceRound} {units : List CompilationUnit} {top : Occurrence}
    (h : top ∈ round.topLevelAfter units) :
    ∃ unit ∈ units, top.declaration ∈ unit.types ∧ top.package = unit.package.getD "" ∧
      top.names = [top.declaration.name] := by
  induction units generalizing round with
  | nil => cases h
  | cons unit rest ih =>
      rcases List.mem_append.1 h with h | h
      · exact ⟨unit, List.mem_cons_self, exists_of_mem_placeAll h⟩
      · obtain ⟨found, hfound, hspec⟩ := ih h
        exact ⟨found, List.mem_cons_of_mem _ hfound, hspec⟩

end ComponentMarkers.Source
