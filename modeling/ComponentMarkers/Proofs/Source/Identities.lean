import ComponentMarkers.Proofs.Marking.Resolution
import ComponentMarkers.Proofs.Source.Reordering

/-!
# Identities of places

The identity of an element is read off its place: the declarations around it are the links of its chain.
No chain of a round over sources loops, since owners have smaller numbers than what they own.  So the
markers of a round do not depend on the numbers of its elements either.
-/

namespace ComponentMarkers.Source

open Text

namespace CompilationUnit

/-- The way from a place to its package, `names` being the simple names met so far. -/
def climbPlace (unit : CompilationUnit) (names : List String) :
    List Declaration → Except (ChainFault ⊕ UnknownElement) (String × List String)
  | [] => .ok (unit.package.getD "", names)
  | declaration :: outer =>
    if declaration.kind.isPackage then .ok (unit.nameAt (declaration :: outer), names)
    else if declaration.kind.isType then unit.climbPlace (declaration.name :: names) outer
    else .error (.inl (.enclosedBy declaration.kind))

/-- The identity of what is declared at a place. -/
def identityAt (unit : CompilationUnit) (declaration : Declaration) (outer : List Declaration) :
    Except ResolveError ArtifactIdentity :=
  match unit.climbPlace [declaration.name] outer with
  | .ok (package, names) => .ok ⟨package, ArtifactIdentity.separator.intercalate names⟩
  | .error (.inl fault) => .error (.structural ⟨unit.nameAt (declaration :: outer), fault⟩)
  | .error (.inr unknown) => .error (.unknown unknown)

end CompilationUnit

namespace SourceRound

section Climbing

variable {round : SourceRound} {units : List CompilationUnit} {unit : CompilationUnit}

/-- A chain that comes from below climbs the declarations of the place. -/
theorem StandsAt.climb_eq
    (hmade : round.IsMadeOf units) {id : ElementId} {place : List Declaration}
    (h : round.StandsAt units unit id place) {visited : List ElementId} {chain : EnclosingChain}
    (hchain : round.toRound.table.IsChain visited (some id) chain)
    (hvisited : ∀ other ∈ visited, id.index < other.index) (names : List String) :
    climb chain.ending names chain.links = unit.climbPlace names place := by
  induction h generalizing visited chain names with
  | package _ hid =>
      obtain ⟨found, hfound, helement, -⟩ := hmade.packages _ _ hid
      have hget := table_get?_of_get? hfound
      cases hchain with
      | loop hmem => exact absurd (hvisited _ hmem) (Nat.lt_irrefl _)
      | unknown _ hnone => simp [hget] at hnone
      | link _ hsame _ =>
          obtain rfl := Option.some.inj (hget.symm.trans hsame)
          rw [climb, helement]
          rfl
  | @declared k id owner outer declaration _ _ _ hget hlt ih =>
      have hget := table_get?_of_get? hget
      cases hchain with
      | loop hmem => exact absurd (hvisited _ hmem) (Nat.lt_irrefl _)
      | unknown _ hnone => simp [hget] at hnone
      | link _ hsame hrest =>
          obtain rfl := Option.some.inj (hget.symm.trans hsame)
          have howner : ∀ other ∈ id :: visited, owner.index < other.index := by
            intro other hother
            rcases List.mem_cons.1 hother with rfl | hother
            · exact hlt
            · exact Nat.lt_trans hlt (hvisited other hother)
          have hclimb := ih hrest howner (declaration.name :: names)
          rw [climb, CompilationUnit.climbPlace, ← hclimb]
          rfl

/-- The identity of an element is that of its place. -/
theorem StandsAt.resolveIdentity_eq
    (hmade : round.IsMadeOf units) {id : ElementId} {declaration : Declaration}
    {outer : List Declaration} (h : round.StandsAt units unit id (declaration :: outer)) :
    resolveIdentity round.toRound.table id = unit.identityAt declaration outer := by
  cases h with
  | declared _ howner _ hget hlt =>
      have hget := table_get?_of_get? hget
      obtain ⟨rest, hrest, hchain⟩ := ElementTable.enclosingChain_eq_of_get? hget
      have hclimb := howner.climb_eq hmade hrest (fun other hother => by
        obtain rfl := List.mem_singleton.1 hother
        exact hlt) [declaration.name]
      rw [resolveIdentity, hget]
      dsimp only
      rw [hchain]
      dsimp only [List.tail_cons]
      rw [CompilationUnit.identityAt, ← hclimb]
      rfl

/-- What an element is written in stands around its place. -/
theorem StandsAt.owner_of_enclosedBy
    (hmade : round.IsMadeOf units) {id owner : ElementId} {place : List Declaration}
    (h : round.StandsAt units unit id place) (howner : round.toRound.table.EnclosedBy id owner) :
    ∃ declaration outer, place = declaration :: outer ∧ round.StandsAt units unit owner outer := by
  obtain ⟨element, hget, henclosing⟩ := howner
  cases h with
  | package _ hid =>
      obtain ⟨found, hfound, helement, -⟩ := hmade.packages _ _ hid
      rw [table_get?_of_get? hfound, helement] at hget
      obtain rfl := Option.some.inj hget
      cases henclosing
  | declared _ hstands _ hfound _ =>
      rw [table_get?_of_get? hfound] at hget
      obtain rfl := Option.some.inj hget
      obtain rfl := Option.some.inj henclosing
      exact ⟨_, _, rfl, hstands⟩

end Climbing

namespace AreReordered

variable {first second : SourceRound} {units others : List CompilationUnit}
  {unit : CompilationUnit}

/-- What is reached from elements at one place stands at one place. -/
theorem exists_reaches
    (h : AreReordered first second units others) {id other owner : ElementId}
    {place : List Declaration} (hid : first.StandsAt units unit id place)
    (hother : second.StandsAt others unit other place)
    (hreach : first.toRound.table.Reaches id owner) :
    ∃ around match', first.StandsAt units unit owner around ∧
      second.toRound.table.Reaches other match' ∧ second.StandsAt others unit match' around := by
  induction hreach using Relation.ReflTransGen.head_induction_on generalizing place other with
  | refl => exact ⟨place, other, hid, Relation.ReflTransGen.refl, hother⟩
  | head hstep _ ih =>
      obtain ⟨declaration, outer, rfl, hmiddle⟩ := hid.owner_of_enclosedBy h.first_made hstep
      cases hother with
      | declared _ hotherMiddle _ hget _ =>
          obtain ⟨around, match', howner, hreach, hmatch⟩ := ih hmiddle hotherMiddle
          refine ⟨around, match', howner, ?_, hmatch⟩
          exact Relation.ReflTransGen.head ⟨_, table_get?_of_get? hget, rfl⟩ hreach

/-- A class that has something annotated within it has its like in the other round. -/
theorem exists_annotated_within
    (h : AreReordered first second units others) {identifier : String} {start id : ElementId}
    (hstart : start ∈ first.annotated identifier)
    (hreach : first.toRound.table.Reaches start id) {element : Element}
    (hget : first.toRound.table.get? id = some element) (hkind : element.kind = .classType) :
    ∃ otherStart ∈ second.annotated identifier, ∃ other,
      second.toRound.table.Reaches otherStart other ∧
      (∃ found, second.toRound.table.get? other = some found ∧ found.kind = .classType) ∧
      resolveIdentity second.toRound.table other = resolveIdentity first.toRound.table id := by
  have hmem : start ∈ first.ids := (List.mem_filter.1 hstart).1
  obtain ⟨n, hn, rfl⟩ := List.mem_map.1 hmem
  have hlt : n < first.elements.size := List.mem_range.1 hn
  have hstartGet := SourceRound.get?_ofIndex h.first_size (Array.getElem?_eq_getElem hlt)
  obtain ⟨unit, place, hstands⟩ := h.first_made.exists_place h.first_size hstartGet
  obtain ⟨otherStart, hotherStands⟩ := h.exists_standsAt hstands
  obtain ⟨around, other, hid, hotherReach, hother⟩ :=
    h.exists_reaches hstands hotherStands hreach
  obtain ⟨same, hsame, -, hplaceKind⟩ := hid.exists_get? h.first_made
  rw [table_get?_of_get? hsame] at hget
  obtain rfl := Option.some.inj hget
  obtain ⟨found, hfound, -, hfoundKind⟩ := hother.exists_get? h.second_made
  refine ⟨otherStart, h.mem_annotated_of_mem_annotated hstands hotherStands hstart, other,
    hotherReach, ⟨_, table_get?_of_get? hfound, ?_⟩, ?_⟩
  · rw [hfoundKind, ← hplaceKind, hkind]
  · cases around with
    | nil =>
        rw [hkind] at hplaceKind
        cases hplaceKind
    | cons declaration outer =>
        rw [hother.resolveIdentity_eq h.second_made, hid.resolveIdentity_eq h.first_made]

end AreReordered

end SourceRound

end ComponentMarkers.Source
