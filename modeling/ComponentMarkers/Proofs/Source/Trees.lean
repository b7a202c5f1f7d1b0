import ComponentMarkers.Proofs.Source.Places

/-!
# Rows of elements

A declaration and all within it are entered one behind the other, owners before what they hold.  So the
row of entries can be read off the declaration, once it is known where the row begins.  Where it begins
is what adding a unit returns for each type of the unit, and the roots of a round are everything that was
returned.
-/

namespace ComponentMarkers.Source

open Text

mutual

/-- What is entered for a declaration and for all within it, `first` being the index of the declaration. -/
def Declaration.entries (unit : Nat) (source : Option Path) (owner : ElementId) (ownerName : String)
    (first : Nat) : Declaration → List SourceElement
  | ⟨kind, name, annotations, superclass, members⟩ =>
    Declaration.entry ⟨kind, name, annotations, superclass, members⟩ unit source owner ownerName ::
      entriesAmong unit source (.ofIndex first) (qualify ownerName name) (first + 1) members

/-- What is entered for some declarations inside `owner` and for all within them. -/
def entriesAmong (unit : Nat) (source : Option Path) (owner : ElementId) (ownerName : String)
    (first : Nat) : List Declaration → List SourceElement
  | [] => []
  | declaration :: rest =>
    Declaration.entries unit source owner ownerName first declaration ++
      entriesAmong unit source owner ownerName (first + declaration.size) rest

end

mutual

theorem length_entries
    (unit : Nat) (source : Option Path) (owner : ElementId) (ownerName : String) (first : Nat) :
    (declaration : Declaration) →
      (declaration.entries unit source owner ownerName first).length = declaration.size
  | ⟨kind, name, annotations, superclass, members⟩ => by
    rw [Declaration.entries, Declaration.size, List.length_cons, length_entriesAmong]
    exact Nat.add_comm _ _

theorem length_entriesAmong
    (unit : Nat) (source : Option Path) (owner : ElementId) (ownerName : String) (first : Nat) :
    (declarations : List Declaration) →
      (entriesAmong unit source owner ownerName first declarations).length = sizeOfAll declarations
  | [] => by
    rw [entriesAmong, sizeOfAll]
    rfl
  | declaration :: rest => by
    rw [entriesAmong, sizeOfAll, List.length_append, length_entries, length_entriesAmong]

end

mutual

/-- The entries of an occurrence stand in the round as a row. -/
theorem Occurrence.IsEntered.entries_isPrefix
    {round : SourceRound} {unit : Nat} {source : Option Path} {owner : ElementId}
    {ownerName package : String} {names : List String} {first : Nat} :
    (declaration : Declaration) →
      Occurrence.IsEntered round unit source owner ownerName ⟨first, package, names, declaration⟩ →
      declaration.entries unit source owner ownerName first <+: round.elements.toList.drop first
  | ⟨kind, name, annotations, superclass, members⟩, h => by
    obtain ⟨hget, hmembers⟩ := h
    have hrow : round.elements.toList.drop first =
        Declaration.entry ⟨kind, name, annotations, superclass, members⟩ unit source owner
          ownerName :: round.elements.toList.drop (first + 1) := by
      rw [List.drop_eq_getElem?_toList_append, Array.getElem?_toList, hget]
      rfl
    rw [Declaration.entries, hrow, List.cons_prefix_cons]
    exact ⟨rfl, entriesAmong_isPrefix members hmembers⟩

theorem entriesAmong_isPrefix
    {round : SourceRound} {unit : Nat} {source : Option Path} {owner : ElementId}
    {ownerName package : String} {outer : List String} {first : Nat} :
    (declarations : List Declaration) →
      (∀ occurrence ∈ placeAll package outer first declarations,
        occurrence.IsEntered round unit source owner ownerName) →
      entriesAmong unit source owner ownerName first declarations <+:
        round.elements.toList.drop first
  | [], _ => by
    rw [entriesAmong]
    exact List.nil_prefix
  | declaration :: rest, h => by
    obtain ⟨hdeclaration, hrest⟩ := List.forall_mem_cons.1 h
    rw [entriesAmong]
    apply append_isPrefix_drop (hdeclaration.entries_isPrefix declaration)
    rw [length_entries]
    exact entriesAmong_isPrefix rest hrest

end

theorem Declaration.size_eq (declaration : Declaration) :
    declaration.size = 1 + sizeOfAll declaration.members := by
  obtain ⟨kind, name, annotations, superclass, members⟩ := declaration
  rw [Declaration.size]

/-- Declarations that are placed one behind the other end where all of them end. -/
theorem index_add_size_le_of_mem_placeAll
    {package : String} {outer : List String} {first : Nat} {declarations : List Declaration}
    {occurrence : Occurrence} (h : occurrence ∈ placeAll package outer first declarations) :
    occurrence.index + occurrence.declaration.size ≤ first + sizeOfAll declarations := by
  induction declarations generalizing first with
  | nil => cases h
  | cons declaration rest ih =>
      rw [sizeOfAll]
      rcases List.mem_cons.1 h with rfl | h
      · dsimp only
        omega
      · have hrest := ih h
        omega

/-- What is within an occurrence has its index in the row of the occurrence. -/
theorem Occurrence.IsWithin.index_mem
    {top occurrence : Occurrence} (h : occurrence.IsWithin top) :
    top.index ≤ occurrence.index ∧ occurrence.index < top.index + top.declaration.size := by
  have hrow : top.index ≤ occurrence.index ∧
      occurrence.index + occurrence.declaration.size ≤ top.index + top.declaration.size := by
    induction h with
    | refl => exact ⟨Nat.le_refl _, Nat.le_refl _⟩
    | @tail middle member _ hmember ih =>
        have hafter := SourceRound.index_lt_of_mem_members hmember
        have hends := index_add_size_le_of_mem_placeAll hmember
        have hmiddle := middle.declaration.size_eq
        omega
  have hsize := occurrence.declaration.size_eq
  omega

/-- Declarations that are placed one behind the other have ascending indexes. -/
theorem pairwise_index_placeAll
    (package : String) (outer : List String) (first : Nat) (declarations : List Declaration) :
    (placeAll package outer first declarations).Pairwise fun before after =>
      before.index < after.index := by
  induction declarations generalizing first with
  | nil => exact List.Pairwise.nil
  | cons declaration rest ih =>
      refine List.pairwise_cons.2 ⟨?_, ih _⟩
      intro after hafter
      have hlater := SourceRound.le_index_of_mem_placeAll hafter
      have hsize := declaration.size_eq
      dsimp only
      omega

namespace SourceRound

/-- Units are added one after the other, and what is returned for each of them is noted. -/
def addUnits (round : SourceRound) (units : List CompilationUnit) :
    SourceRound × List (List ElementId) :=
  units.foldl (fun state unit =>
    let added := state.1.addUnit unit
    (added.1, state.2 ++ [added.2])) (round, [])

theorem addUnits_concat
    (round : SourceRound) (units : List CompilationUnit) (unit : CompilationUnit) :
    round.addUnits (units ++ [unit]) =
      (((round.addUnits units).1.addUnit unit).1,
        (round.addUnits units).2 ++ [((round.addUnits units).1.addUnit unit).2]) := by
  rw [addUnits, List.foldl_append]
  rfl

theorem roots_insertRoots
    (round : SourceRound) (unit : Nat) (source : Option Path) (package : ElementId)
    (name : String) (types : List Declaration) :
    (types.foldl (fun round type => round.insertRoot unit source package type) round).roots =
      round.roots ++ (placeAll name [] round.elements.size types).map Occurrence.id := by
  induction types generalizing round with
  | nil => exact (List.append_nil _).symm
  | cons type rest ih =>
      have hsize : (round.insertRoot unit source package type).elements.size =
          round.elements.size + type.size :=
        (insert_spec round unit source package name [type.name] type).1
      have hroots : (round.insertRoot unit source package type).roots =
          round.roots ++ [round.nextId] := by
        rw [← (insert_frame round unit source package type).2.1]
        rfl
      rw [List.foldl_cons, ih, hsize, hroots, List.append_assoc]
      rfl

/-- Adding a unit returns the numbers of its types and puts them behind the roots. -/
theorem addUnit_roots (round : SourceRound) (unit : CompilationUnit) :
    (round.addUnit unit).2 =
        (placeAll (unit.package.getD "") [] (round.openUnit unit).1.elements.size
          unit.types).map Occurrence.id ∧
      (round.addUnit unit).1.roots = round.roots ++ (round.addUnit unit).2 := by
  have hsame : (round.withPackageOf unit).roots = round.roots :=
    (package_frame (round.withContext unit) (unit.package.getD "")).2
  have hadded : (round.addUnit unit).1.roots = (round.withPackageOf unit).roots ++
      (placeAll (unit.package.getD "") [] (round.withPackageOf unit).elements.size
        unit.types).map Occurrence.id :=
    roots_insertRoots (round.withPackageOf unit) round.units.size unit.path (round.openUnit unit).2
      (unit.package.getD "") unit.types
  have hreturned : (round.addUnit unit).2 =
      (round.addUnit unit).1.roots.drop (round.withPackageOf unit).roots.length := rfl
  rw [size_withPackageOf] at hadded
  rw [hreturned, hadded, List.drop_left, hsame]
  exact ⟨rfl, rfl⟩

/-- What units that were added have returned: the numbers of their types, which are the roots. -/
structure Returns (round : SourceRound) (units : List CompilationUnit)
    (returned : List (List ElementId)) : Prop where
  reached : Reached units round
  length_eq : returned.length = units.length
  returned_eq : ∀ k unit, units[k]? = some unit →
    returned[k]? = some ((typesAt units k unit).map Occurrence.id)
  roots_eq : round.roots = returned.flatten
  ascending : round.roots.Pairwise fun before after => before.index < after.index
  bounded : ∀ id ∈ round.roots, id.index < round.elements.size

/-- What a unit returns has higher numbers than all before it. -/
theorem Returns.addUnit
    {round : SourceRound} {units : List CompilationUnit} {returned : List (List ElementId)}
    (h : round.Returns units returned) (unit : CompilationUnit)
    (hsize : (round.addUnit unit).1.elements.size < ElementId.count) :
    (round.addUnit unit).1.Returns (units ++ [unit]) (returned ++ [(round.addUnit unit).2]) := by
  obtain ⟨hreturned, hroots⟩ := addUnit_roots round unit
  have hopened := size_le_size_openUnit round unit
  have hadded := size_addUnit round unit
  -- The numbers of the new types do not wrap around.
  have hindex : ∀ top ∈ placeAll (unit.package.getD "") [] (round.openUnit unit).1.elements.size
      unit.types, top.id.index = top.index ∧ round.elements.size ≤ top.index ∧
        top.index < (round.addUnit unit).1.elements.size := by
    intro top htop
    have hfirst := le_index_of_mem_placeAll htop
    have hlast := index_add_size_le_of_mem_placeAll htop
    have hpositive := top.declaration.size_eq
    exact ⟨ElementId.index_ofIndex_of_lt (by omega), by omega, by omega⟩
  refine ⟨h.reached.addUnit unit, ?_, ?_, ?_, ?_, ?_⟩
  · rw [List.length_append, List.length_append, h.length_eq]
    rfl
  · intro k other hother
    rcases getElem?_concat_eq_some_iff.1 hother with hother | ⟨rfl, rfl⟩
    · have hlt := (List.getElem?_eq_some_iff.1 hother).1
      rw [List.getElem?_append_left (h.length_eq ▸ hlt), typesAt_concat (Nat.le_of_lt hlt)]
      exact h.returned_eq k other hother
    · obtain ⟨roots, isOver, hframed⟩ := h.reached.exists_framed
      have hsame : (round.openUnit unit).1.elements =
          ((ofUnits units).openUnit unit).1.elements := by
        rw [hframed, (openUnit_framed _ roots isOver unit).1]
        rfl
      rw [← h.length_eq, List.getElem?_concat_length, hreturned, h.length_eq, typesAt,
        List.take_left, hsame]
  · rw [hroots, h.roots_eq, List.flatten_append, List.flatten_singleton]
  · rw [hroots, hreturned]
    refine List.pairwise_append.2 ⟨h.ascending, ?_, ?_⟩
    · rw [List.pairwise_map]
      apply (pairwise_index_placeAll _ _ _ _).imp_of_mem
      intro before after hbefore hafter hlt
      rw [(hindex before hbefore).1, (hindex after hafter).1]
      exact hlt
    · intro before hbefore id hid
      obtain ⟨top, htop, rfl⟩ := List.mem_map.1 hid
      rw [(hindex top htop).1]
      exact Nat.lt_of_lt_of_le (h.bounded before hbefore) (hindex top htop).2.1
  · intro id hid
    rw [hroots, hreturned] at hid
    rcases List.mem_append.1 hid with hid | hid
    · have hbefore := h.bounded id hid
      omega
    · obtain ⟨top, htop, rfl⟩ := List.mem_map.1 hid
      rw [(hindex top htop).1]
      exact (hindex top htop).2.2

/-- A new round, or one that ends a run, has returned nothing. -/
theorem returns_start {start : SourceRound} (hstart : start = empty ∨ start = final) :
    start.Returns [] [] := by
  rcases hstart with rfl | rfl
  · exact ⟨.new, rfl, by simp, rfl, List.Pairwise.nil, by simp [empty]⟩
  · exact ⟨.final, rfl, by simp, rfl, List.Pairwise.nil, by simp [final, empty]⟩

theorem returns_addUnits
    {start : SourceRound} (hstart : start = empty ∨ start = final) (units : List CompilationUnit)
    (hsize : (start.addUnits units).1.elements.size < ElementId.count) :
    (start.addUnits units).1.Returns units (start.addUnits units).2 := by
  induction units using List.reverseRecOn with
  | nil => exact returns_start hstart
  | append_singleton units unit ih =>
      rw [addUnits_concat] at hsize ⊢
      have hopened := size_le_size_openUnit (start.addUnits units).1 unit
      have hadded := size_addUnit (start.addUnits units).1 unit
      have hbefore : (start.addUnits units).1.elements.size < ElementId.count := by
        dsimp only at hsize
        omega
      exact (ih hbefore).addUnit unit hsize

/-- The declaration is a type at the top of the unit with number `k`, and the number was returned for
it. -/
structure IsReturnedFor (units : List CompilationUnit) (returned : List (List ElementId)) (k : Nat)
    (unit : CompilationUnit) (type : Declaration) (id : ElementId) : Prop where
  unit_eq : units[k]? = some unit
  exists_eq : ∃ (ids : List ElementId) (j : Nat), returned[k]? = some ids ∧
    unit.types[j]? = some type ∧ ids[j]? = some id

/-- Every type at the top of a unit has its number, from which on the round has the entries of the type
and of all within it; and whatever is inside something is in one of these rows. -/
structure HoldsTrees (round : SourceRound) (units : List CompilationUnit)
    (returned : List (List ElementId)) : Prop where
  lengths_eq : returned.map List.length = units.map fun unit => unit.types.length
  tree : ∀ k unit type id, IsReturnedFor units returned k unit type id →
    ∃ package, round.packages.find? (unit.package.getD "") = some package ∧
      type.entries k unit.path package (unit.package.getD "") id.index <+:
        round.elements.toList.drop id.index
  covered : ∀ n element owner, round.element? n = some element → element.enclosing = some owner →
    ∃ k unit type id, IsReturnedFor units returned k unit type id ∧
      id.index ≤ n ∧ n < id.index + type.size

theorem declarations_placeAll
    (package : String) (outer : List String) (first : Nat) (declarations : List Declaration) :
    (placeAll package outer first declarations).map Occurrence.declaration = declarations := by
  induction declarations generalizing first with
  | nil => rfl
  | cons declaration rest ih =>
      rw [placeAll, List.map_cons, ih]

section Trees

variable {round : SourceRound} {units : List CompilationUnit} {returned : List (List ElementId)}

/-- What was returned are the numbers of the types at the top, each for its type. -/
theorem Returns.isReturnedFor_iff
    (h : round.Returns units returned) {k : Nat} {unit : CompilationUnit} {type : Declaration}
    {id : ElementId} :
    IsReturnedFor units returned k unit type id ↔
      units[k]? = some unit ∧ ∃ top ∈ typesAt units k unit, top.declaration = type ∧ top.id = id := by
  have htypes : ∀ j : Nat,
      unit.types[j]? = ((typesAt units k unit)[j]?).map Occurrence.declaration := by
    intro j
    rw [← List.getElem?_map, typesAt, declarations_placeAll]
  constructor
  · rintro ⟨hunit, ids, j, hids, htype, hid⟩
    rw [h.returned_eq k unit hunit] at hids
    rw [← Option.some.inj hids, List.getElem?_map] at hid
    obtain ⟨top, htop, rfl⟩ := Option.map_eq_some_iff.1 hid
    rw [htypes, htop] at htype
    exact ⟨hunit, top, List.mem_of_getElem? htop, Option.some.inj htype, rfl⟩
  · rintro ⟨hunit, top, htop, rfl, rfl⟩
    obtain ⟨j, hj, hget⟩ := List.mem_iff_getElem.1 htop
    have htop : (typesAt units k unit)[j]? = some top := List.getElem?_eq_some_iff.2 ⟨hj, hget⟩
    refine ⟨hunit, _, j, h.returned_eq k unit hunit, ?_, ?_⟩
    · rw [htypes, htop]
      rfl
    · rw [List.getElem?_map, htop]
      rfl

theorem Returns.holdsTrees
    (h : round.Returns units returned) (hsize : round.elements.size < ElementId.count) :
    round.HoldsTrees units returned := by
  have hmade := h.reached.isMadeOf hsize
  -- A type at the top of a unit has an entry, so its number does not wrap around.
  have hindex : ∀ k unit, units[k]? = some unit → ∀ top ∈ typesAt units k unit,
      top.id.index = top.index := by
    intro k unit hunit top htop
    exact (((hmade.entered k unit hunit).2 top htop).1.get?_id hsize).1
  refine ⟨?_, ?_, ?_⟩
  · apply List.ext_getElem?
    intro k
    rw [List.getElem?_map, List.getElem?_map]
    cases hunit : units[k]? with
    | none =>
        have hk := List.getElem?_eq_none_iff.1 hunit
        rw [List.getElem?_eq_none (h.length_eq ▸ hk)]
        rfl
    | some unit =>
        rw [h.returned_eq k unit hunit]
        have hlength := congrArg List.length (declarations_placeAll (unit.package.getD "") []
          ((ofUnits (units.take k)).openUnit unit).1.elements.size unit.types)
        rw [List.length_map] at hlength
        simp only [Option.map_some, List.length_map, typesAt, hlength]
  · intro k unit type id hreturned
    obtain ⟨hunit, top, htop, rfl, rfl⟩ := h.isReturnedFor_iff.1 hreturned
    obtain ⟨hpackage, htops⟩ := hmade.entered k unit hunit
    rw [hindex k unit hunit top htop]
    exact ⟨_, hpackage, (htops top htop).1.entries_isPrefix top.declaration⟩
  · intro n element owner helement howner
    rcases hmade.covered n element helement with
      ⟨hnone, -⟩ | ⟨k, unit, hunit, top, htop, occurrence, hwithin, rfl⟩
    · rw [hnone] at howner
      cases howner
    · refine ⟨k, unit, _, _, h.isReturnedFor_iff.2 ⟨hunit, top, htop, rfl, rfl⟩, ?_⟩
      rw [hindex k unit hunit top htop]
      exact hwithin.index_mem

end Trees

end SourceRound

end ComponentMarkers.Source
