import ComponentMarkers.Proofs.Marking.Collection
import ComponentMarkers.Proofs.Marking.Resolution
import ComponentMarkers.Proofs.Source.Arena

/-!
# Nesting in a loaded round

As long as the numbers of elements do not wrap around, the enclosing elements of an occurrence are the
occurrences it is within, followed by its package.  So what processors find by going up the chains of
elements can be said in terms of the declarations, and the names on the way to a type are those of its
identity.
-/

namespace ComponentMarkers.Source

/-- The declaration is proper and no slash is in its name. -/
structure Declaration.IsWellFormed (declaration : Declaration) : Prop extends
    declaration.IsProper where
  slash_not_mem : '/' ∉ declaration.name.toList

/-- Every declaration of the unit is well formed, at every depth. -/
def CompilationUnit.IsWellFormed (unit : CompilationUnit) : Prop :=
  ∀ declaration ∈ unit.types, declaration.Every Declaration.IsWellFormed

/-- What is held is held with all that is within it, members inside their owners. -/
theorem Occurrence.IsHeld.of_isWithin
    {round : SourceRound} {owner : ElementId} {top occurrence : Occurrence}
    (h : top.IsHeld round owner) (hwithin : occurrence.IsWithin top) :
    ∃ inside, occurrence.IsHeld round inside ∧
      ((occurrence = top ∧ inside = owner) ∨
        ∃ middle : Occurrence, middle.IsWithin top ∧ occurrence ∈ middle.members ∧
          inside = middle.id) := by
  induction hwithin with
  | refl => exact ⟨owner, h, Or.inl ⟨rfl, rfl⟩⟩
  | tail hmiddle hmember ih =>
      obtain ⟨_, hheld, -⟩ := ih
      cases hheld with
      | intro _ _ _ _ hmembers =>
          exact ⟨_, hmembers _ hmember, Or.inr ⟨_, hmiddle, hmember, rfl⟩⟩

/-- No name on the way to a well-formed declaration has a slash in it. -/
theorem Occurrence.IsWithin.slash_not_mem
    {top occurrence : Occurrence} (h : occurrence.IsWithin top)
    (hnames : top.names = [top.declaration.name])
    (hshape : top.declaration.Every Declaration.IsWellFormed) :
    ∀ name ∈ occurrence.names, '/' ∉ name.toList := by
  induction h with
  | refl =>
      rw [hnames]
      exact List.forall_mem_singleton.2 (Declaration.every_iff.1 hshape).1.slash_not_mem
  | tail hmiddle hmember ih =>
      obtain ⟨-, -, hpath⟩ := exists_of_mem_placeAll hmember
      have hshaped := IsWithin.every (hmiddle.tail hmember) hshape
      rw [hpath]
      intro name hname
      rcases List.mem_append.1 hname with hname | hname
      · exact ih name hname
      · obtain rfl := List.mem_singleton.1 hname
        exact (Declaration.every_iff.1 hshaped).1.slash_not_mem

namespace SourceRound.IsLoaded

variable {round : SourceRound} {tops : List Occurrence}

theorem get?_ofIndex
    (hsize : round.elements.size < ElementId.count) {n : Nat} {element : Element}
    (h : round.element? n = some element) :
    round.toRound.table.get? (.ofIndex n) = some element := by
  rw [toRound_get?, ElementId.index_ofIndex_of_lt (Nat.lt_trans (lt_size_of_element? h) hsize), h]

/-- The element of a package that the round knows. -/
theorem get?_package
    (h : round.IsLoaded tops) (hsize : round.elements.size < ElementId.count) {name : String}
    {id : ElementId} (hname : round.packages.find? name = some id) :
    round.toRound.table.get? id = some ⟨.package, Text.lastSegment name, name, none⟩ := by
  obtain ⟨n, rfl, helement⟩ := h.package_eq name id hname
  exact get?_ofIndex hsize helement

/-- The element of an occurrence, and what it is written in. -/
theorem get?_occurrence
    (h : round.IsLoaded tops) (hsize : round.elements.size < ElementId.count)
    {top occurrence : Occurrence} (htop : top ∈ tops) (hwithin : occurrence.IsWithin top) :
    ∃ element owner, round.toRound.table.get? occurrence.id = some element ∧
      element.kind = occurrence.declaration.kind ∧
      element.simpleName = occurrence.declaration.name ∧ element.enclosing = some owner ∧
      ((occurrence = top ∧ round.packages.find? top.package = some owner) ∨
        ∃ middle : Occurrence, middle.IsWithin top ∧ occurrence ∈ middle.members ∧
          owner = middle.id) := by
  obtain ⟨owner, hpackage, hheld⟩ := h.held top htop
  obtain ⟨inside, hinside, hcases⟩ := hheld.of_isWithin hwithin
  cases hinside with
  | intro hget hkind hname howner _ =>
      refine ⟨_, inside, get?_ofIndex hsize hget, hkind, hname, howner, ?_⟩
      rcases hcases with ⟨hsame, rfl⟩ | hmiddle
      · exact Or.inl ⟨hsame, hpackage⟩
      · exact Or.inr hmiddle

/-- Every element of the table is a package without an owner or the element of an occurrence. -/
theorem exists_occurrence_of_get?
    (h : round.IsLoaded tops) {id : ElementId} {element : Element}
    (hget : round.toRound.table.get? id = some element) :
    (element.kind = .package ∧ element.enclosing = none) ∨
      ∃ top ∈ tops, ∃ occurrence : Occurrence, occurrence.IsWithin top ∧ occurrence.id = id := by
  rw [toRound_get?] at hget
  rcases h.covered _ _ hget with ⟨hkind, hnone, -⟩ | ⟨top, htop, occurrence, hwithin, hindex⟩
  · exact Or.inl ⟨hkind, hnone⟩
  · refine Or.inr ⟨top, htop, occurrence, hwithin, ?_⟩
    rw [Occurrence.id, hindex, ElementId.ofIndex_index]

/-- Whether or not it wrapped around, the number of an element leads into the table. -/
theorem isSome_get?_ofIndex {n : Nat} {element : Element} (h : round.element? n = some element) :
    (round.toRound.table.get? (.ofIndex n)).isSome := by
  have hlt : (ElementId.ofIndex n).index < round.elements.size :=
    Nat.lt_of_le_of_lt (Nat.mod_le n _) (lt_size_of_element? h)
  obtain ⟨found, hfound⟩ := exists_element?_of_lt hlt
  rw [toRound_get?, hfound]
  rfl

/-- The round hands out numbers of its own table only. -/
theorem isClosed (h : round.IsLoaded tops) : round.toRound.IsClosed := by
  constructor
  · rintro id owner ⟨element, hget, howner⟩
    rw [toRound_get?] at hget
    rcases h.covered _ _ hget with ⟨-, hnone, -⟩ | ⟨top, htop, occurrence, hwithin, hindex⟩
    · rw [hnone] at howner
      cases howner
    · obtain ⟨package, hpackage, hheld⟩ := h.held top htop
      obtain ⟨inside, hinside, hcases⟩ := hheld.of_isWithin hwithin
      cases hinside with
      | intro hsame _ _ hinside _ =>
          rw [hindex, hget] at hsame
          obtain rfl := Option.some.inj hsame
          obtain rfl := Option.some.inj (howner.symm.trans hinside)
          rcases hcases with ⟨-, rfl⟩ | ⟨middle, hmiddle, -, rfl⟩
          · obtain ⟨n, rfl, helement⟩ := h.package_eq _ _ hpackage
            exact isSome_get?_ofIndex helement
          · obtain ⟨_, hmiddleHeld, -⟩ := hheld.of_isWithin hmiddle
            cases hmiddleHeld with
            | intro hmiddleGet => exact isSome_get?_ofIndex hmiddleGet
  · intro identifier id hid
    have hmem : id ∈ round.ids := (List.mem_filter.1 hid).1
    obtain ⟨n, hn, rfl⟩ := List.mem_map.1 hmem
    obtain ⟨element, helement⟩ := exists_element?_of_lt (List.mem_range.1 hn)
    exact isSome_get?_ofIndex helement

/-- From what is within an occurrence one gets up to it. -/
theorem reaches_of_isWithin
    (h : round.IsLoaded tops) (hsize : round.elements.size < ElementId.count)
    {top outer inner : Occurrence} (htop : top ∈ tops) (houter : outer.IsWithin top)
    (hinner : inner.IsWithin outer) : round.toRound.table.Reaches inner.id outer.id := by
  obtain ⟨owner, -, hheld⟩ := h.held top htop
  induction hinner with
  | refl => exact Relation.ReflTransGen.refl
  | tail hmiddle hmember ih =>
      obtain ⟨inside, hmiddleHeld, -⟩ := hheld.of_isWithin (houter.trans hmiddle)
      cases hmiddleHeld with
      | intro _ _ _ _ hmembers =>
          cases hmembers _ hmember with
          | intro hget _ _ howner _ =>
              exact Relation.ReflTransGen.head ⟨_, get?_ofIndex hsize hget, howner⟩ ih

/-- From an occurrence one gets up to what it is within and to a package, and no farther. -/
theorem exists_of_reaches
    (h : round.IsLoaded tops) (hsize : round.elements.size < ElementId.count)
    {top inner : Occurrence} (htop : top ∈ tops) (hinner : inner.IsWithin top) {id : ElementId}
    (hreach : round.toRound.table.Reaches inner.id id) :
    (∃ outer : Occurrence, outer.IsWithin top ∧ inner.IsWithin outer ∧ outer.id = id) ∨
      ∃ element, round.toRound.table.get? id = some element ∧ element.kind = .package ∧
        element.enclosing = none := by
  induction hreach with
  | refl => exact Or.inl ⟨inner, hinner, Relation.ReflTransGen.refl, rfl⟩
  | tail _ hstep ih =>
      obtain ⟨element, hget, howner⟩ := hstep
      rcases ih with ⟨outer, houter, hwithin, rfl⟩ | ⟨package, hpackage, -, hnone⟩
      · obtain ⟨same, inside, hsame, -, -, hinside, hcases⟩ :=
          h.get?_occurrence hsize htop houter
        obtain rfl := Option.some.inj (hget.symm.trans hsame)
        obtain rfl := Option.some.inj (howner.symm.trans hinside)
        rcases hcases with ⟨-, hknown⟩ | ⟨middle, hmiddle, hmember, rfl⟩
        · exact Or.inr ⟨_, h.get?_package hsize hknown, rfl, rfl⟩
        · exact Or.inl ⟨middle, hmiddle, Relation.ReflTransGen.head hmember hwithin, rfl⟩
      · obtain rfl := Option.some.inj (hget.symm.trans hpackage)
        rw [hnone] at howner
        cases howner

/-- When only types have members, the way up from a type is the way its names say. -/
theorem leadsToPackage
    (h : round.IsLoaded tops) (hsize : round.elements.size < ElementId.count)
    {top occurrence : Occurrence} (htop : top ∈ tops) (hnames : top.names = [top.declaration.name])
    (hshape : top.declaration.Every Declaration.IsWellFormed)
    (hwithin : occurrence.IsWithin top) (hkind : occurrence.declaration.kind.isType) :
    round.toRound.table.LeadsToPackage occurrence.id occurrence.package occurrence.names := by
  obtain ⟨owner, hpackage, hheld⟩ := h.held top htop
  induction hwithin with
  | refl =>
      cases hheld with
      | intro hget hsame hname howner _ =>
          rw [hnames, ← hname]
          exact .type (get?_ofIndex hsize hget) (hsame ▸ hkind) howner
            (.package (h.get?_package hsize hpackage) rfl)
  | tail hmiddle hmember ih =>
      obtain ⟨hdeclared, hsamePackage, hpath⟩ := exists_of_mem_placeAll hmember
      have hshaped := Occurrence.IsWithin.every hmiddle hshape
      have htype := (Declaration.every_iff.1 hshaped).1.isType_of_members
        (List.ne_nil_of_mem hdeclared)
      obtain ⟨inside, hmiddleHeld, -⟩ := hheld.of_isWithin hmiddle
      cases hmiddleHeld with
      | intro _ _ _ _ hmembers =>
          cases hmembers _ hmember with
          | intro hget hsame hname howner _ =>
              rw [hpath, hsamePackage, ← hname]
              exact .type (get?_ofIndex hsize hget) (hsame ▸ hkind) howner (ih htype)

/-- The identity of a type is the one its names make. -/
theorem resolveIdentity_occurrence
    (h : round.IsLoaded tops) (hsize : round.elements.size < ElementId.count)
    {top occurrence : Occurrence} (htop : top ∈ tops) (hnames : top.names = [top.declaration.name])
    (hshape : top.declaration.Every Declaration.IsWellFormed)
    (hwithin : occurrence.IsWithin top) (hkind : occurrence.declaration.kind.isType) :
    resolveIdentity round.toRound.table occurrence.id = .ok occurrence.identity := by
  obtain ⟨element, _, hget, hsame, -⟩ := h.get?_occurrence hsize htop hwithin
  exact resolveIdentity_of_leadsToPackage hget (hsame ▸ hkind)
    (h.leadsToPackage hsize htop hnames hshape hwithin hkind)

/-- The classes that the standard annotations mark are the marked occurrences.  A package that carries
such an annotation marks nothing. -/
theorem mem_discover_iff
    (h : round.IsLoaded tops) (hsize : round.elements.size < ElementId.count) :
    ∃ classes events,
      discover .standard MarkerRegistry.standardIdentifiers round.toRound =
        (.ok classes, events) ∧
      ∀ id, id ∈ classes.toList ↔
        ∃ top ∈ tops, ∃ occurrence : Occurrence, occurrence.IsWithin top ∧
          occurrence.IsMarked round.toRound ∧ occurrence.id = id := by
  obtain ⟨classes, events, hdiscover, hmem⟩ := discover_of_isClosed h.isClosed .standard
    MarkerRegistry.standardIdentifiers
  refine ⟨classes, events, hdiscover, fun id => (hmem id).trans ?_⟩
  constructor
  · rintro ⟨identifier, hidentifier, -, start, hstart, hreach, element, hget, hkind⟩
    obtain ⟨found, hfound⟩ := Option.isSome_iff_exists.1
      (h.isClosed.annotated identifier start hstart)
    rcases h.exists_occurrence_of_get? hfound with
      ⟨hpackage, hnone⟩ | ⟨top, htop, inner, hinner, rfl⟩
    · -- Nothing is above a package, and a package is no class.
      rcases Relation.ReflTransGen.cases_head hreach with rfl | ⟨owner, hstep, -⟩
      · obtain rfl := Option.some.inj (hget.symm.trans hfound)
        rw [hkind] at hpackage
        cases hpackage
      · obtain ⟨same, hsame, howner⟩ := hstep
        obtain rfl := Option.some.inj (hfound.symm.trans hsame)
        rw [hnone] at howner
        cases howner
    · rcases h.exists_of_reaches hsize htop hinner hreach with
        ⟨outer, houter, hwithin, rfl⟩ | ⟨package, hpackage, hsame, -⟩
      · obtain ⟨same, _, hsame, hsameKind, -⟩ := h.get?_occurrence hsize htop houter
        obtain rfl := Option.some.inj (hget.symm.trans hsame)
        exact ⟨top, htop, outer, houter,
          ⟨hsameKind ▸ hkind, inner, hwithin, identifier, hidentifier, hstart⟩, rfl⟩
      · obtain rfl := Option.some.inj (hget.symm.trans hpackage)
        rw [hkind] at hsame
        cases hsame
  · rintro ⟨top, htop, outer, houter, ⟨hkind, inner, hinner, identifier, hidentifier, hstart⟩,
      rfl⟩
    obtain ⟨element, _, hget, hsame, -⟩ := h.get?_occurrence hsize htop houter
    have hregistered : ∀ identifier ∈ MarkerRegistry.standardIdentifiers,
        MarkerRegistry.standard.contains identifier := by
      decide
    exact ⟨identifier, hidentifier, hregistered identifier hidentifier, inner.id, hstart,
      h.reaches_of_isWithin hsize htop houter hinner, element, hget, hsame.trans hkind⟩

end SourceRound.IsLoaded

/-- An element is that of a package of one of the units or that of a declaration in one of them. -/
theorem exists_declaration_of_get?
    {units : List CompilationUnit} {id : ElementId} {element : Element}
    (hget : (SourceRound.ofUnits units).toRound.table.get? id = some element) :
    (∃ unit ∈ units, element.kind = .package ∧ unit.package.getD "" = element.qualifiedName) ∨
      ∃ unit ∈ units, ∃ declaration ∈ unit.types, ∃ inner : Declaration,
        (∀ p : Declaration → Prop, declaration.Every p → p inner) ∧
          element.kind = inner.kind ∧ element.simpleName = inner.name := by
  have hloaded := SourceRound.isLoaded_ofUnits units
  rw [SourceRound.toRound_get?] at hget
  rcases hloaded.covered _ _ hget with ⟨hkind, -, hknown⟩ | ⟨top, htop, occurrence, hwithin, hindex⟩
  · rcases SourceRound.exists_unit_of_find?_packages hknown with hnone | ⟨unit, hunit, hpackage⟩
    · cases hnone
    · exact Or.inl ⟨unit, hunit, hkind, hpackage⟩
  · obtain ⟨unit, hunit, hdeclared, -⟩ := exists_unit_of_mem_topLevelAfter htop
    obtain ⟨_, -, hheld⟩ := hloaded.held top htop
    obtain ⟨_, hinside, -⟩ := hheld.of_isWithin hwithin
    cases hinside with
    | intro hsame hkind hname _ _ =>
        rw [hindex, hget] at hsame
        obtain rfl := Option.some.inj hsame
        exact Or.inr ⟨unit, hunit, top.declaration, hdeclared, occurrence.declaration,
          fun p hevery => (Declaration.every_iff.1 (hwithin.every hevery)).1, hkind, hname⟩

/-- The package of an identity is the package of one of the units. -/
theorem exists_unit_of_resolveIdentity
    {units : List CompilationUnit}
    (hproper : ∀ unit ∈ units, ∀ declaration ∈ unit.types,
      declaration.Every Declaration.IsProper)
    {id : ElementId} {identity : ArtifactIdentity}
    (h : resolveIdentity (SourceRound.ofUnits units).toRound.table id = .ok identity) :
    ∃ unit ∈ units, unit.package.getD "" = identity.package := by
  obtain ⟨owner, element, hget, hkind, hname⟩ := exists_package_of_resolveIdentity h
  rcases exists_declaration_of_get? hget with
    ⟨unit, hunit, -, hpackage⟩ | ⟨unit, hunit, declaration, hdeclared, inner, hinner, hsame, -⟩
  · exact ⟨unit, hunit, hpackage.trans hname⟩
  · -- What is declared is not a package.
    have hne := (hinner _ (hproper unit hunit declaration hdeclared)).kind_ne
    exact absurd (hsame.symm.trans hkind) hne

end ComponentMarkers.Source
