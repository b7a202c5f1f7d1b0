import ComponentMarkers.Proofs.Marking.Results
import ComponentMarkers.Proofs.Source.Identities

/-!
# Types of sources belong to their packages

A round of units is built from the packages down, and identities are resolved from the types up.  Both can
be read off the place of a type: around it are types only and then the package of its own unit.  So every
type of a round has an identity, of the same names as its qualified name, and no class of the round is
reported as being without a package.

A qualified name does not begin with a dot.  Names without characters leave no trace in front of the first
name that has some.
-/

namespace ComponentMarkers.Source

open Text

/-! ## Names of places -/

theorem intercalate_cons_ne_empty
    (separator : String) {first : String} (hfirst : first ≠ "") (rest : List String) :
    separator.intercalate (first :: rest) ≠ "" := by
  cases rest with
  | nil => simpa using hfirst
  | cons next others =>
      rw [String.intercalate_cons_cons]
      intro hempty
      rw [String.append_assoc, String.append_eq_empty_iff] at hempty
      exact hfirst hempty.1

/-- A name inside others that are joined by dots, empty ones in front left out, is joined to them. -/
theorem qualify_intercalate (names : List String) (name : String) :
    qualify (".".intercalate (names.dropWhile String.isEmpty)) name =
      ".".intercalate ((names ++ [name]).dropWhile String.isEmpty) := by
  rw [List.dropWhile_append]
  have hhead := List.head?_dropWhile_not String.isEmpty names
  cases hrest : names.dropWhile String.isEmpty with
  | nil =>
      by_cases hempty : name.isEmpty
      · rw [String.isEmpty_iff.1 hempty]
        rfl
      · simp [qualify, hempty]
  | cons first rest =>
      rw [hrest] at hhead
      have hne := intercalate_cons_ne_empty "." (String.isEmpty_eq_false_iff.1 hhead) rest
      rw [qualify, String.isEmpty_eq_false_iff.2 hne, if_neg Bool.false_ne_true,
        if_neg (by simp), String.intercalate_append_of_ne_nil (List.cons_ne_nil _ _)
          (List.cons_ne_nil _ _), String.intercalate_singleton]

/-- The simple names on the way to a place, the outermost first. -/
def namesTo (place : List Declaration) : List String :=
  (place.map Declaration.name).reverse

theorem namesTo_cons (declaration : Declaration) (outer : List Declaration) :
    namesTo (declaration :: outer) = namesTo outer ++ [declaration.name] := by
  rw [namesTo, List.map_cons, List.reverse_cons]
  rfl

namespace CompilationUnit

variable {unit : CompilationUnit}

/-- The qualified name of a place is made of the package and the names on the way. -/
theorem nameAt_eq (unit : CompilationUnit) (place : List Declaration) :
    unit.nameAt place =
      ".".intercalate ((unit.package.getD "" :: namesTo place).dropWhile String.isEmpty) := by
  induction place with
  | nil =>
      rw [nameAt]
      by_cases hempty : (unit.package.getD "").isEmpty
      · rw [List.dropWhile_cons_of_pos hempty, String.isEmpty_iff.1 hempty]
        rfl
      · rw [List.dropWhile_cons_of_neg hempty]
        exact String.intercalate_singleton.symm
  | cons declaration outer ih =>
      rw [nameAt, ih, qualify_intercalate, namesTo_cons]
      rfl

/-- What is true of the declarations of a unit at every depth is true at its places. -/
theorem HasPlace.every
    {p : Declaration → Prop} {place : List Declaration} (h : unit.HasPlace place)
    (hunit : ∀ declaration ∈ unit.types, declaration.Every p) :
    ∀ declaration ∈ place, declaration.Every p := by
  induction h with
  | package => simp
  | @inside outer declaration _ hdeclared ih =>
      refine List.forall_mem_cons.2 ⟨?_, ih⟩
      cases outer with
      | nil => exact hunit declaration hdeclared
      | cons owner around =>
          have howner := ih owner List.mem_cons_self
          exact (Declaration.every_iff.1 howner).2 declaration hdeclared

/-- Around a place there are types only. -/
theorem HasPlace.isType_of_mem_outer
    {declaration : Declaration} {outer : List Declaration}
    (h : unit.HasPlace (declaration :: outer))
    (hproper : ∀ type ∈ unit.types, type.Every Declaration.IsProper) :
    ∀ owner ∈ outer, owner.kind.isType := by
  induction outer generalizing declaration with
  | nil => simp
  | cons owner around ih =>
      cases h with
      | inside houter hdeclared =>
          have howner := houter.every hproper owner List.mem_cons_self
          refine List.forall_mem_cons.2 ⟨?_, ih houter⟩
          apply (Declaration.every_iff.1 howner).1.isType_of_members
          exact List.ne_nil_of_mem hdeclared

/-- Past types a climb comes to the package of the unit. -/
theorem climbPlace_of_forall_isType
    {outer : List Declaration} (htypes : ∀ owner ∈ outer, owner.kind.isType) (names : List String) :
    unit.climbPlace names outer = .ok (unit.package.getD "", namesTo outer ++ names) := by
  induction outer generalizing names with
  | nil => rfl
  | cons owner around ih =>
      obtain ⟨howner, haround⟩ := List.forall_mem_cons.1 htypes
      rw [climbPlace, ElementKind.isPackage_eq_false_of_isType howner, if_neg Bool.false_ne_true,
        if_pos howner, ih haround, namesTo_cons, List.append_assoc]
      rfl

/-- Whatever is declared at a place has the package of the unit and the names on the way as its
identity. -/
theorem HasPlace.identityAt_eq
    {declaration : Declaration} {outer : List Declaration}
    (h : unit.HasPlace (declaration :: outer))
    (hproper : ∀ type ∈ unit.types, type.Every Declaration.IsProper) :
    unit.identityAt declaration outer =
      .ok ⟨unit.package.getD "",
        ArtifactIdentity.separator.intercalate (namesTo (declaration :: outer))⟩ := by
  rw [identityAt, climbPlace_of_forall_isType (h.isType_of_mem_outer hproper), namesTo_cons]

end CompilationUnit

/-! ## Rounds of units -/

section Rounds

variable {units : List CompilationUnit} {round : SourceRound}

/-- The numbers that a round of units hands out belong to its table. -/
theorem SourceRound.Reached.isClosed
    (h : Reached units round) (hsize : round.elements.size < ElementId.count) :
    round.toRound.IsClosed := by
  have hmade := h.isMadeOf hsize
  constructor
  · intro id owner howner
    have hknown := howner
    obtain ⟨element, hget, -⟩ := hknown
    rw [toRound_get?] at hget
    obtain ⟨found, hfound, -⟩ := Option.map_eq_some_iff.1 hget
    obtain ⟨unit, place, hstands⟩ := hmade.exists_place hsize hfound
    obtain ⟨_, outer, -, hstandsOwner⟩ := hstands.owner_of_enclosedBy hmade howner
    obtain ⟨ownerFound, hownerFound, -⟩ := hstandsOwner.exists_get? hmade
    exact Option.isSome_of_eq_some (table_get?_of_get? hownerFound)
  · intro identifier id hid
    obtain ⟨n, hn, rfl⟩ := List.mem_map.1 (List.mem_filter.1 hid).1
    have hlt := List.mem_range.1 hn
    obtain ⟨element, helement⟩ := exists_element?_of_lt hlt
    rw [toRound_get?, ElementId.index_ofIndex_of_lt (Nat.lt_trans hlt hsize), helement]
    rfl

/-- A type of a round stands at a place of its unit, where its names can be read off. -/
theorem SourceRound.Reached.exists_identity
    (h : Reached units round) (hsize : round.elements.size < ElementId.count)
    (hproper : ∀ unit ∈ units, ∀ type ∈ unit.types, type.Every Declaration.IsProper)
    {id : ElementId} {element : Element} (hget : round.toRound.table.get? id = some element)
    (htype : element.kind.isType) :
    ∃ unit place, round.StandsAt units unit id place ∧
      resolveIdentity round.toRound.table id =
        .ok ⟨unit.package.getD "", ArtifactIdentity.separator.intercalate (namesTo place)⟩ ∧
      element.qualifiedName =
        ".".intercalate ((unit.package.getD "" :: namesTo place).dropWhile String.isEmpty) := by
  have hmade := h.isMadeOf hsize
  rw [toRound_get?] at hget
  obtain ⟨found, hfound, rfl⟩ := Option.map_eq_some_iff.1 hget
  obtain ⟨unit, place, hstands⟩ := hmade.exists_place hsize hfound
  obtain ⟨same, hsame, hname, hkind⟩ := hstands.exists_get? hmade
  obtain rfl := Option.some.inj (hsame.symm.trans hfound)
  cases place with
  | nil =>
      rw [hkind] at htype
      cases htype
  | cons declaration outer =>
      refine ⟨unit, declaration :: outer, hstands, ?_, ?_⟩
      · rw [hstands.resolveIdentity_eq hmade]
        exact hstands.hasPlace.identityAt_eq (hproper unit hstands.mem_units)
      · rw [hname, unit.nameAt_eq]

end Rounds

end ComponentMarkers.Source

namespace ComponentMarkers

open Source SourceRound

variable {σ ω : Type}

/-- Classes that have identities are marked, or their markers cannot be written. -/
theorem MarksAll.forall_ne_unresolved
    {filer : Filer σ ω} {now : Timestamp} {table : ElementTable} {ids : List ElementId}
    {state last : σ} {results : List MarkResult}
    (h : MarksAll filer now table ids state results last)
    (hids : ∀ id ∈ ids, ∃ identity, resolveIdentity table id = .ok identity) :
    ∀ result ∈ results, ∀ id error, result ≠ .unresolved id error := by
  induction h with
  | nil => simp
  | cons hfirst _ ih =>
      obtain ⟨⟨identity, hidentity⟩, hrest⟩ := List.forall_mem_cons.1 hids
      refine List.forall_mem_cons.2 ⟨?_, ih hrest⟩
      rintro _ error rfl
      cases hfirst with
      | unresolved herror => cases hidentity.symm.trans herror

/-- The two complaints about a class begin with different words. -/
theorem unwritten_ne_unresolved (name : String) (error : IoError) (fault : StructuralError) :
    "Could not write source for: " ++ name ++ ": " ++ error.message ≠
      "Could not resolve owning package for: " ++ fault.message := by
  intro h
  have hletter := congrArg (fun text => text.toList[10]?) h
  simp only [String.toList_append, List.append_assoc] at hletter
  rw [List.getElem?_append_left (by decide), List.getElem?_append_left (by decide)] at hletter
  exact absurd hletter (by decide)

/-- A round in which every class has an identity reports no class as being without a package and passes
none over. -/
theorem processRound_of_resolved
    {round : Round} (hround : round.IsClosed)
    (hresolved : ∀ id element, round.table.get? id = some element → element.kind.isType →
      ∃ identity, resolveIdentity round.table id = .ok identity)
    (filer : Filer σ ω) (now : Timestamp) (registry : MarkerRegistry) (annotations : List String)
    (state : σ) :
    ∃ outcome last,
      processRound filer now registry annotations round state =
        ((.ok outcome, (discover registry annotations round).2), last) ∧
      ∀ error : StructuralError,
        .error ("Could not resolve owning package for: " ++ error.message) ∉
          outcome.diagnostics := by
  obtain ⟨classes, collected, hdiscover, hclasses⟩ :=
    discover_of_isClosed hround registry annotations
  obtain ⟨outcome, events, last, hrun⟩ := exists_processRound_of_discover filer now state hdiscover
  obtain ⟨same, _, results, hsame, hmarks, houtcome, hevents⟩ := processRound_eq_ok_iff.1 hrun
  obtain ⟨rfl, rfl⟩ : classes = same ∧ _ = _ := by
    rw [hdiscover] at hsame
    simpa using hsame
  have hne := hmarks.forall_ne_unresolved (by
    intro id hid
    obtain ⟨_, _, _, _, _, _, element, hget, hkind⟩ := (hclasses id).1 hid
    exact hresolved id element hget (by rw [hkind]; rfl))
  refine ⟨outcome, last, ?_, ?_⟩
  · rw [hrun, hevents, hdiscover]
    have hnone : results.filterMap MarkResult.event? = [] := by
      rw [List.filterMap_eq_nil_iff]
      intro result hresult
      cases result with
      | unresolved id error => exact absurd rfl (hne _ hresult id error)
      | marked => rfl
      | unwritten => rfl
    rw [hnone, List.append_nil]
  · intro error hmem
    rw [houtcome] at hmem
    obtain ⟨result, hresult, hdiagnostic⟩ := List.mem_filterMap.1 hmem
    cases result with
    | marked => cases hdiagnostic
    | unresolved id fault => exact hne _ hresult id fault rfl
    | unwritten name failure =>
        have hmessage := congrArg Diagnostic.message (Option.some.inj hdiagnostic)
        exact unwritten_ne_unresolved name failure error hmessage

/-- Every type in a round of units, which may be added in any order and whose declarations are no packages
and have members only as types, has an identity.  Its package is the one of the unit that the type stands
in, and its nested name has the simple names on the way to the type, the outermost first.  The same names
behind the package, joined by dots, are the qualified name, except that empty ones in front leave no dot.
So processing the round always succeeds, and never are classes passed over or reported for want of a
package. -/
theorem types_belong_to_packages
    (units : List CompilationUnit) (round : SourceRound) (hround : Reached units round)
    (hsize : round.elements.size < ElementId.count)
    (hproper : ∀ unit ∈ units, ∀ type ∈ unit.types, type.Every Declaration.IsProper) :
    (∀ id element, round.toRound.table.get? id = some element → element.kind.isType →
      ∃ unit place, round.StandsAt units unit id place ∧
        resolveIdentity round.toRound.table id =
          .ok ⟨unit.package.getD "", ArtifactIdentity.separator.intercalate (namesTo place)⟩ ∧
        element.qualifiedName =
          ".".intercalate ((unit.package.getD "" :: namesTo place).dropWhile String.isEmpty)) ∧
      ∀ (σ ω : Type) (filer : Filer σ ω) (now : Timestamp) (registry : MarkerRegistry)
        (annotations : List String) (state : σ), ∃ outcome last,
          processRound filer now registry annotations round.toRound state =
            ((.ok outcome, (discover registry annotations round.toRound).2), last) ∧
          ∀ error : StructuralError,
            .error ("Could not resolve owning package for: " ++ error.message) ∉
              outcome.diagnostics := by
  have hidentity := @Reached.exists_identity units round hround hsize hproper
  constructor
  · intro id element hget htype
    exact hidentity hget htype
  · intro σ ω filer now registry annotations state
    apply processRound_of_resolved (hround.isClosed hsize)
    intro id element hget htype
    obtain ⟨_, _, -, hresolve, -⟩ := hidentity hget htype
    exact ⟨_, hresolve⟩

theorem isProper_iff {declaration : Declaration} :
    declaration.IsProper ↔
      declaration.kind ≠ .package ∧ (declaration.members ≠ [] → declaration.kind.isType) :=
  ⟨fun h => ⟨h.kind_ne, h.isType_of_members⟩, fun h => ⟨h.1, h.2⟩⟩

/-- A class in a record in a class of a package, and an enum in an interface without one. -/
def scatteredUnits : List CompilationUnit :=
  [⟨none, some "shop", [], [],
    [⟨.classType, "Cart", [], none,
      [⟨.record, "Item", [], none, [⟨.classType, "Part", [], none, []⟩]⟩]⟩]⟩,
    ⟨none, none, [], [], [⟨.interface, "Tool", [], none, [⟨.enum, "Size", [], none, []⟩]⟩]⟩]

/-- The types of both units have the packages of their units, whatever is found to be annotated. -/
theorem types_belong_to_packages_scatteredUnits :
    (∃ unit place, (ofUnits scatteredUnits).StandsAt scatteredUnits unit ⟨3⟩ place ∧
        resolveIdentity (ofUnits scatteredUnits).toRound.table ⟨3⟩ =
          .ok ⟨unit.package.getD "", ArtifactIdentity.separator.intercalate (namesTo place)⟩ ∧
        "shop.Cart.Item.Part" =
          ".".intercalate ((unit.package.getD "" :: namesTo place).dropWhile String.isEmpty)) ∧
      (∃ unit place, (ofUnits scatteredUnits).StandsAt scatteredUnits unit ⟨6⟩ place ∧
        resolveIdentity (ofUnits scatteredUnits).toRound.table ⟨6⟩ =
          .ok ⟨unit.package.getD "", ArtifactIdentity.separator.intercalate (namesTo place)⟩ ∧
        "Tool.Size" =
          ".".intercalate ((unit.package.getD "" :: namesTo place).dropWhile String.isEmpty)) := by
  have hround : Reached scatteredUnits (ofUnits scatteredUnits) := .addUnit (.addUnit .new _) _
  have hproper : ∀ unit ∈ scatteredUnits, ∀ type ∈ unit.types, type.Every Declaration.IsProper := by
    simp [scatteredUnits, Declaration.Every, EveryAmong, isProper_iff, ElementKind.isType]
  obtain ⟨htypes, -⟩ := types_belong_to_packages scatteredUnits (ofUnits scatteredUnits) hround
    (by decide +kernel) hproper
  constructor
  · exact htypes ⟨3⟩ ⟨.classType, "Part", "shop.Cart.Item.Part", some ⟨2⟩⟩ (by decide +kernel) rfl
  · exact htypes ⟨6⟩ ⟨.enum, "Size", "Tool.Size", some ⟨5⟩⟩ (by decide +kernel) rfl

/-- A class without a name, in no package, with a class in it. -/
def namelessUnit : CompilationUnit :=
  ⟨none, none, [], [], [⟨.classType, "", [], none, [⟨.classType, "B", [], none, []⟩]⟩]⟩

/-- Joining the package, if it has a name, and the names of the types by dots does not always give the
qualified name: an empty name of the outermost type would leave a dot in front. -/
theorem not_qualifiedName_eq_joined :
    ¬ ∀ (units : List CompilationUnit) (round : SourceRound), Reached units round →
      round.elements.size < ElementId.count →
      (∀ unit ∈ units, ∀ type ∈ unit.types, type.Every Declaration.IsProper) →
        ∀ id element, round.toRound.table.get? id = some element → element.kind.isType →
          ∃ unit place, round.StandsAt units unit id place ∧
            element.qualifiedName =
              ".".intercalate
                (if unit.package.getD "" = "" then namesTo place
                else unit.package.getD "" :: namesTo place) := by
  intro h
  have hproper : ∀ unit ∈ [namelessUnit], ∀ type ∈ unit.types,
      type.Every Declaration.IsProper := by
    simp [namelessUnit, Declaration.Every, EveryAmong, isProper_iff, ElementKind.isType]
  obtain ⟨unit, place, hstands, hname⟩ := h [namelessUnit] (ofUnits [namelessUnit])
    (.addUnit .new namelessUnit) (by decide +kernel) hproper ⟨2⟩
    ⟨.classType, "B", "B", some ⟨1⟩⟩ (by decide +kernel) rfl
  obtain rfl := List.mem_singleton.1 hstands.mem_units
  have hplace : place = [] ∨ place ∈ placesAmong [] namelessUnit.types := by
    by_cases hempty : place = []
    · exact Or.inl hempty
    · exact Or.inr (hstands.hasPlace.mem_placesAmong hempty)
  have hplaces : placesAmong [] namelessUnit.types =
      [[⟨.classType, "", [], none, [⟨.classType, "B", [], none, []⟩]⟩],
        [⟨.classType, "B", [], none, []⟩,
          ⟨.classType, "", [], none, [⟨.classType, "B", [], none, []⟩]⟩]] := by
    simp [namelessUnit, placesAmong, Declaration.places]
  rw [hplaces] at hplace
  simp only [List.mem_cons, List.not_mem_nil, or_false] at hplace
  rcases hplace with rfl | rfl | rfl
  · exact absurd hname (by decide)
  · exact absurd hname (by decide)
  · exact absurd hname (by decide)

end ComponentMarkers
