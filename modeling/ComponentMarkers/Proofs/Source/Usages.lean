import ComponentMarkers.Proofs.Source.TypeNames

/-!
# Where annotations are written

Every element of a round is the package of some unit or a declaration of one.  An element carries an
annotation if and only if a text that is written on it, in whatever unit, denotes the annotation among
the names of that unit.
-/

namespace ComponentMarkers.Source

namespace SourceRound

/-- Elements that are in no other one are the packages the round knows. -/
def PackagesCover (round : SourceRound) : Prop :=
  ∀ n element, round.element? n = some element → element.enclosing = none →
    round.packages.find? element.qualifiedName = some (.ofIndex n)

theorem PackagesCover.of_eq
    {before after : SourceRound} (h : before.PackagesCover)
    (helements : ∀ n, after.element? n = before.element? n)
    (hpackages : after.packages = before.packages) : after.PackagesCover := by
  intro n element helement howner
  rw [hpackages]
  exact h n element ((helements n).symm.trans helement) howner

theorem PackagesCover.declare
    {round : SourceRound} (h : round.PackagesCover) (unit : Nat) (source : Option Path)
    (owner : ElementId) (declaration : Declaration) :
    (round.declare unit source owner declaration).PackagesCover := by
  intro n element helement howner
  obtain ⟨qualifiedName, hdeclare⟩ := element?_declare round unit source owner declaration
  rw [hdeclare] at helement
  by_cases hn : n = round.elements.size
  · rw [if_pos hn] at helement
    rw [← Option.some.inj helement] at howner
    cases howner
  · rw [if_neg hn] at helement
    exact h n element helement howner

theorem PackagesCover.openUnit
    {round : SourceRound} (h : round.PackagesCover) (unit : CompilationUnit) :
    (round.openUnit unit).1.PackagesCover := by
  rw [openUnit_eq]
  rcases (round.withContext unit).package_cases (unit.package.getD "") with
    ⟨id, -, hpackage⟩ | ⟨hnone, hpackage⟩
  · rw [hpackage]
    exact h.of_eq (fun _ => rfl) rfl
  · rw [hpackage]
    intro n element helement howner
    rw [element?_withPackage] at helement
    rw [find?_withPackage hnone]
    by_cases hn : n = round.elements.size
    · obtain rfl := Option.some.inj ((if_pos hn).symm.trans helement)
      rw [hn]
      exact if_pos rfl
    · have hold := h n element ((if_neg hn).symm.trans helement) howner
      refine (if_neg ?_).trans hold
      intro hsame
      rw [hsame] at hold
      cases hold.symm.trans hnone

theorem packagesCover_ofUnits (units : List CompilationUnit) : (ofUnits units).PackagesCover := by
  induction units using List.reverseRecOn with
  | nil =>
      have hempty : (ofUnits []).PackagesCover := by
        intro n element helement
        cases helement
      exact hempty
  | append_singleton units unit ih =>
      rw [ofUnits_concat]
      refine addUnit_induction (ih.openUnit unit) ?_ ?_ ?_
      · intro round id names hround
        exact hround.of_eq (element?_annotate round id names) rfl
      · intro round owner declaration hround
        exact hround.declare _ unit.path owner declaration
      · intro round roots isOver hround
        exact hround.of_eq (fun _ => rfl) rfl

theorem mem_topLevelAfter_iff (before rest : List CompilationUnit) (top : Occurrence) :
    top ∈ (ofUnits before).topLevelAfter rest ↔
      ∃ k unit, rest[k]? = some unit ∧ top ∈ typesAt (before ++ rest) (before.length + k) unit := by
  induction rest generalizing before with
  | nil =>
      rw [topLevelAfter]
      simp
  | cons unit rest ih =>
      have hself : typesAt (before ++ unit :: rest) before.length unit =
          placeAll (unit.package.getD "") [] ((ofUnits before).openUnit unit).1.elements.size
            unit.types := by
        rw [typesAt, List.take_left]
      rw [topLevelAfter, List.mem_append, ← ofUnits_concat, ih, List.append_assoc,
        List.singleton_append, ← hself]
      constructor
      · rintro (htop | ⟨k, other, hother, htop⟩)
        · exact ⟨0, unit, rfl, htop⟩
        · refine ⟨k + 1, other, hother, ?_⟩
          rwa [List.length_append, List.length_singleton, Nat.add_assoc, Nat.add_comm 1] at htop
      · rintro ⟨k, other, hother, htop⟩
        cases k with
        | zero =>
            obtain rfl := Option.some.inj hother
            exact Or.inl htop
        | succ k =>
            refine Or.inr ⟨k, other, hother, ?_⟩
            rwa [List.length_append, List.length_singleton, Nat.add_assoc, Nat.add_comm 1]

/-- The types at the top of some units are those of each of them. -/
theorem mem_topLevel_iff (units : List CompilationUnit) (top : Occurrence) :
    top ∈ topLevel units ↔
      ∃ k unit, units[k]? = some unit ∧ top ∈ typesAt units k unit := by
  have h := mem_topLevelAfter_iff [] units top
  simp only [List.nil_append, List.length_nil, Nat.zero_add] at h
  exact h

/-- The round was made from the units: it knows them and their types and has nothing else. -/
structure IsMadeOf (round : SourceRound) (units : List CompilationUnit) : Prop
    extends round.Knows units where
  types : round.IndexesTypes
  covered : ∀ n element, round.element? n = some element →
    (element.enclosing = none ∧
        round.packages.find? element.qualifiedName = some (.ofIndex n)) ∨
      ∃ k unit, units[k]? = some unit ∧
        ∃ top ∈ typesAt units k unit, ∃ occurrence : Occurrence,
          occurrence.IsWithin top ∧ occurrence.index = n
  known : ∀ name id, round.packages.find? name = some id →
    ∃ unit ∈ units, unit.package.getD "" = name

theorem isMadeOf_ofUnits
    (units : List CompilationUnit) (hsize : (ofUnits units).elements.size < ElementId.count) :
    (ofUnits units).IsMadeOf units := by
  refine ⟨knows_ofUnits units hsize, indexesTypes_ofUnits units, ?_, ?_⟩
  · intro n element helement
    rcases (isLoaded_ofUnits units).covered n element helement with
      ⟨-, howner, -⟩ | ⟨top, htop, occurrence, hwithin, hindex⟩
    · exact Or.inl ⟨howner, packagesCover_ofUnits units n element helement howner⟩
    · obtain ⟨k, unit, hunit, htypes⟩ := (mem_topLevel_iff units top).1 htop
      exact Or.inr ⟨k, unit, hunit, top, htypes, occurrence, hwithin, hindex⟩
  · intro name id hid
    have hsome : ((ofUnits units).packages.find? name).isSome := by
      rw [hid]
      rfl
    rcases exists_unit_of_find?_packages hsome with hnone | hfound
    · cases hnone
    · exact hfound

theorem IsMadeOf.framed
    {round : SourceRound} {units : List CompilationUnit} (h : round.IsMadeOf units)
    (roots : List ElementId) (isOver : Bool) : (round.framed roots isOver).IsMadeOf units := by
  have hkeeps : round.Keeps (round.framed roots isOver) := fun _ _ hkept => hkept
  refine ⟨⟨h.units_eq, h.packages, ?_⟩, h.types.of_eq (fun _ => rfl) rfl, h.covered, h.known⟩
  intro k unit hunit
  obtain ⟨hpackage, htops⟩ := h.entered k unit hunit
  exact ⟨hpackage, fun top htop => ⟨(htops top htop).1.of_keeps hkeeps, (htops top htop).2⟩⟩

/-- Whatever it was started from, a round is made of the units that were added. -/
theorem Reached.isMadeOf
    {units : List CompilationUnit} {round : SourceRound} (h : Reached units round)
    (hsize : round.elements.size < ElementId.count) : round.IsMadeOf units := by
  obtain ⟨roots, isOver, rfl⟩ := h.exists_framed
  exact (isMadeOf_ofUnits units hsize).framed roots isOver

/-- The text is written as an annotation on an element, in the unit with number `k`. -/
inductive WrittenOn (units : List CompilationUnit) (k : Nat) (unit : CompilationUnit)
    (text : String) : ElementId → Prop where
  | package (htext : text ∈ unit.packageAnnotations) :
      WrittenOn units k unit text (packageAt units k unit)
  | declaration {top occurrence : Occurrence} (htop : top ∈ typesAt units k unit)
      (hwithin : occurrence.IsWithin top) (htext : text ∈ occurrence.declaration.annotations) :
      WrittenOn units k unit text occurrence.id

/-- A text on the element denotes the annotation in the unit it is written in. -/
def IsUsedOn (units : List CompilationUnit) (identifier : String) (id : ElementId) : Prop :=
  ∃ k unit text, units[k]? = some unit ∧ WrittenOn units k unit text id ∧
    unit.context.denotes text identifier

end SourceRound

open SourceRound

/-- What is entered is entered with all that is within it. -/
theorem Occurrence.IsEntered.of_isWithin
    {round : SourceRound} {unit : Nat} {source : Option Path} {owner : ElementId}
    {ownerName : String} {top occurrence : Occurrence}
    (h : top.IsEntered round unit source owner ownerName) (hwithin : occurrence.IsWithin top) :
    ∃ inside insideName, occurrence.IsEntered round unit source inside insideName := by
  induction hwithin with
  | refl => exact ⟨owner, ownerName, h⟩
  | tail _ hmember ih =>
      obtain ⟨_, _, hentered⟩ := ih
      cases hentered with
      | intro _ hmembers => exact ⟨_, _, hmembers _ hmember⟩

namespace SourceRound.IsMadeOf

variable {round : SourceRound} {units : List CompilationUnit}

theorem contextOf_eq
    (h : round.IsMadeOf units) {name : WrittenName} {unit : CompilationUnit}
    (hunit : units[name.unit]? = some unit) : round.contextOf name = unit.context := by
  have hcontext : round.units[name.unit]? = some unit.context := by
    rw [← Array.getElem?_toList, h.units_eq, List.getElem?_map, hunit]
    rfl
  rw [contextOf, hcontext]
  rfl

/-- The entry of an occurrence. -/
theorem get?_occurrence
    (h : round.IsMadeOf units) (hsize : round.elements.size < ElementId.count) {k : Nat}
    {unit : CompilationUnit} (hunit : units[k]? = some unit) {top occurrence : Occurrence}
    (htop : top ∈ typesAt units k unit) (hwithin : occurrence.IsWithin top) :
    ∃ owner ownerName, round.get? occurrence.id =
      some (occurrence.declaration.entry k unit.path owner ownerName) := by
  obtain ⟨owner, ownerName, hentered⟩ :=
    ((h.entered k unit hunit).2 top htop).1.of_isWithin hwithin
  exact ⟨owner, ownerName, (hentered.get?_id hsize).2⟩

/-- The annotations of an element are the texts written on it, each in its unit. -/
theorem usage_iff
    (h : round.IsMadeOf units) (hsize : round.elements.size < ElementId.count) {id : ElementId}
    {found : SourceElement} (hget : round.get? id = some found) (usage : WrittenName) :
    usage ∈ found.annotations ↔
      ∃ unit, units[usage.unit]? = some unit ∧ WrittenOn units usage.unit unit usage.text id := by
  constructor
  · intro husage
    rcases h.covered _ _ (element?_of_get? hget) with
      ⟨-, hknown⟩ | ⟨k, unit, hunit, top, htop, occurrence, hwithin, hindex⟩
    · rw [ElementId.ofIndex_index] at hknown
      obtain ⟨same, hsame, -, -, husages⟩ := h.packages _ _ hknown
      obtain rfl := Option.some.inj (hget.symm.trans hsame)
      obtain ⟨unit, hunit, hname, htext⟩ := (husages usage).1 husage
      have hpackage := (h.entered usage.unit unit hunit).1
      rw [hname, hknown] at hpackage
      obtain rfl := Option.some.inj hpackage
      exact ⟨unit, hunit, .package htext⟩
    · obtain rfl : occurrence.id = id := by
        rw [Occurrence.id, hindex, ElementId.ofIndex_index]
      obtain ⟨owner, ownerName, hentry⟩ := h.get?_occurrence hsize hunit htop hwithin
      obtain rfl := Option.some.inj (hget.symm.trans hentry)
      obtain ⟨text, htext, rfl⟩ := List.mem_map.1 husage
      exact ⟨unit, hunit, .declaration htop hwithin htext⟩
  · rintro ⟨unit, hunit, hwritten⟩
    obtain ⟨text, k⟩ := usage
    dsimp only at hunit hwritten
    cases hwritten with
    | package htext =>
        obtain ⟨same, hsame, -, -, husages⟩ := h.packages _ _ (h.entered k unit hunit).1
        obtain rfl := Option.some.inj (hget.symm.trans hsame)
        exact (husages _).2 ⟨unit, hunit, rfl, htext⟩
    | declaration htop hwithin htext =>
        obtain ⟨owner, ownerName, hentry⟩ := h.get?_occurrence hsize hunit htop hwithin
        obtain rfl := Option.some.inj (hget.symm.trans hentry)
        exact List.mem_map_of_mem htext

theorem isSome_get?_of_writtenOn
    (h : round.IsMadeOf units) (hsize : round.elements.size < ElementId.count) {k : Nat}
    {unit : CompilationUnit} (hunit : units[k]? = some unit) {text : String} {id : ElementId}
    (hwritten : WrittenOn units k unit text id) : ∃ found, round.get? id = some found := by
  cases hwritten with
  | package _ =>
      obtain ⟨found, hget, -⟩ := h.packages _ _ (h.entered k unit hunit).1
      exact ⟨found, hget⟩
  | declaration htop hwithin _ =>
      obtain ⟨owner, ownerName, hentry⟩ := h.get?_occurrence hsize hunit htop hwithin
      exact ⟨_, hentry⟩

/-- An element carries the annotations that are used on it. -/
theorem carries_iff
    (h : round.IsMadeOf units) (hsize : round.elements.size < ElementId.count) (id : ElementId)
    (identifier : String) : round.carries id identifier ↔ IsUsedOn units identifier id := by
  rw [carries, Option.any_eq_true]
  constructor
  · rintro ⟨found, hget, hany⟩
    obtain ⟨usage, husage, hdenotes⟩ := List.any_eq_true.1 hany
    obtain ⟨unit, hunit, hwritten⟩ := (h.usage_iff hsize hget usage).1 husage
    rw [h.contextOf_eq hunit] at hdenotes
    exact ⟨usage.unit, unit, usage.text, hunit, hwritten, hdenotes⟩
  · rintro ⟨k, unit, text, hunit, hwritten, hdenotes⟩
    obtain ⟨found, hget⟩ := h.isSome_get?_of_writtenOn hsize hunit hwritten
    refine ⟨found, hget, List.any_eq_true.2 ⟨⟨text, k⟩, ?_, ?_⟩⟩
    · exact (h.usage_iff hsize hget ⟨text, k⟩).2 ⟨unit, hunit, hwritten⟩
    · rw [h.contextOf_eq hunit]
      exact hdenotes

end SourceRound.IsMadeOf

end ComponentMarkers.Source
