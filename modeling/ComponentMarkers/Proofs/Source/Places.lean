import ComponentMarkers.Proofs.Source.Inheritance
import Mathlib.Data.List.Nodup

/-!
# Places of elements

A place is said without numbers: a unit, and the declarations around and at the place, the innermost
first.  Every element of a round stands at a place of one of its units, and what the round knows of the
element can be read off the place.
-/

namespace ComponentMarkers.Source

open Text

mutual

/-- The places of a declaration and of everything within it. -/
def Declaration.places (outer : List Declaration) : Declaration → List (List Declaration)
  | ⟨kind, name, annotations, superclass, members⟩ =>
    (⟨kind, name, annotations, superclass, members⟩ :: outer) ::
      placesAmong (⟨kind, name, annotations, superclass, members⟩ :: outer) members

/-- The places of some declarations and of everything within them. -/
def placesAmong (outer : List Declaration) : List Declaration → List (List Declaration)
  | [] => []
  | declaration :: rest => Declaration.places outer declaration ++ placesAmong outer rest

end

/-- A type is declared at the place. -/
def isTypePlace (place : List Declaration) : Bool :=
  place.head?.any fun declaration => declaration.kind.isType

namespace CompilationUnit

/-- The qualified name at a place.  The place without declarations is the package. -/
def nameAt (unit : CompilationUnit) : List Declaration → String
  | [] => unit.package.getD ""
  | declaration :: outer => qualify (unit.nameAt outer) declaration.name

/-- The places of the unit at which types are declared. -/
def typePlaces (unit : CompilationUnit) : List (List Declaration) :=
  (placesAmong [] unit.types).filter isTypePlace

/-- The qualified names of the types that the unit declares, at every depth. -/
def typeNames (unit : CompilationUnit) : List String :=
  unit.typePlaces.map unit.nameAt

/-- What is declared directly inside a place. -/
def declaredAt (unit : CompilationUnit) : List Declaration → List Declaration
  | [] => unit.types
  | owner :: _ => owner.members

/-- The unit has the place. -/
inductive HasPlace (unit : CompilationUnit) : List Declaration → Prop where
  | package : HasPlace unit []
  | inside {outer : List Declaration} {declaration : Declaration} (houter : HasPlace unit outer)
      (hdeclared : declaration ∈ unit.declaredAt outer) : HasPlace unit (declaration :: outer)

/-- The qualified names of the types around a place, the innermost first. -/
def typesAround (unit : CompilationUnit) : List Declaration → List String
  | [] => []
  | owner :: outer =>
    if owner.kind.isType then unit.nameAt (owner :: outer) :: unit.typesAround outer else []

end CompilationUnit

/-- Something is declared in every of the places within a declaration where it is a member. -/
theorem mem_placesAmong_of_mem
    {outer : List Declaration} {declaration : Declaration} {declarations : List Declaration}
    (h : declaration ∈ declarations) : declaration :: outer ∈ placesAmong outer declarations := by
  induction declarations with
  | nil => cases h
  | cons first rest ih =>
      rw [placesAmong]
      rcases List.mem_cons.1 h with rfl | h
      · apply List.mem_append_left
        obtain ⟨kind, name, annotations, superclass, members⟩ := declaration
        rw [Declaration.places]
        exact List.mem_cons_self
      · exact List.mem_append_right _ (ih h)

mutual

theorem mem_places_of_member
    {outer around : List Declaration} {owner member : Declaration} (hmember : member ∈ owner.members) :
    (declaration : Declaration) → owner :: around ∈ declaration.places outer →
      member :: owner :: around ∈ declaration.places outer
  | ⟨kind, name, annotations, superclass, members⟩, h => by
    rw [Declaration.places] at h ⊢
    apply List.mem_cons_of_mem
    rcases List.mem_cons.1 h with hself | h
    · obtain ⟨rfl, rfl⟩ := List.cons.inj hself
      exact mem_placesAmong_of_mem hmember
    · exact mem_placesAmong_of_member hmember members h

theorem mem_placesAmong_of_member
    {outer around : List Declaration} {owner member : Declaration} (hmember : member ∈ owner.members) :
    (declarations : List Declaration) → owner :: around ∈ placesAmong outer declarations →
      member :: owner :: around ∈ placesAmong outer declarations
  | [], h => by
    rw [placesAmong] at h
    cases h
  | declaration :: rest, h => by
    rw [placesAmong] at h ⊢
    rcases List.mem_append.1 h with h | h
    · exact List.mem_append_left _ (mem_places_of_member hmember declaration h)
    · exact List.mem_append_right _ (mem_placesAmong_of_member hmember rest h)

end

/-- The list of places misses none. -/
theorem CompilationUnit.HasPlace.mem_placesAmong
    {unit : CompilationUnit} {place : List Declaration} (h : unit.HasPlace place)
    (hne : place ≠ []) : place ∈ placesAmong [] unit.types := by
  induction h with
  | package => exact absurd rfl hne
  | @inside outer declaration _ hdeclared ih =>
      cases outer with
      | nil => exact mem_placesAmong_of_mem hdeclared
      | cons owner around =>
          have houter := ih (List.cons_ne_nil _ _)
          exact mem_placesAmong_of_member hdeclared unit.types houter

/-- No two types of some units have one qualified name. -/
def HaveDistinctTypes (units : List CompilationUnit) : Prop :=
  (units.flatMap CompilationUnit.typeNames).Nodup

instance (units : List CompilationUnit) : Decidable (HaveDistinctTypes units) :=
  inferInstanceAs (Decidable (List.Nodup _))

/-- Where types have distinct names, the name of a type says where it is declared. -/
theorem HaveDistinctTypes.place_eq
    {units : List CompilationUnit} (h : HaveDistinctTypes units) {unit other : CompilationUnit}
    (hunit : unit ∈ units) (hother : other ∈ units) {place otherPlace : List Declaration}
    (hplace : unit.HasPlace place) (hotherPlace : other.HasPlace otherPlace)
    (htype : isTypePlace place) (hotherType : isTypePlace otherPlace)
    (hname : unit.nameAt place = other.nameAt otherPlace) :
    unit = other ∧ place = otherPlace := by
  let sites : List (CompilationUnit × List Declaration) :=
    units.flatMap fun unit => unit.typePlaces.map fun place => (unit, place)
  have hnames : sites.map (fun site => site.1.nameAt site.2) =
      units.flatMap CompilationUnit.typeNames := by
    rw [List.map_flatMap]
    apply List.flatMap_congr
    intro unit _
    rw [List.map_map]
    rfl
  have hsites : ∀ unit ∈ units, ∀ place, unit.HasPlace place → isTypePlace place →
      (unit, place) ∈ sites := by
    intro unit hunit place hplace htype
    have hne : place ≠ [] := by
      rintro rfl
      cases htype
    apply List.mem_flatMap.2
    refine ⟨unit, hunit, List.mem_map_of_mem ?_⟩
    exact List.mem_filter.2 ⟨hplace.mem_placesAmong hne, htype⟩
  have hnodup : (sites.map fun site => site.1.nameAt site.2).Nodup := hnames ▸ h
  have hsame := List.inj_on_of_nodup_map hnodup (hsites unit hunit place hplace htype)
    (hsites other hother otherPlace hotherPlace hotherType) hname
  exact Prod.mk.inj hsame

/-- The element stands at the place: it is the package of the unit, or what is entered for the innermost
declaration inside the element that stands around it. -/
inductive SourceRound.StandsAt (round : SourceRound) (units : List CompilationUnit)
    (unit : CompilationUnit) : ElementId → List Declaration → Prop where
  | package {id : ElementId} (hunit : unit ∈ units)
      (hid : round.packages.find? (unit.package.getD "") = some id) : StandsAt round units unit id []
  | declared {k : Nat} {id owner : ElementId} {outer : List Declaration} {declaration : Declaration}
      (hunit : units[k]? = some unit) (howner : StandsAt round units unit owner outer)
      (hdeclared : declaration ∈ unit.declaredAt outer)
      (hget : round.get? id = some (declaration.entry k unit.path owner (unit.nameAt outer)))
      (hlt : owner.index < id.index) : StandsAt round units unit id (declaration :: outer)

namespace SourceRound

section Standing

variable {round : SourceRound} {units : List CompilationUnit} {unit : CompilationUnit}

theorem StandsAt.mem_units
    {id : ElementId} {place : List Declaration} (h : round.StandsAt units unit id place) :
    unit ∈ units := by
  cases h with
  | package hunit _ => exact hunit
  | declared hunit _ _ _ _ => exact List.mem_of_getElem? hunit

theorem StandsAt.hasPlace
    {id : ElementId} {place : List Declaration} (h : round.StandsAt units unit id place) :
    unit.HasPlace place := by
  induction h with
  | package _ _ => exact .package
  | declared _ _ hdeclared _ _ ih => exact .inside ih hdeclared

/-- Owners have smaller numbers, so a place is not deeper than the number of its element. -/
theorem StandsAt.length_le
    {id : ElementId} {place : List Declaration} (h : round.StandsAt units unit id place) :
    place.length ≤ id.index := by
  induction h with
  | package _ _ => exact Nat.zero_le _
  | declared _ _ _ _ hlt ih =>
      rw [List.length_cons]
      omega

/-- What the round knows of an element at a place. -/
theorem StandsAt.exists_get?
    (hmade : round.IsMadeOf units) {id : ElementId} {place : List Declaration}
    (h : round.StandsAt units unit id place) :
    ∃ found, round.get? id = some found ∧ found.element.qualifiedName = unit.nameAt place ∧
      found.element.kind = (place.head?.elim .package Declaration.kind) := by
  cases h with
  | package _ hid =>
      obtain ⟨found, hget, helement, -⟩ := hmade.packages _ _ hid
      refine ⟨found, hget, ?_, ?_⟩
      · rw [helement]
        rfl
      · rw [helement]
        rfl
  | declared _ _ _ hget _ => exact ⟨_, hget, rfl, rfl⟩

/-- What is entered inside an element at a place stands there too. -/
theorem standsAt_of_isEntered
    (hsize : round.elements.size < ElementId.count) {k : Nat} (hunit : units[k]? = some unit)
    {owner : ElementId} {outer : List Declaration} (howner : round.StandsAt units unit owner outer)
    {occurrence : Occurrence} (hdeclared : occurrence.declaration ∈ unit.declaredAt outer)
    (hentered : occurrence.IsEntered round k unit.path owner (unit.nameAt outer))
    (hlt : owner.index < occurrence.index) :
    round.StandsAt units unit occurrence.id (occurrence.declaration :: outer) := by
  obtain ⟨hindex, hget⟩ := hentered.get?_id hsize
  exact .declared hunit howner hdeclared hget (hindex ▸ hlt)

theorem index_lt_of_mem_members
    {owner member : Occurrence} (hmember : member ∈ owner.members) : owner.index < member.index :=
  le_index_of_mem_placeAll hmember

/-- Members of what stands at a place stand inside it. -/
theorem standsAt_of_mem_members
    (hsize : round.elements.size < ElementId.count) {k : Nat} (hunit : units[k]? = some unit)
    {outer : List Declaration} {occurrence member : Occurrence}
    (hstands : round.StandsAt units unit occurrence.id (occurrence.declaration :: outer))
    (hentered : member.IsEntered round k unit.path occurrence.id
      (unit.nameAt (occurrence.declaration :: outer)))
    (hmember : member ∈ occurrence.members) :
    round.StandsAt units unit member.id (member.declaration :: occurrence.declaration :: outer) := by
  apply standsAt_of_isEntered hsize hunit hstands
  · exact (exists_of_mem_placeAll hmember).1
  · exact hentered
  · exact Nat.lt_of_le_of_lt (Nat.mod_le _ _) (index_lt_of_mem_members hmember)

/-- Types at the top of a unit stand in its package. -/
theorem IsMadeOf.standsAt_top
    (hmade : round.IsMadeOf units) (hsize : round.elements.size < ElementId.count) {k : Nat}
    (hunit : units[k]? = some unit) {top : Occurrence} (htop : top ∈ typesAt units k unit) :
    round.StandsAt units unit top.id [top.declaration] := by
  obtain ⟨hpackage, htops⟩ := hmade.entered k unit hunit
  apply standsAt_of_isEntered hsize hunit (.package (List.mem_of_getElem? hunit) hpackage)
  · exact (exists_of_mem_placeAll htop).1
  · exact (htops top htop).1
  · exact (htops top htop).2

/-- Everything within a type at the top of a unit stands at a place of the unit. -/
theorem IsMadeOf.exists_standsAt_of_isWithin
    (hmade : round.IsMadeOf units) (hsize : round.elements.size < ElementId.count) {k : Nat}
    (hunit : units[k]? = some unit) {top occurrence : Occurrence} (htop : top ∈ typesAt units k unit)
    (hwithin : occurrence.IsWithin top) :
    ∃ outer owner, occurrence.IsEntered round k unit.path owner (unit.nameAt outer) ∧
      round.StandsAt units unit occurrence.id (occurrence.declaration :: outer) := by
  induction hwithin with
  | refl =>
      exact ⟨[], _, ((hmade.entered k unit hunit).2 top htop).1,
        hmade.standsAt_top hsize hunit htop⟩
  | @tail middle member _ hmember ih =>
      obtain ⟨outer, owner, hentered, hstands⟩ := ih
      cases hentered with
      | intro _ hmembers =>
          have hinside := hmembers member hmember
          exact ⟨middle.declaration :: outer, middle.id, hinside,
            standsAt_of_mem_members hsize hunit hstands hinside hmember⟩

/-- Every element of a round stands at a place. -/
theorem IsMadeOf.exists_place
    (hmade : round.IsMadeOf units) (hsize : round.elements.size < ElementId.count)
    {id : ElementId} {found : SourceElement} (hget : round.get? id = some found) :
    ∃ unit place, round.StandsAt units unit id place := by
  rcases hmade.covered _ _ (element?_of_get? hget) with
    ⟨-, hknown⟩ | ⟨k, unit, hunit, top, htop, occurrence, hwithin, hindex⟩
  · obtain ⟨unit, hunit, hname⟩ := hmade.known _ _ hknown
    rw [ElementId.ofIndex_index, ← hname] at hknown
    exact ⟨unit, [], .package hunit hknown⟩
  · obtain rfl : occurrence.id = id := by
      rw [Occurrence.id, hindex, ElementId.ofIndex_index]
    obtain ⟨outer, _, -, hstands⟩ := hmade.exists_standsAt_of_isWithin hsize hunit htop hwithin
    exact ⟨unit, _, hstands⟩

theorem exists_mem_placeAll
    (package : String) (outer : List String) (first : Nat) {declarations : List Declaration}
    {declaration : Declaration} (h : declaration ∈ declarations) :
    ∃ occurrence ∈ placeAll package outer first declarations,
      occurrence.declaration = declaration := by
  induction declarations generalizing first with
  | nil => cases h
  | cons other rest ih =>
      rcases List.mem_cons.1 h with rfl | h
      · exact ⟨_, List.mem_cons_self, rfl⟩
      · obtain ⟨occurrence, hoccurrence, hsame⟩ := ih (first + other.size) h
        exact ⟨occurrence, List.mem_cons_of_mem _ hoccurrence, hsame⟩

/-- At every place of a unit stands an element. -/
theorem IsMadeOf.exists_standsAt
    (hmade : round.IsMadeOf units) (hsize : round.elements.size < ElementId.count)
    (hunit : unit ∈ units) {place : List Declaration} (hplace : unit.HasPlace place) :
    ∃ id, round.StandsAt units unit id place := by
  obtain ⟨k, hk, hget⟩ := List.mem_iff_getElem.1 hunit
  have hunit : units[k]? = some unit := List.getElem?_eq_some_iff.2 ⟨hk, hget⟩
  obtain ⟨hpackage, htops⟩ := hmade.entered k unit hunit
  -- The element is tracked by its occurrence, which knows the members.
  have hoccurs : place = [] ∨ ∃ (occurrence : Occurrence) (outer : List Declaration)
      (owner : ElementId), place = occurrence.declaration :: outer ∧
      occurrence.IsEntered round k unit.path owner (unit.nameAt outer) ∧
      round.StandsAt units unit occurrence.id place := by
    induction hplace with
    | package => exact Or.inl rfl
    | @inside outer declaration _ hdeclared ih =>
        right
        rcases ih with rfl | ⟨occurrence, around, owner, rfl, hentered, hstands⟩
        · obtain ⟨top, htop, rfl⟩ := exists_mem_placeAll (unit.package.getD "") []
            ((ofUnits (units.take k)).openUnit unit).1.elements.size hdeclared
          exact ⟨top, [], _, rfl, (htops top htop).1, hmade.standsAt_top hsize hunit htop⟩
        · obtain ⟨member, hmember, rfl⟩ := exists_mem_placeAll occurrence.package occurrence.names
            (occurrence.index + 1) hdeclared
          cases hentered with
          | intro _ hmembers =>
              have hinside := hmembers member hmember
              exact ⟨member, _, _, rfl, hinside,
                standsAt_of_mem_members hsize hunit hstands hinside hmember⟩
  rcases hoccurs with rfl | ⟨occurrence, _, _, -, -, hstands⟩
  · exact ⟨_, .package (List.mem_of_getElem? hunit) hpackage⟩
  · exact ⟨occurrence.id, hstands⟩

end Standing

end SourceRound

end ComponentMarkers.Source
