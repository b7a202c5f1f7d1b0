import ComponentMarkers.Proofs.Source.Units
import Mathlib.Data.Nat.Find

/-!
# The types of a round by their names

Whatever is added to a round, its index leads from a qualified name to the first element that declares a
type of this name, and from other names nowhere.
-/

namespace ComponentMarkers.Source

namespace SourceRound

/-- A type with the qualified name is declared at the index. -/
def DeclaresType (round : SourceRound) (name : String) (n : Nat) : Prop :=
  ∃ element, round.element? n = some element ∧ element.kind.isType ∧ element.qualifiedName = name

/-- The type declared at the index is the first one with the qualified name. -/
def IsFirstType (round : SourceRound) (name : String) (n : Nat) : Prop :=
  round.DeclaresType name n ∧ ∀ m < n, ¬ round.DeclaresType name m

/-- The index of types leads to the first type of each name. -/
def IndexesTypes (round : SourceRound) : Prop :=
  ∀ name id, round.types.find? name = some id ↔
    ∃ n, round.IsFirstType name n ∧ id = .ofIndex n

theorem DeclaresType.lt_size
    {round : SourceRound} {name : String} {n : Nat} (h : round.DeclaresType name n) :
    n < round.elements.size := by
  obtain ⟨element, helement, -⟩ := h
  exact lt_size_of_element? helement

theorem IsFirstType.unique
    {round : SourceRound} {name : String} {m n : Nat} (hm : round.IsFirstType name m)
    (hn : round.IsFirstType name n) : m = n := by
  rcases Nat.lt_trichotomy m n with hlt | heq | hgt
  · exact absurd hm.1 (hn.2 m hlt)
  · exact heq
  · exact absurd hn.1 (hm.2 n hgt)

/-- If a name is declared at all, there is a first declaration of it. -/
theorem DeclaresType.exists_first
    {round : SourceRound} {name : String} {n : Nat} (h : round.DeclaresType name n) :
    ∃ m, round.IsFirstType name m := by
  classical
  have hsome : ∃ m, round.DeclaresType name m := ⟨n, h⟩
  exact ⟨Nat.find hsome, Nat.find_spec hsome, fun m hm => Nat.find_min hsome hm⟩

/-- Names are found if and only if a type declares them. -/
theorem IndexesTypes.find?_eq_none_iff
    {round : SourceRound} (h : round.IndexesTypes) (name : String) :
    round.types.find? name = none ↔ ∀ n, ¬ round.DeclaresType name n := by
  constructor
  · intro hnone n hn
    obtain ⟨m, hm⟩ := hn.exists_first
    rw [(h name (.ofIndex m)).2 ⟨m, hm, rfl⟩] at hnone
    cases hnone
  · intro hnot
    cases hfind : round.types.find? name with
    | none => rfl
    | some id =>
        obtain ⟨n, hn, -⟩ := (h name id).1 hfind
        exact absurd hn.1 (hnot n)

/-- Only the elements and the index count. -/
theorem IndexesTypes.of_eq
    {before after : SourceRound} (h : before.IndexesTypes)
    (helements : ∀ n, after.element? n = before.element? n) (htypes : after.types = before.types) :
    after.IndexesTypes := by
  have hdeclares : ∀ name n, after.DeclaresType name n ↔ before.DeclaresType name n := by
    intro name n
    rw [DeclaresType, DeclaresType, helements]
  intro name id
  rw [htypes, h name id]
  simp only [IsFirstType, hdeclares]

theorem declaresType_push
    (round : SourceRound) (added : SourceElement) (name : String) (n : Nat) :
    (round.push added).DeclaresType name n ↔
      round.DeclaresType name n ∨
        n = round.elements.size ∧ added.element.kind.isType ∧
          added.element.qualifiedName = name := by
  rw [DeclaresType, element?_push]
  by_cases hn : n = round.elements.size
  · have hnot : ¬ round.DeclaresType name n := fun h => Nat.ne_of_lt h.lt_size hn
    simp [hn, hn ▸ hnot]
  · simp [hn, DeclaresType]

/-- An element that declares no type leaves the index right. -/
theorem IndexesTypes.push
    {round : SourceRound} (h : round.IndexesTypes) {added : SourceElement}
    (hkind : added.element.kind.isType = false) : (round.push added).IndexesTypes := by
  intro name id
  have hdeclares : ∀ n, (round.push added).DeclaresType name n ↔ round.DeclaresType name n := by
    intro n
    simp [declaresType_push, hkind]
  simp only [IsFirstType, hdeclares]
  exact h name id

/-- A type is entered under its name unless the name is taken. -/
theorem IndexesTypes.pushType
    {round : SourceRound} (h : round.IndexesTypes) {added : SourceElement}
    (hkind : added.element.kind.isType) :
    ({ round.push added with
        types := round.types.insertNew added.element.qualifiedName round.nextId } :
      SourceRound).IndexesTypes := by
  intro name id
  have hdeclares := declaresType_push round added name
  change (round.types.insertNew added.element.qualifiedName round.nextId).find? name = some id ↔
    ∃ n, (round.push added).IsFirstType name n ∧ id = .ofIndex n
  rw [NameIndex.find?_insertNew]
  cases hfind : round.types.find? name with
  | some known =>
      obtain ⟨m, hm, hknown⟩ := (h name known).1 hfind
      have hfirst : (round.push added).IsFirstType name m := by
        refine ⟨(hdeclares m).2 (Or.inl hm.1), ?_⟩
        intro k hk hdeclared
        rcases (hdeclares k).1 hdeclared with hold | ⟨hlast, -⟩
        · exact hm.2 k hk hold
        · exact absurd hm.1.lt_size (by omega)
      rw [Option.some_or, Option.some.injEq]
      constructor
      · rintro rfl
        exact ⟨m, hfirst, hknown⟩
      · rintro ⟨n, hn, rfl⟩
        rw [hknown, hfirst.unique hn]
  | none =>
      have hnone := (h.find?_eq_none_iff name).1 hfind
      rw [Option.none_or]
      by_cases hname : name = added.element.qualifiedName
      · have hfirst : (round.push added).IsFirstType name round.elements.size := by
          refine ⟨(hdeclares _).2 (Or.inr ⟨rfl, hkind, hname.symm⟩), ?_⟩
          intro k hk hdeclared
          rcases (hdeclares k).1 hdeclared with hold | ⟨hlast, -⟩
          · exact hnone k hold
          · omega
        rw [if_pos hname, Option.some.injEq]
        constructor
        · rintro rfl
          exact ⟨_, hfirst, rfl⟩
        · rintro ⟨n, hn, rfl⟩
          rw [← hfirst.unique hn]
          rfl
      · rw [if_neg hname]
        constructor
        · intro hsome
          cases hsome
        · rintro ⟨n, hn, -⟩
          rcases (hdeclares n).1 hn.1 with hold | ⟨-, -, hsame⟩
          · exact absurd hold (hnone n)
          · exact absurd hsame.symm hname

theorem IndexesTypes.declare
    {round : SourceRound} (h : round.IndexesTypes) (unit : Nat) (source : Option Path)
    (owner : ElementId) (declaration : Declaration) :
    (round.declare unit source owner declaration).IndexesTypes := by
  unfold SourceRound.declare
  dsimp only
  cases hkind : declaration.kind.isType with
  | true =>
      rw [if_pos rfl]
      exact h.pushType hkind
  | false =>
      rw [if_neg Bool.false_ne_true]
      exact h.push hkind

theorem IndexesTypes.openUnit
    {round : SourceRound} (h : round.IndexesTypes) (unit : CompilationUnit) :
    (round.openUnit unit).1.IndexesTypes := by
  rw [openUnit_eq]
  rcases (round.withContext unit).package_cases (unit.package.getD "") with
    ⟨id, -, hpackage⟩ | ⟨-, hpackage⟩
  · rw [hpackage]
    exact h.of_eq (fun _ => rfl) rfl
  · have hpush : (round.push (packageEntry (unit.package.getD ""))).IndexesTypes := h.push rfl
    rw [hpackage]
    exact hpush.of_eq (fun _ => rfl) rfl

theorem IndexesTypes.addUnit
    {round : SourceRound} (h : round.IndexesTypes) (unit : CompilationUnit) :
    (round.addUnit unit).1.IndexesTypes := by
  refine addUnit_induction (h.openUnit unit) ?_ ?_ ?_
  · intro round id names hround
    exact hround.of_eq (element?_annotate round id names) rfl
  · intro before owner declaration hbefore
    exact hbefore.declare round.units.size unit.path owner declaration
  · intro round roots isOver hround
    exact hround.of_eq (fun _ => rfl) rfl

/-- The index of types of a round that was made by adding units. -/
theorem indexesTypes_ofUnits (units : List CompilationUnit) : (ofUnits units).IndexesTypes := by
  induction units using List.reverseRecOn with
  | nil =>
      have hempty : (ofUnits []).IndexesTypes := by
        intro name id
        constructor
        · intro hfind
          cases hfind
        · rintro ⟨n, ⟨⟨element, helement, -⟩, -⟩, -⟩
          cases helement
      exact hempty
  | append_singleton units unit ih =>
      rw [ofUnits_concat]
      exact ih.addUnit unit

end SourceRound

end ComponentMarkers.Source
