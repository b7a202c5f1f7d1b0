import ComponentMarkers.Proofs.Marking.Decoding
import ComponentMarkers.Proofs.Source.Units

/-!
# Qualified names and lineage

The qualified name of a declared element is that of the element it is declared in and its own simple
name.  So the qualified name of a type follows from its package and the simple names on the way to it,
and types with different qualified names differ in one of the two.

Nothing here bounds the number of elements: numbers that wrapped around are never asked for, since a
number has 32 bits, and an element is always declared behind the one it is in.
-/

namespace ComponentMarkers.Source

open Text

namespace SourceRound

/-- The number was given to an element of the round. -/
def Owns (round : SourceRound) (id : ElementId) : Prop :=
  ∃ n < round.elements.size, id = .ofIndex n

/-- What is declared in an element is behind it and takes its qualified name up, as far as numbers do
not wrap around. -/
def IsQualified (round : SourceRound) : Prop :=
  ∀ n element, n < ElementId.count → round.element? n = some element →
    element.enclosing = none ∨ ∃ m owner, m < n ∧ element.enclosing = some (.ofIndex m) ∧
      round.element? m = some owner ∧
      element.qualifiedName = qualify owner.qualifiedName element.simpleName

theorem Owns.of_size_le
    {before after : SourceRound} {id : ElementId} (h : before.Owns id)
    (hsize : before.elements.size ≤ after.elements.size) : after.Owns id := by
  obtain ⟨n, hn, hid⟩ := h
  exact ⟨n, Nat.lt_of_lt_of_le hn hsize, hid⟩

theorem IsQualified.of_element?_eq
    {before after : SourceRound} (h : before.IsQualified)
    (hsame : ∀ n, after.element? n = before.element? n) : after.IsQualified := by
  intro n element hn helement
  rw [hsame] at helement
  simp only [hsame]
  exact h n element hn helement

/-- A new element keeps a round qualified if it is a package or takes up the name of its owner. -/
theorem IsQualified.push
    {round : SourceRound} (h : round.IsQualified) {added : SourceElement}
    (hadded : round.elements.size < ElementId.count → added.element.enclosing = none ∨
      ∃ m owner, added.element.enclosing = some (.ofIndex m) ∧ round.element? m = some owner ∧
        added.element.qualifiedName = qualify owner.qualifiedName added.element.simpleName) :
    (round.push added).IsQualified := by
  have hkept : ∀ m owner, round.element? m = some owner →
      (round.push added).element? m = some owner := extends_push round added
  intro n element hn helement
  rw [element?_push] at helement
  by_cases hself : n = round.elements.size
  · rw [if_pos hself] at helement
    obtain rfl := Option.some.inj helement
    rcases hadded (hself ▸ hn) with hnone | ⟨m, owner, hm, howner, hname⟩
    · exact Or.inl hnone
    · exact Or.inr ⟨m, owner, hself ▸ lt_size_of_element? howner, hm, hkept m owner howner, hname⟩
  · rw [if_neg hself] at helement
    rcases h n element hn helement with hnone | ⟨m, owner, hlt, hm, howner, hname⟩
    · exact Or.inl hnone
    · exact Or.inr ⟨m, owner, hlt, hm, hkept m owner howner, hname⟩

theorem IsQualified.declare
    {round : SourceRound} (h : round.IsQualified) (unit : Nat) (source : Option Path)
    {owner : ElementId} (howner : round.Owns owner) (declaration : Declaration) :
    (round.declare unit source owner declaration).IsQualified := by
  obtain ⟨m, hm, rfl⟩ := howner
  let ownerName :=
    ((round.get? (.ofIndex m)).map fun found => found.element.qualifiedName).getD ""
  have hpushed : (round.push (declaration.entry unit source (.ofIndex m) ownerName)).IsQualified := by
    apply h.push
    intro hsize
    have hget := get?_ofIndex hsize (Array.getElem?_eq_getElem hm)
    have hname : ownerName = round.elements[m].element.qualifiedName := by
      simp only [ownerName, hget, Option.map_some, Option.getD_some]
    refine Or.inr ⟨m, round.elements[m].element, rfl, ?_, ?_⟩
    · rw [element?, Array.getElem?_eq_getElem hm, Option.map_some]
    · rw [← hname]
      rfl
  exact hpushed.of_element?_eq fun _ => rfl

end SourceRound

open SourceRound

mutual

theorem isQualified_insert
    {round : SourceRound} (h : round.IsQualified) (unit : Nat) (source : Option Path)
    {owner : ElementId} (howner : round.Owns owner) :
    (declaration : Declaration) → (round.insert unit source owner declaration).IsQualified
  | ⟨kind, name, annotations, superclass, members⟩ => by
    rw [SourceRound.insert]
    apply isQualified_insertAll (h.declare unit source howner _) unit source
    exact ⟨round.elements.size, by rw [size_declare]; exact Nat.lt_succ_self _, rfl⟩

theorem isQualified_insertAll
    {round : SourceRound} (h : round.IsQualified) (unit : Nat) (source : Option Path)
    {owner : ElementId} (howner : round.Owns owner) :
    (declarations : List Declaration) →
      (round.insertAll unit source owner declarations).IsQualified
  | [] => by
    rw [SourceRound.insertAll]
    exact h
  | declaration :: rest => by
    rw [SourceRound.insertAll]
    apply isQualified_insertAll (isQualified_insert h unit source howner declaration) unit source
    apply howner.of_size_le
    rw [(insert_spec round unit source owner "" [] declaration).1]
    exact Nat.le_add_right _ _

end

namespace SourceRound

theorem IsQualified.package
    {round : SourceRound} (h : round.IsQualified) (name : String) :
    (round.package name).1.IsQualified := by
  rcases round.package_cases name with ⟨id, -, hpackage⟩ | ⟨-, hpackage⟩
  · rw [hpackage]
    exact h
  · have hpushed : (round.push (packageEntry name)).IsQualified := h.push fun _ => Or.inl rfl
    rw [hpackage]
    exact hpushed.of_element?_eq fun _ => rfl

/-- The number of a package that is opened belongs to the round. -/
theorem IsLoaded.owns_openUnit
    {round : SourceRound} {tops : List Occurrence} (h : round.IsLoaded tops)
    (unit : CompilationUnit) : (round.openUnit unit).1.Owns (round.openUnit unit).2 := by
  obtain ⟨hopened, hpackage⟩ := h.openUnit unit
  obtain ⟨n, hid, helement⟩ := hopened.package_eq _ _ hpackage
  exact ⟨n, lt_size_of_element? helement, hid⟩

theorem IsQualified.addUnit
    {round : SourceRound} {tops : List Occurrence} (h : round.IsQualified)
    (hloaded : round.IsLoaded tops) (unit : CompilationUnit) :
    (round.addUnit unit).1.IsQualified := by
  obtain ⟨roots, hadd⟩ := exists_addUnit_eq round unit
  have hcontext : (round.withContext unit).IsQualified := h.of_element?_eq fun _ => rfl
  have hopened : (round.openUnit unit).1.IsQualified := hcontext.package _
  rw [hadd]
  refine IsQualified.of_element?_eq (isQualified_insertAll
    (hopened.of_element?_eq (element?_annotate _ _ _)) round.units.size unit.path ?_ unit.types)
    fun _ => rfl
  exact (hloaded.owns_openUnit unit).of_size_le (Nat.le_of_eq (size_annotate _ _ _).symm)

/-- The round of some units takes up the names of owners. -/
theorem isQualified_ofUnits (units : List CompilationUnit) : (ofUnits units).IsQualified := by
  induction units using List.reverseRecOn with
  | nil =>
      intro n element _ helement
      cases helement
  | append_singleton earlier unit ih =>
      rw [ofUnits_concat]
      exact ih.addUnit (isLoaded_ofUnits earlier) unit

/-- The package of a type and the simple names on the way to it make up its qualified name. -/
theorem IsQualified.qualifiedName_eq
    {round : SourceRound} (h : round.IsQualified) {id : ElementId} {element : Element}
    (hget : round.toRound.table.get? id = some element) {package : String} {names : List String}
    (hleads : round.toRound.table.LeadsToPackage id package names) :
    element.qualifiedName = names.foldl qualify package := by
  induction hleads generalizing element with
  | package hsame =>
      rw [Option.some.inj (hget.symm.trans hsame)]
      rfl
  | @type id owner same package names hsame _ howner _ ih =>
      obtain rfl := Option.some.inj (hget.symm.trans hsame)
      have hid : id.index < ElementId.count := id.word.toNat_lt
      rw [toRound_get?] at hget
      rcases h id.index element hid hget with hnone | ⟨m, found, hm, hfound, hgetOwner, hname⟩
      · rw [hnone] at howner
        cases howner
      · obtain rfl := Option.some.inj (howner.symm.trans hfound)
        have hownerGet : round.toRound.table.get? (.ofIndex m) = some found := by
          rw [toRound_get?, ElementId.index_ofIndex_of_lt (Nat.lt_trans hm hid), hgetOwner]
        rw [hname, ih hownerGet, List.foldl_append]
        rfl

end SourceRound

/-- The package of the unit and the names of its types can be told apart in the paths of markers. -/
structure CompilationUnit.HasPlainNames (unit : CompilationUnit) : Prop where
  package : IsPlainPackage (unit.package.getD "")
  types : ∀ declaration ∈ unit.types,
    declaration.Every fun inner => inner.kind.isType → IsPlainSimpleName inner.name

/-- A type of some units with plain names leads to its package through plain names. -/
theorem leadsPlainly_ofUnits
    {units : List CompilationUnit}
    (hproper : ∀ unit ∈ units, ∀ declaration ∈ unit.types,
      declaration.Every Declaration.IsProper)
    (hplain : ∀ unit ∈ units, unit.HasPlainNames) {id : ElementId} {element : Element}
    (hget : (SourceRound.ofUnits units).toRound.table.get? id = some element)
    (hkind : element.kind.isType) {package : String} {names : List String}
    (hleads : (SourceRound.ofUnits units).toRound.table.LeadsToPackage id package names) :
    (SourceRound.ofUnits units).toRound.table.LeadsPlainly id package names := by
  obtain ⟨hpackage, hnames⟩ := hleads.forall_names (P := IsPlainPackage) (Q := IsPlainSimpleName)
    (by
      intro other owner hother hownerKind
      rcases exists_declaration_of_get? hother with
        ⟨unit, hunit, -, hname⟩ | ⟨unit, hunit, declaration, hdeclared, inner, hinner, hsame, -⟩
      · rw [← hname]
        exact (hplain unit hunit).package
      · have hne := (hinner _ (hproper unit hunit declaration hdeclared)).kind_ne
        rw [hsame] at hownerKind
        exact absurd (of_decide_eq_true hownerKind) hne)
    (by
      intro other type hother htype
      rcases exists_declaration_of_get? hother with
        ⟨unit, hunit, hsame, -⟩ | ⟨unit, hunit, declaration, hdeclared, inner, hinner, hsame, hname⟩
      · rw [hsame] at htype
        cases htype
      · rw [hname]
        exact hinner _ ((hplain unit hunit).types declaration hdeclared) (hsame ▸ htype))
  exact ⟨hleads, ⟨element, hget, hkind⟩, hpackage, hnames⟩

end ComponentMarkers.Source
