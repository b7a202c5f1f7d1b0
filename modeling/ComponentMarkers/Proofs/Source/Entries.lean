import ComponentMarkers.Proofs.Source.Nesting

/-!
# What is entered for each unit

`IsLoaded` says which elements a round has.  Here it is said what is written down with them: the
qualified name of a declaration, the file and the unit of its texts, and for a package the annotations
of all units that open it, each with the unit it is written in.  The names of types lead to the first
type declared under them.
-/

namespace ComponentMarkers.Source

open Text

/-- What the names written in a unit are resolved against. -/
def CompilationUnit.context (unit : CompilationUnit) : ImportContext :=
  ImportContext.ofImports unit.package unit.imports

/-- What is entered for a declaration inside `owner`, `unit` being the number of its unit. -/
def Declaration.entry (declaration : Declaration) (unit : Nat) (source : Option Path)
    (owner : ElementId) (ownerName : String) : SourceElement where
  element := ⟨declaration.kind, declaration.name, qualify ownerName declaration.name, some owner⟩
  source := source
  annotations := declaration.annotations.map fun text => ⟨text, unit⟩
  superclass := declaration.superclass.map fun text => ⟨text, unit⟩

namespace SourceRound

/-- The rounds that are made by adding units, from a new round or from one that ends a run. -/
inductive Reached : List CompilationUnit → SourceRound → Prop where
  | new : Reached [] empty
  | final : Reached [] final
  | addUnit {units : List CompilationUnit} {round : SourceRound} (h : Reached units round)
      (unit : CompilationUnit) : Reached (units ++ [unit]) (round.addUnit unit).1

/-- The types at the top of the unit with number `k`. -/
def typesAt (units : List CompilationUnit) (k : Nat) (unit : CompilationUnit) : List Occurrence :=
  placeAll (unit.package.getD "") [] ((ofUnits (units.take k)).openUnit unit).1.elements.size
    unit.types

/-- The package of the unit with number `k`. -/
def packageAt (units : List CompilationUnit) (k : Nat) (unit : CompilationUnit) : ElementId :=
  ((ofUnits (units.take k)).openUnit unit).2

/-- Every element stays at its index as it is, with all that is written down for it. -/
def Keeps (before after : SourceRound) : Prop :=
  ∀ (n : Nat) (found : SourceElement), before.elements[n]? = some found →
    after.elements[n]? = some found

theorem Keeps.trans
    {first second third : SourceRound} (h : first.Keeps second) (h' : second.Keeps third) :
    first.Keeps third :=
  fun n found hfound => h' n found (h n found hfound)

theorem Keeps.get?
    {before after : SourceRound} (h : before.Keeps after) {id : ElementId} {found : SourceElement}
    (hget : before.get? id = some found) : after.get? id = some found :=
  h id.index found hget

theorem keeps_push (round : SourceRound) (added : SourceElement) :
    round.Keeps (round.push added) := by
  intro n found hfound
  have hlt := (Array.getElem?_eq_some_iff.1 hfound).1
  rw [push, Array.getElem?_push, if_neg (Nat.ne_of_lt hlt)]
  exact hfound

theorem keeps_declare
    (round : SourceRound) (unit : Nat) (source : Option Path) (owner : ElementId)
    (declaration : Declaration) : round.Keeps (round.declare unit source owner declaration) :=
  keeps_push round _

theorem getElem?_annotate_of_ne
    (round : SourceRound) {id : ElementId} (names : List WrittenName) {n : Nat}
    (hne : n ≠ id.index) : (round.annotate id names).elements[n]? = round.elements[n]? := by
  rw [annotate, Array.getElem?_modify, if_neg (Ne.symm hne)]

theorem get?_annotate_self
    (round : SourceRound) (id : ElementId) (names : List WrittenName) {found : SourceElement}
    (hfound : round.get? id = some found) :
    (round.annotate id names).get? id =
      some { found with annotations := found.annotations ++ names } := by
  rw [get?] at hfound
  rw [get?, annotate, Array.getElem?_modify, if_pos rfl, hfound]
  rfl

/-- What declaring enters, the name of the owner being known. -/
theorem getElem?_declare
    {round : SourceRound} {owner : ElementId} {ownerName : String} {found : SourceElement}
    (howner : round.get? owner = some found) (hname : found.element.qualifiedName = ownerName)
    (unit : Nat) (source : Option Path) (declaration : Declaration) :
    (round.declare unit source owner declaration).elements[round.elements.size]? =
      some (declaration.entry unit source owner ownerName) := by
  have hpush : (round.declare unit source owner declaration).elements[round.elements.size]? =
      some (declaration.entry unit source owner
        (((round.get? owner).map fun found => found.element.qualifiedName).getD "")) := by
    exact Array.getElem?_push_size
  rw [hpush, howner, ← hname]
  rfl

end SourceRound

mutual

/-- What every declaring keeps is kept when a declaration is inserted with its members. -/
theorem insert_induction
    {P : SourceRound → Prop} {unit : Nat} {source : Option Path}
    (hdeclare : ∀ round owner declaration, P round →
      P (round.declare unit source owner declaration))
    (round : SourceRound) (owner : ElementId) (h : P round) :
    (declaration : Declaration) → P (round.insert unit source owner declaration)
  | ⟨kind, name, annotations, superclass, members⟩ => by
    rw [SourceRound.insert]
    exact insertAll_induction hdeclare _ _ (hdeclare round owner _ h) members

theorem insertAll_induction
    {P : SourceRound → Prop} {unit : Nat} {source : Option Path}
    (hdeclare : ∀ round owner declaration, P round →
      P (round.declare unit source owner declaration))
    (round : SourceRound) (owner : ElementId) (h : P round) :
    (declarations : List Declaration) → P (round.insertAll unit source owner declarations)
  | [] => by
    rw [SourceRound.insertAll]
    exact h
  | declaration :: rest => by
    rw [SourceRound.insertAll]
    exact insertAll_induction hdeclare _ owner (insert_induction hdeclare round owner h declaration)
      rest

end

/-- The round has the entry of an occurrence inside `owner`, and inside it those of its members. -/
inductive Occurrence.IsEntered (round : SourceRound) (unit : Nat) (source : Option Path) :
    (owner : ElementId) → (ownerName : String) → Occurrence → Prop where
  | intro {owner : ElementId} {ownerName : String} {occurrence : Occurrence}
      (hget : round.elements[occurrence.index]? =
        some (occurrence.declaration.entry unit source owner ownerName))
      (hmembers : ∀ member ∈ occurrence.members, IsEntered round unit source occurrence.id
        (qualify ownerName occurrence.declaration.name) member) :
      IsEntered round unit source owner ownerName occurrence

/-- Entries stay as they are when what is declared does. -/
theorem Occurrence.IsEntered.of_declared
    {before after : SourceRound} {unit : Nat} {source : Option Path} {owner : ElementId}
    {ownerName : String} {occurrence : Occurrence}
    (hkeeps : ∀ (n : Nat) (found : SourceElement), before.elements[n]? = some found →
      found.element.enclosing ≠ none → after.elements[n]? = some found)
    (h : occurrence.IsEntered before unit source owner ownerName) :
    occurrence.IsEntered after unit source owner ownerName := by
  induction h with
  | intro hget _ ih =>
      refine .intro (hkeeps _ _ hget ?_) ih
      exact Option.some_ne_none _

theorem Occurrence.IsEntered.of_keeps
    {before after : SourceRound} (hkeeps : before.Keeps after) {unit : Nat} {source : Option Path}
    {owner : ElementId} {ownerName : String} {occurrence : Occurrence}
    (h : occurrence.IsEntered before unit source owner ownerName) :
    occurrence.IsEntered after unit source owner ownerName :=
  h.of_declared fun n found hfound _ => hkeeps n found hfound

open SourceRound

/-- As long as the numbers do not wrap around, what is entered is found by its number. -/
theorem Occurrence.IsEntered.get?_id
    {round : SourceRound} (hsize : round.elements.size < ElementId.count) {unit : Nat}
    {source : Option Path} {owner : ElementId} {ownerName : String} {occurrence : Occurrence}
    (h : occurrence.IsEntered round unit source owner ownerName) :
    occurrence.id.index = occurrence.index ∧
      round.get? occurrence.id =
        some (occurrence.declaration.entry unit source owner ownerName) := by
  obtain ⟨hget, -⟩ := h
  have hlt := (Array.getElem?_eq_some_iff.1 hget).1
  exact ⟨ElementId.index_ofIndex_of_lt (Nat.lt_trans hlt hsize), get?_ofIndex hsize hget⟩

mutual

/-- Inserting a declaration enters its occurrences, as long as the numbers do not wrap around. -/
theorem insert_entered
    {round : SourceRound} {owner : ElementId} {ownerName : String} {found : SourceElement}
    (howner : round.get? owner = some found) (hname : found.element.qualifiedName = ownerName)
    (unit : Nat) (source : Option Path) (package : String) (names : List String) :
    (declaration : Declaration) →
      round.elements.size + declaration.size ≤ ElementId.count →
      round.Keeps (round.insert unit source owner declaration) ∧
        Occurrence.IsEntered (round.insert unit source owner declaration) unit source owner
          ownerName ⟨round.elements.size, package, names, declaration⟩
  | ⟨kind, name, annotations, superclass, members⟩, hsize => by
    rw [Declaration.size] at hsize
    have hself := getElem?_declare howner hname unit source
      ⟨kind, name, annotations, superclass, []⟩
    have hindex : round.nextId.index = round.elements.size :=
      ElementId.index_ofIndex_of_lt (by omega)
    have hget : (round.declare unit source owner
        ⟨kind, name, annotations, superclass, []⟩).get? round.nextId = some
          (Declaration.entry ⟨kind, name, annotations, superclass, []⟩ unit source owner
            ownerName) := by
      rw [SourceRound.get?, hindex]
      exact hself
    have hall := insertAll_entered hget rfl unit source package names members (by
      rw [size_declare]
      omega)
    rw [size_declare] at hall
    rw [SourceRound.insert]
    refine ⟨(keeps_declare round unit source owner _).trans hall.1, ?_⟩
    exact .intro (hall.1 _ _ hself) hall.2

theorem insertAll_entered
    {round : SourceRound} {owner : ElementId} {ownerName : String} {found : SourceElement}
    (howner : round.get? owner = some found) (hname : found.element.qualifiedName = ownerName)
    (unit : Nat) (source : Option Path) (package : String) (outer : List String) :
    (declarations : List Declaration) →
      round.elements.size + sizeOfAll declarations ≤ ElementId.count →
      round.Keeps (round.insertAll unit source owner declarations) ∧
        ∀ occurrence ∈ placeAll package outer round.elements.size declarations,
          occurrence.IsEntered (round.insertAll unit source owner declarations) unit source owner
            ownerName
  | [], _ => by
    rw [SourceRound.insertAll]
    exact ⟨fun _ _ hfound => hfound, fun _ hoccurrence => by cases hoccurrence⟩
  | declaration :: rest, hsize => by
    rw [sizeOfAll] at hsize
    obtain ⟨hkeeps, hentered⟩ := insert_entered howner hname unit source package
      (outer ++ [declaration.name]) declaration (by omega)
    have hadded := (insert_spec round unit source owner package (outer ++ [declaration.name])
      declaration).1
    have hrest := insertAll_entered (hkeeps.get? howner) hname unit source package outer rest (by
      rw [hadded]
      omega)
    rw [hadded] at hrest
    rw [SourceRound.insertAll]
    refine ⟨hkeeps.trans hrest.1, ?_⟩
    intro occurrence hoccurrence
    rcases List.mem_cons.1 hoccurrence with rfl | hoccurrence
    · exact hentered.of_keeps hrest.1
    · exact hrest.2 occurrence hoccurrence

end

end ComponentMarkers.Source
