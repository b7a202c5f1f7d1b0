import ComponentMarkers.Proofs.Source.Occurrences

/-!
# What a loaded round holds

Inserting a declaration only adds elements, one for each declaration within it, at the indexes that
its occurrences have.  `IsLoaded` says this of a whole round: every top-level occurrence is held with
all that is within it, and every element is a package or the element of an occurrence.

Nothing here bounds the number of elements.
-/

namespace ComponentMarkers.Source

namespace SourceRound

/-- The element at an index, as processors see it. -/
def element? (round : SourceRound) (n : Nat) : Option Element :=
  (round.elements[n]?).map SourceElement.element

/-- Elements that were there stay at their index, as they are. -/
def Extends (before after : SourceRound) : Prop :=
  ∀ n element, before.element? n = some element → after.element? n = some element

theorem Extends.refl (round : SourceRound) : round.Extends round :=
  fun _ _ h => h

theorem Extends.trans
    {first second third : SourceRound} (h : first.Extends second) (h' : second.Extends third) :
    first.Extends third :=
  fun n element helement => h' n element (h n element helement)

theorem lt_size_of_element?
    {round : SourceRound} {n : Nat} {element : Element} (h : round.element? n = some element) :
    n < round.elements.size := by
  obtain ⟨found, hfound, -⟩ := Option.map_eq_some_iff.1 h
  exact (Array.getElem?_eq_some_iff.1 hfound).1

theorem exists_element?_of_lt
    {round : SourceRound} {n : Nat} (h : n < round.elements.size) :
    ∃ element, round.element? n = some element := by
  rw [element?, Array.getElem?_eq_getElem h]
  exact ⟨_, rfl⟩

theorem toRound_get? (round : SourceRound) (id : ElementId) :
    round.toRound.table.get? id = round.element? id.index := by
  rw [ElementTable.get?, toRound, Array.getElem?_map]
  rfl

theorem element?_of_get?
    {round : SourceRound} {id : ElementId} {found : SourceElement}
    (hget : round.get? id = some found) : round.element? id.index = some found.element := by
  rw [element?, show round.elements[id.index]? = some found from hget]
  rfl

/-- As long as the numbers do not wrap around, every element is found by the number of its index. -/
theorem get?_ofIndex
    {round : SourceRound} (hsize : round.elements.size < ElementId.count) {n : Nat}
    {found : SourceElement} (hfound : round.elements[n]? = some found) :
    round.get? (.ofIndex n) = some found := by
  have hlt := (Array.getElem?_eq_some_iff.1 hfound).1
  rw [get?, ElementId.index_ofIndex_of_lt (Nat.lt_trans hlt hsize), hfound]

theorem table_get?_of_get?
    {round : SourceRound} {id : ElementId} {found : SourceElement}
    (hget : round.get? id = some found) :
    round.toRound.table.get? id = some found.element := by
  rw [toRound_get?, element?_of_get? hget]

theorem element?_push (round : SourceRound) (added : SourceElement) (n : Nat) :
    (round.push added).element? n =
      if n = round.elements.size then some added.element else round.element? n := by
  rw [element?, push, Array.getElem?_push]
  split <;> rfl

theorem extends_push (round : SourceRound) (added : SourceElement) :
    round.Extends (round.push added) := by
  intro n element h
  rw [element?_push, if_neg (Nat.ne_of_lt (lt_size_of_element? h)), h]

theorem element?_annotate (round : SourceRound) (id : ElementId) (names : List WrittenName)
    (n : Nat) : (round.annotate id names).element? n = round.element? n := by
  rw [element?, element?, annotate, Array.getElem?_modify]
  split
  · rw [Option.map_map]
    rfl
  · rfl

theorem size_annotate (round : SourceRound) (id : ElementId) (names : List WrittenName) :
    (round.annotate id names).elements.size = round.elements.size :=
  Array.size_modify

theorem size_declare (round : SourceRound) (unit : Nat) (source : Option Path)
    (owner : ElementId) (declaration : Declaration) :
    (round.declare unit source owner declaration).elements.size = round.elements.size + 1 :=
  Array.size_push _

/-- Declaring adds one element inside its owner. -/
theorem element?_declare (round : SourceRound) (unit : Nat) (source : Option Path)
    (owner : ElementId) (declaration : Declaration) :
    ∃ qualifiedName, ∀ n,
      (round.declare unit source owner declaration).element? n =
        if n = round.elements.size then
          some ⟨declaration.kind, declaration.name, qualifiedName, some owner⟩
        else round.element? n :=
  ⟨_, fun n => element?_push round _ n⟩

theorem extends_declare (round : SourceRound) (unit : Nat) (source : Option Path)
    (owner : ElementId) (declaration : Declaration) :
    round.Extends (round.declare unit source owner declaration) :=
  extends_push round _

/-- What is entered for a package. -/
def packageEntry (name : String) : SourceElement :=
  ⟨⟨.package, Text.lastSegment name, name, none⟩, none, [], none⟩

/-- The round with an element for a package that is not known. -/
def withPackage (round : SourceRound) (name : String) : SourceRound :=
  { round.push (packageEntry name) with
    packages := round.packages.insertNew name round.nextId }

/-- The round with the context of one more unit. -/
def withContext (round : SourceRound) (unit : CompilationUnit) : SourceRound :=
  { round with units := round.units.push (ImportContext.ofImports unit.package unit.imports) }

theorem openUnit_eq (round : SourceRound) (unit : CompilationUnit) :
    round.openUnit unit = (round.withContext unit).package (unit.package.getD "") :=
  rfl

/-- A package that is known is left as it is, and any other one gets an element. -/
theorem package_cases (round : SourceRound) (name : String) :
    (∃ id, round.packages.find? name = some id ∧ round.package name = (round, id)) ∨
      round.packages.find? name = none ∧
        round.package name = (round.withPackage name, round.nextId) := by
  rw [package]
  cases round.packages.find? name with
  | some id => exact Or.inl ⟨id, rfl, rfl⟩
  | none => exact Or.inr ⟨rfl, rfl⟩

theorem package_frame (round : SourceRound) (name : String) :
    (round.package name).1.units = round.units ∧ (round.package name).1.roots = round.roots := by
  rcases round.package_cases name with ⟨id, -, hpackage⟩ | ⟨-, hpackage⟩
  · rw [hpackage]
    exact ⟨rfl, rfl⟩
  · rw [hpackage]
    exact ⟨rfl, rfl⟩

theorem element?_withPackage (round : SourceRound) (name : String) (n : Nat) :
    (round.withPackage name).element? n =
      if n = round.elements.size then some (packageEntry name).element else round.element? n :=
  element?_push round (packageEntry name) n

theorem extends_withPackage (round : SourceRound) (name : String) :
    round.Extends (round.withPackage name) :=
  extends_push round (packageEntry name)

theorem find?_withPackage
    {round : SourceRound} {name : String} (h : round.packages.find? name = none) (other : String) :
    (round.withPackage name).packages.find? other =
      if other = name then some round.nextId else round.packages.find? other := by
  rw [withPackage, NameIndex.find?_insertNew]
  by_cases hsame : other = name
  · rw [if_pos hsame, if_pos hsame, hsame, h, Option.none_or]
  · rw [if_neg hsame, if_neg hsame, Option.or_none]

/-- Entering a package makes it known, and no other one. -/
theorem find?_package (round : SourceRound) (name other : String) :
    (round.package name).1.packages.find? other =
      if other = name then some (round.package name).2 else round.packages.find? other := by
  rcases round.package_cases name with ⟨id, hid, hpackage⟩ | ⟨hnone, hpackage⟩
  · rw [hpackage]
    by_cases hsame : other = name
    · rw [if_pos hsame, hsame, hid]
    · rw [if_neg hsame]
  · rw [hpackage, find?_withPackage hnone]

theorem isSome_find?_package_iff (round : SourceRound) (name other : String) :
    ((round.package name).1.packages.find? other).isSome ↔
      (round.packages.find? other).isSome ∨ name = other := by
  rw [find?_package]
  by_cases hsame : other = name
  · rw [if_pos hsame]
    exact iff_of_true rfl (Or.inr hsame.symm)
  · rw [if_neg hsame, or_iff_left (Ne.symm hsame)]

theorem size_package (round : SourceRound) (name : String) :
    (round.package name).1.elements.size =
      round.elements.size + if (round.packages.find? name).isSome then 0 else 1 := by
  rcases round.package_cases name with ⟨id, hid, hpackage⟩ | ⟨hnone, hpackage⟩
  · rw [hpackage, hid]
    rfl
  · rw [hpackage, hnone]
    exact Array.size_push _

theorem extends_package (round : SourceRound) (name : String) :
    round.Extends (round.package name).1 := by
  rcases round.package_cases name with ⟨id, -, hpackage⟩ | ⟨-, hpackage⟩
  · rw [hpackage]
    exact .refl round
  · rw [hpackage]
    exact extends_withPackage round name

end SourceRound

open SourceRound

/-- The round has the element of an occurrence inside `owner`, and inside it those of its members. -/
inductive Occurrence.IsHeld (round : SourceRound) : (owner : ElementId) → Occurrence → Prop where
  | intro {owner : ElementId} {occurrence : Occurrence} {element : Element}
      (hget : round.element? occurrence.index = some element)
      (hkind : element.kind = occurrence.declaration.kind)
      (hname : element.simpleName = occurrence.declaration.name)
      (howner : element.enclosing = some owner)
      (hmembers : ∀ member ∈ occurrence.members, IsHeld round occurrence.id member) :
      IsHeld round owner occurrence

theorem Occurrence.IsHeld.of_extends
    {before after : SourceRound} (hextends : before.Extends after) {owner : ElementId}
    {occurrence : Occurrence} (h : occurrence.IsHeld before owner) :
    occurrence.IsHeld after owner := by
  induction h with
  | intro hget hkind hname howner _ ih =>
      exact .intro (hextends _ _ hget) hkind hname howner ih

mutual

/-- Inserting a declaration touches nothing but the elements and the names of types. -/
theorem insert_frame
    (round : SourceRound) (unit : Nat) (source : Option Path) (owner : ElementId) :
    (declaration : Declaration) →
      (round.insert unit source owner declaration).packages = round.packages ∧
        (round.insert unit source owner declaration).roots = round.roots ∧
        (round.insert unit source owner declaration).isOver = round.isOver
  | ⟨kind, name, annotations, superclass, members⟩ => by
    rw [SourceRound.insert]
    exact insertAll_frame _ unit source _ members

theorem insertAll_frame
    (round : SourceRound) (unit : Nat) (source : Option Path) (owner : ElementId) :
    (declarations : List Declaration) →
      (round.insertAll unit source owner declarations).packages = round.packages ∧
        (round.insertAll unit source owner declarations).roots = round.roots ∧
        (round.insertAll unit source owner declarations).isOver = round.isOver
  | [] => by
    rw [SourceRound.insertAll]
    exact ⟨rfl, rfl, rfl⟩
  | declaration :: rest => by
    obtain ⟨hpackages, hroots, hover⟩ := insert_frame round unit source owner declaration
    rw [SourceRound.insertAll, ← hpackages, ← hroots, ← hover]
    exact insertAll_frame _ unit source owner rest

end

mutual

/-- Inserting a declaration adds the elements of its occurrences and leaves the others as they are. -/
theorem insert_spec
    (round : SourceRound) (unit : Nat) (source : Option Path) (owner : ElementId)
    (package : String) (names : List String) :
    (declaration : Declaration) →
      (round.insert unit source owner declaration).elements.size =
          round.elements.size + declaration.size ∧
        round.Extends (round.insert unit source owner declaration) ∧
        Occurrence.IsHeld (round.insert unit source owner declaration) owner
          ⟨round.elements.size, package, names, declaration⟩
  | ⟨kind, name, annotations, superclass, members⟩ => by
    obtain ⟨hsize, hextends, hheld⟩ := insertAll_spec
      (round.declare unit source owner ⟨kind, name, annotations, superclass, []⟩) unit source
      round.nextId package names members
    obtain ⟨qualifiedName, helement⟩ :=
      element?_declare round unit source owner ⟨kind, name, annotations, superclass, []⟩
    rw [size_declare] at hsize hheld
    rw [SourceRound.insert]
    refine ⟨?_, (extends_declare round unit source owner _).trans hextends, ?_⟩
    · rw [hsize, Declaration.size]
      omega
    · have hself := helement round.elements.size
      rw [if_pos rfl] at hself
      exact .intro (hextends _ _ hself) rfl rfl rfl hheld

theorem insertAll_spec
    (round : SourceRound) (unit : Nat) (source : Option Path) (owner : ElementId)
    (package : String) (outer : List String) :
    (declarations : List Declaration) →
      (round.insertAll unit source owner declarations).elements.size =
          round.elements.size + sizeOfAll declarations ∧
        round.Extends (round.insertAll unit source owner declarations) ∧
        ∀ occurrence ∈ placeAll package outer round.elements.size declarations,
          occurrence.IsHeld (round.insertAll unit source owner declarations) owner
  | [] => by
    rw [SourceRound.insertAll, sizeOfAll]
    exact ⟨rfl, Extends.refl round, fun _ h => by cases h⟩
  | declaration :: rest => by
    obtain ⟨hsize, hextends, hheld⟩ :=
      insert_spec round unit source owner package (outer ++ [declaration.name]) declaration
    obtain ⟨hrestSize, hrestExtends, hrestHeld⟩ := insertAll_spec
      (round.insert unit source owner declaration) unit source owner package outer rest
    rw [hsize] at hrestSize hrestHeld
    rw [SourceRound.insertAll, sizeOfAll]
    refine ⟨?_, hextends.trans hrestExtends, ?_⟩
    · rw [hrestSize, Nat.add_assoc]
    · intro occurrence hoccurrence
      rcases List.mem_cons.1 hoccurrence with rfl | hoccurrence
      · exact hheld.of_extends hrestExtends
      · exact hrestHeld occurrence hoccurrence

end

/-- The package elements and the top-level occurrences account for everything in a round. -/
structure SourceRound.IsLoaded (round : SourceRound) (tops : List Occurrence) : Prop where
  package_eq : ∀ name id, round.packages.find? name = some id →
    ∃ n, id = .ofIndex n ∧ round.element? n = some ⟨.package, Text.lastSegment name, name, none⟩
  held : ∀ top ∈ tops, ∃ owner, round.packages.find? top.package = some owner ∧
    top.IsHeld round owner
  covered : ∀ n element, round.element? n = some element →
    (element.kind = .package ∧ element.enclosing = none ∧
        (round.packages.find? element.qualifiedName).isSome) ∨
      ∃ top ∈ tops, ∃ occurrence : Occurrence, occurrence.IsWithin top ∧ occurrence.index = n
  roots_eq : round.roots = tops.map Occurrence.id
  isOver_eq : round.isOver = false

namespace SourceRound

theorem isLoaded_empty : empty.IsLoaded [] := by
  constructor
  · intro name id h
    cases h
  · simp
  · intro n element h
    cases h
  · rfl
  · rfl

theorem IsLoaded.withPackage
    {round : SourceRound} {tops : List Occurrence} (h : round.IsLoaded tops) {name : String}
    (hname : round.packages.find? name = none) : (round.withPackage name).IsLoaded tops := by
  have hextends := extends_withPackage round name
  have hknown : ∀ {other owner}, round.packages.find? other = some owner →
      (round.withPackage name).packages.find? other = some owner := by
    intro other owner howner
    rw [find?_withPackage hname, if_neg, howner]
    rintro rfl
    rw [hname] at howner
    cases howner
  refine ⟨?_, ?_, ?_, h.roots_eq, h.isOver_eq⟩
  · intro other id hother
    rw [find?_withPackage hname] at hother
    by_cases hsame : other = name
    · rw [if_pos hsame] at hother
      refine ⟨round.elements.size, (Option.some.inj hother).symm, ?_⟩
      rw [element?_withPackage, if_pos rfl, hsame]
      rfl
    · rw [if_neg hsame] at hother
      obtain ⟨n, hn, helement⟩ := h.package_eq other id hother
      exact ⟨n, hn, hextends _ _ helement⟩
  · intro top htop
    obtain ⟨owner, howner, hheld⟩ := h.held top htop
    exact ⟨owner, hknown howner, hheld.of_extends hextends⟩
  · intro n element helement
    rw [element?_withPackage] at helement
    by_cases hn : n = round.elements.size
    · rw [if_pos hn] at helement
      obtain rfl := Option.some.inj helement
      have hself := (find?_withPackage hname name).trans (if_pos rfl)
      exact Or.inl ⟨rfl, rfl, Option.isSome_of_eq_some hself⟩
    · rw [if_neg hn] at helement
      rcases h.covered n element helement with ⟨hkind, hnone, hsome⟩ | hfound
      · obtain ⟨owner, howner⟩ := Option.isSome_iff_exists.1 hsome
        exact Or.inl ⟨hkind, hnone, Option.isSome_of_eq_some (hknown howner)⟩
      · exact Or.inr hfound

/-- Entering a package keeps what the round has, and the package is known from then on. -/
theorem IsLoaded.package
    {round : SourceRound} {tops : List Occurrence} (h : round.IsLoaded tops) (name : String) :
    (round.package name).1.IsLoaded tops ∧
      (round.package name).1.packages.find? name = some (round.package name).2 := by
  refine ⟨?_, (find?_package round name name).trans (if_pos rfl)⟩
  rcases round.package_cases name with ⟨id, -, hpackage⟩ | ⟨hnone, hpackage⟩
  · rw [hpackage]
    exact h
  · rw [hpackage]
    exact h.withPackage hnone

/-- Annotations of a package do not show in what the round holds. -/
theorem IsLoaded.annotate
    {round : SourceRound} {tops : List Occurrence} (h : round.IsLoaded tops) (id : ElementId)
    (names : List WrittenName) : (round.annotate id names).IsLoaded tops := by
  have hextends : round.Extends (round.annotate id names) :=
    fun n element helement => (element?_annotate round id names n).trans helement
  constructor
  · intro name package hpackage
    obtain ⟨n, hn, helement⟩ := h.package_eq name package hpackage
    exact ⟨n, hn, hextends _ _ helement⟩
  · intro top htop
    obtain ⟨owner, howner, hheld⟩ := h.held top htop
    exact ⟨owner, howner, hheld.of_extends hextends⟩
  · intro n element helement
    exact h.covered n element ((element?_annotate round id names n).symm.trans helement)
  · exact h.roots_eq
  · exact h.isOver_eq

/-- A type at the top of a unit is added with everything within it. -/
theorem IsLoaded.insertRoot
    {round : SourceRound} {tops : List Occurrence} (h : round.IsLoaded tops) (unit : Nat)
    (source : Option Path) {package : String} {owner : ElementId}
    (hpackage : round.packages.find? package = some owner) (declaration : Declaration) :
    (round.insertRoot unit source owner declaration).IsLoaded
        (tops ++ [⟨round.elements.size, package, [declaration.name], declaration⟩]) ∧
      (round.insertRoot unit source owner declaration).elements.size =
        round.elements.size + declaration.size ∧
      (round.insertRoot unit source owner declaration).packages = round.packages := by
  obtain ⟨hpackages, hroots, hover⟩ := insert_frame round unit source owner declaration
  obtain ⟨hsize, hinserted, hheld⟩ :=
    insert_spec round unit source owner package [declaration.name] declaration
  have hroot : (round.insert unit source owner declaration).Extends
      (round.insertRoot unit source owner declaration) := fun _ _ helement => helement
  have hextends := hinserted.trans hroot
  refine ⟨⟨?_, ?_, ?_, ?_, ?_⟩, hsize, hpackages⟩
  · intro name id hname
    obtain ⟨n, hn, helement⟩ := h.package_eq name id (hpackages ▸ hname)
    exact ⟨n, hn, hextends _ _ helement⟩
  · intro top htop
    rcases List.mem_append.1 htop with htop | htop
    · obtain ⟨other, hother, htopHeld⟩ := h.held top htop
      exact ⟨other, hpackages ▸ hother, htopHeld.of_extends hextends⟩
    · obtain rfl := List.mem_singleton.1 htop
      exact ⟨owner, hpackages ▸ hpackage, hheld.of_extends hroot⟩
  · intro n element helement
    by_cases hold : n < round.elements.size
    · obtain ⟨before, hbefore⟩ := exists_element?_of_lt hold
      obtain rfl : before = element :=
        Option.some.inj ((hextends _ _ hbefore).symm.trans helement)
      rcases h.covered n before hbefore with ⟨hkind, hnone, hknown⟩ | ⟨top, htop, hfound⟩
      · exact Or.inl ⟨hkind, hnone, hpackages ▸ hknown⟩
      · exact Or.inr ⟨top, List.mem_append_left _ htop, hfound⟩
    · have hlast : n < round.elements.size + declaration.size :=
        Nat.lt_of_lt_of_eq (lt_size_of_element? helement) hsize
      exact Or.inr ⟨_, List.mem_append_right _ (List.mem_singleton.2 rfl),
        exists_isWithin_of_index package [declaration.name] round.elements.size n
          (Nat.le_of_not_lt hold) declaration hlast⟩
  · change (round.insert unit source owner declaration).roots ++ [round.nextId] = _
    rw [hroots, h.roots_eq, List.map_append]
    rfl
  · exact hover.trans h.isOver_eq

/-- The types of a unit are added one after the other. -/
theorem IsLoaded.insertRoots
    {round : SourceRound} {tops : List Occurrence} (h : round.IsLoaded tops) (unit : Nat)
    (source : Option Path) {package : String} {owner : ElementId}
    (hpackage : round.packages.find? package = some owner) (types : List Declaration) :
    (types.foldl (fun round type => round.insertRoot unit source owner type) round).IsLoaded
      (tops ++ placeAll package [] round.elements.size types) := by
  induction types generalizing round tops with
  | nil =>
      rw [placeAll, List.append_nil]
      exact h
  | cons declaration rest ih =>
      obtain ⟨hloaded, hsize, hpackages⟩ := h.insertRoot unit source hpackage declaration
      have hrest := ih hloaded (hpackages ▸ hpackage)
      rw [hsize, List.append_assoc, List.singleton_append] at hrest
      exact hrest

theorem packages_insertRoots
    (round : SourceRound) (unit : Nat) (source : Option Path) (owner : ElementId)
    (types : List Declaration) :
    (types.foldl (fun round type => round.insertRoot unit source owner type) round).packages =
      round.packages := by
  induction types generalizing round with
  | nil => rfl
  | cons declaration rest ih =>
      rw [List.foldl_cons, ih]
      exact (insert_frame round unit source owner declaration).1

theorem packages_addUnit (round : SourceRound) (unit : CompilationUnit) :
    (round.addUnit unit).1.packages = (round.openUnit unit).1.packages :=
  packages_insertRoots _ _ _ _ _

/-- Opening the package of a unit keeps what the round has, and the package is known from then on. -/
theorem IsLoaded.openUnit
    {round : SourceRound} {tops : List Occurrence} (h : round.IsLoaded tops)
    (unit : CompilationUnit) :
    (round.openUnit unit).1.IsLoaded tops ∧
      (round.openUnit unit).1.packages.find? (unit.package.getD "") =
        some (round.openUnit unit).2 := by
  have hextends : round.Extends (round.withContext unit) := fun _ _ helement => helement
  have hunits : (round.withContext unit).IsLoaded tops := by
    refine ⟨h.package_eq, ?_, h.covered, h.roots_eq, h.isOver_eq⟩
    intro top htop
    obtain ⟨owner, howner, hheld⟩ := h.held top htop
    exact ⟨owner, howner, hheld.of_extends hextends⟩
  exact hunits.package (unit.package.getD "")

/-- A unit is added with all its types. -/
theorem IsLoaded.addUnit
    {round : SourceRound} {tops : List Occurrence} (h : round.IsLoaded tops)
    (unit : CompilationUnit) :
    (round.addUnit unit).1.IsLoaded
      (tops ++ placeAll (unit.package.getD "") [] (round.openUnit unit).1.elements.size
        unit.types) := by
  obtain ⟨hopened, hpackage⟩ := h.openUnit unit
  have hadded := (hopened.annotate (round.openUnit unit).2
    (unit.packageAnnotations.map fun text => ⟨text, round.units.size⟩)).insertRoots
      round.units.size unit.path hpackage unit.types
  rw [size_annotate] at hadded
  exact hadded

theorem IsLoaded.addUnits
    {round : SourceRound} {tops : List Occurrence} (h : round.IsLoaded tops)
    (units : List CompilationUnit) :
    (units.foldl (fun round unit => (round.addUnit unit).1) round).IsLoaded
      (tops ++ round.topLevelAfter units) := by
  induction units generalizing round tops with
  | nil =>
      rw [topLevelAfter, List.append_nil]
      exact h
  | cons unit rest ih =>
      have hrest := ih (h.addUnit unit)
      rw [List.append_assoc] at hrest
      exact hrest

/-- The round of some units holds exactly what occurs in them. -/
theorem isLoaded_ofUnits (units : List CompilationUnit) :
    (ofUnits units).IsLoaded (topLevel units) :=
  isLoaded_empty.addUnits units

/-- The packages of a round are those of its units. -/
theorem exists_unit_of_find?_packages
    {round : SourceRound} {units : List CompilationUnit} {name : String}
    (h : ((units.foldl (fun round unit => (round.addUnit unit).1) round).packages.find?
      name).isSome) :
    (round.packages.find? name).isSome ∨ ∃ unit ∈ units, unit.package.getD "" = name := by
  induction units generalizing round with
  | nil => exact Or.inl h
  | cons unit rest ih =>
      rcases ih h with hknown | ⟨found, hfound, hname⟩
      · rw [packages_addUnit, openUnit_eq] at hknown
        rcases (isSome_find?_package_iff _ _ _).1 hknown with hknown | hname
        · exact Or.inl hknown
        · exact Or.inr ⟨unit, List.mem_cons_self, hname⟩
      · exact Or.inr ⟨found, List.mem_cons_of_mem _ hfound, hname⟩

end SourceRound

end ComponentMarkers.Source
