import ComponentMarkers.Proofs.Lists
import ComponentMarkers.Proofs.Source.Entries
import Mathlib.Data.List.Induction

/-!
# What a round knows of its units

A round that was made by adding units knows the context of each of them, has the entries of its
declarations, and has one element for each package with the annotations of all units in it.  So a text
can be traced back to the unit it is written in, and from there to the names it is resolved against.

The index of types is described separately: it leads to the first type of a name.
-/

namespace ComponentMarkers.Source

open Text

namespace SourceRound

/-- The round with other roots, ending a run or not. -/
def framed (round : SourceRound) (roots : List ElementId) (isOver : Bool) : SourceRound :=
  { round with roots := roots, isOver := isOver }

end SourceRound

mutual

theorem insert_framed
    (round : SourceRound) (roots : List ElementId) (isOver : Bool) (unit : Nat)
    (source : Option Path) (owner : ElementId) :
    (declaration : Declaration) →
      (round.framed roots isOver).insert unit source owner declaration =
        (round.insert unit source owner declaration).framed roots isOver
  | ⟨kind, name, annotations, superclass, members⟩ => by
    rw [SourceRound.insert, SourceRound.insert]
    exact insertAll_framed
      (round.declare unit source owner ⟨kind, name, annotations, superclass, []⟩) roots isOver unit
      source round.nextId members

theorem insertAll_framed
    (round : SourceRound) (roots : List ElementId) (isOver : Bool) (unit : Nat)
    (source : Option Path) (owner : ElementId) :
    (declarations : List Declaration) →
      (round.framed roots isOver).insertAll unit source owner declarations =
        (round.insertAll unit source owner declarations).framed roots isOver
  | [] => by
    rw [SourceRound.insertAll, SourceRound.insertAll]
  | declaration :: rest => by
    rw [SourceRound.insertAll, SourceRound.insertAll, insert_framed, insertAll_framed]

end

namespace SourceRound

/-- Roots aside, types at the top of a unit are inserted like any others. -/
theorem exists_insertRoots_eq
    (round : SourceRound) (unit : Nat) (source : Option Path) (package : ElementId)
    (types : List Declaration) :
    ∃ roots, types.foldl (fun round type => round.insertRoot unit source package type) round =
      (round.insertAll unit source package types).framed roots round.isOver := by
  induction types generalizing round with
  | nil =>
      rw [insertAll]
      exact ⟨round.roots, rfl⟩
  | cons type rest ih =>
      have hover := (insert_frame round unit source package type).2.2
      have hroot : round.insertRoot unit source package type =
          (round.insert unit source package type).framed
            ((round.insert unit source package type).roots ++ [round.nextId]) round.isOver := by
        rw [← hover]
        rfl
      obtain ⟨roots, hroots⟩ := ih (round.insertRoot unit source package type)
      refine ⟨roots, ?_⟩
      rw [List.foldl_cons, hroots, hroot, insertAll_framed, insertAll]
      rfl

/-- The round with the package of a unit opened and its annotations noted. -/
def withPackageOf (round : SourceRound) (unit : CompilationUnit) : SourceRound :=
  (round.openUnit unit).1.annotate (round.openUnit unit).2
    (unit.packageAnnotations.map fun text => ⟨text, round.units.size⟩)

theorem size_withPackageOf (round : SourceRound) (unit : CompilationUnit) :
    (round.withPackageOf unit).elements.size = (round.openUnit unit).1.elements.size :=
  size_annotate _ _ _

/-- Roots aside, a unit is added by opening its package and inserting its types there. -/
theorem exists_addUnit_eq (round : SourceRound) (unit : CompilationUnit) :
    ∃ roots, (round.addUnit unit).1 =
      ((round.withPackageOf unit).insertAll round.units.size unit.path (round.openUnit unit).2
        unit.types).framed roots (round.openUnit unit).1.isOver :=
  exists_insertRoots_eq _ round.units.size unit.path _ unit.types

/-- What opening a package, noting annotations and declaring keep is kept when a unit is added. -/
theorem addUnit_induction
    {P : SourceRound → Prop} {round : SourceRound} {unit : CompilationUnit}
    (hopen : P (round.openUnit unit).1)
    (hannotate : ∀ round id names, P round → P (round.annotate id names))
    (hdeclare : ∀ before owner declaration, P before →
      P (before.declare round.units.size unit.path owner declaration))
    (hframed : ∀ round roots isOver, P round → P (round.framed roots isOver)) :
    P (round.addUnit unit).1 := by
  obtain ⟨roots, hadd⟩ := exists_addUnit_eq round unit
  rw [hadd]
  exact hframed _ _ _ (insertAll_induction hdeclare _ _ (hannotate _ _ _ hopen) unit.types)

theorem openUnit_framed
    (round : SourceRound) (roots : List ElementId) (isOver : Bool) (unit : CompilationUnit) :
    ((round.framed roots isOver).openUnit unit).1 =
        ((round.openUnit unit).1).framed roots isOver ∧
      ((round.framed roots isOver).openUnit unit).2 = (round.openUnit unit).2 := by
  rw [openUnit, openUnit, package, package]
  dsimp only [framed]
  cases round.packages.find? (unit.package.getD "") with
  | some id => exact ⟨rfl, rfl⟩
  | none => exact ⟨rfl, rfl⟩

/-- Whether a round ends a run has no say in what adding units enters. -/
theorem Reached.exists_framed
    {units : List CompilationUnit} {round : SourceRound} (h : Reached units round) :
    ∃ roots isOver, round = (ofUnits units).framed roots isOver := by
  induction h with
  | new => exact ⟨[], false, rfl⟩
  | final => exact ⟨[], true, rfl⟩
  | @addUnit units round _ unit ih =>
      obtain ⟨roots, isOver, rfl⟩ := ih
      obtain ⟨oldRoots, hold⟩ := exists_addUnit_eq (ofUnits units) unit
      obtain ⟨newRoots, hnew⟩ := exists_addUnit_eq ((ofUnits units).framed roots isOver) unit
      obtain ⟨hopened, hpackage⟩ := openUnit_framed (ofUnits units) roots isOver unit
      have hlast : ofUnits (units ++ [unit]) = ((ofUnits units).addUnit unit).1 := by
        rw [ofUnits, ofUnits, List.foldl_append]
        rfl
      refine ⟨newRoots, isOver, ?_⟩
      rw [hnew, hlast, hold, hopened, hpackage]
      have hnoted : ((ofUnits units).framed roots isOver).withPackageOf unit =
          ((ofUnits units).withPackageOf unit).framed roots isOver := by
        rw [withPackageOf, withPackageOf, hopened, hpackage]
        rfl
      rw [hnoted, insertAll_framed]
      rfl

/-- Every package has one element, which carries the annotations of all units that open the package. -/
def PackagesMatch (round : SourceRound) (units : List CompilationUnit) : Prop :=
  ∀ name id, round.packages.find? name = some id →
    ∃ found, round.get? id = some found ∧
      found.element = ⟨.package, lastSegment name, name, none⟩ ∧ found.superclass = none ∧
      ∀ usage, usage ∈ found.annotations ↔
        ∃ unit, units[usage.unit]? = some unit ∧ unit.package.getD "" = name ∧
          usage.text ∈ unit.packageAnnotations

/-- The round has the contexts of some units, and their declarations in their packages. -/
structure Knows (round : SourceRound) (units : List CompilationUnit) : Prop where
  units_eq : round.units.toList = units.map CompilationUnit.context
  packages : round.PackagesMatch units
  entered : ∀ k unit, units[k]? = some unit →
    round.packages.find? (unit.package.getD "") = some (packageAt units k unit) ∧
      ∀ top ∈ typesAt units k unit,
        top.IsEntered round k unit.path (packageAt units k unit) (unit.package.getD "") ∧
          (packageAt units k unit).index < top.index

theorem PackagesMatch.name_eq
    {round : SourceRound} {units : List CompilationUnit} (h : round.PackagesMatch units)
    {name other : String} {id : ElementId} (hname : round.packages.find? name = some id)
    (hother : round.packages.find? other = some id) : name = other := by
  obtain ⟨found, hget, helement, -⟩ := h name id hname
  obtain ⟨same, hsame, hsameElement, -⟩ := h other id hother
  obtain rfl := Option.some.inj (hget.symm.trans hsame)
  rw [helement] at hsameElement
  exact congrArg Element.qualifiedName hsameElement

section Opening

variable {round : SourceRound} {units : List CompilationUnit} {unit : CompilationUnit}

theorem keeps_openUnit (round : SourceRound) (unit : CompilationUnit) :
    round.Keeps (round.openUnit unit).1 := by
  rw [openUnit_eq]
  rcases (round.withContext unit).package_cases (unit.package.getD "") with
    ⟨id, -, hpackage⟩ | ⟨-, hpackage⟩
  · rw [hpackage]
    exact fun _ _ hfound => hfound
  · rw [hpackage]
    exact keeps_push round _

theorem units_openUnit (round : SourceRound) (unit : CompilationUnit) :
    (round.openUnit unit).1.units = round.units.push unit.context :=
  (package_frame (round.withContext unit) (unit.package.getD "")).1

theorem find?_openUnit (round : SourceRound) (unit : CompilationUnit) (name : String) :
    (round.openUnit unit).1.packages.find? name =
      if name = unit.package.getD "" then some (round.openUnit unit).2
      else round.packages.find? name :=
  find?_package (round.withContext unit) (unit.package.getD "") name

theorem find?_openUnit_of_eq_some
    {name : String} {id : ElementId} (h : round.packages.find? name = some id)
    (unit : CompilationUnit) : (round.openUnit unit).1.packages.find? name = some id := by
  rw [openUnit_eq]
  rcases (round.withContext unit).package_cases (unit.package.getD "") with
    ⟨known, -, hpackage⟩ | ⟨hnone, hpackage⟩
  · rw [hpackage]
    exact h
  · rw [hpackage, find?_withPackage hnone, if_neg]
    · exact h
    · rintro rfl
      cases h.symm.trans hnone

/-- The numbers of packages match the units before as well when the package of one more is opened. -/
theorem PackagesMatch.openUnit
    (h : round.PackagesMatch units) (unit : CompilationUnit)
    (hsize : (round.openUnit unit).1.elements.size < ElementId.count)
    (hknown : ∀ other ∈ units, (round.packages.find? (other.package.getD "")).isSome) :
    (round.openUnit unit).1.PackagesMatch units := by
  have hkeeps := keeps_openUnit round unit
  rw [openUnit_eq] at hsize hkeeps ⊢
  rcases (round.withContext unit).package_cases (unit.package.getD "") with
    ⟨id, -, hpackage⟩ | ⟨hnone, hpackage⟩
  · rw [hpackage]
    exact h
  · rw [hpackage] at hsize hkeeps ⊢
    intro name id hname
    rw [find?_withPackage hnone] at hname
    by_cases hsame : name = unit.package.getD ""
    · rw [if_pos hsame] at hname
      obtain rfl := Option.some.inj hname
      have hadded : ((round.withContext unit).withPackage (unit.package.getD "")).elements[
          round.elements.size]? = some (packageEntry (unit.package.getD "")) :=
        Array.getElem?_push_size
      rw [hsame]
      refine ⟨_, get?_ofIndex hsize hadded, rfl, rfl, fun usage => ?_⟩
      -- None of the earlier units is in a package that was not known.
      constructor
      · intro husage
        cases husage
      · rintro ⟨earlier, hearlier, hsamePackage, -⟩
        have hsome := hknown earlier (List.mem_of_getElem? hearlier)
        rw [hsamePackage, show round.packages.find? (unit.package.getD "") = none from hnone] at hsome
        cases hsome
    · rw [if_neg hsame] at hname
      obtain ⟨found, hget, hspec⟩ := h name id hname
      exact ⟨found, hkeeps.get? hget, hspec⟩

/-- With its annotations noted the package matches one more unit. -/
theorem PackagesMatch.annotate
    (h : round.PackagesMatch units) {id : ElementId}
    (hid : round.packages.find? (unit.package.getD "") = some id) :
    (round.annotate id (unit.packageAnnotations.map fun text => ⟨text, units.length⟩)).PackagesMatch
      (units ++ [unit]) := by
  have hunits : ∀ (usage : WrittenName) (name : String),
      (∃ found, (units ++ [unit])[usage.unit]? = some found ∧ found.package.getD "" = name ∧
          usage.text ∈ found.packageAnnotations) ↔
        (∃ found, units[usage.unit]? = some found ∧ found.package.getD "" = name ∧
          usage.text ∈ found.packageAnnotations) ∨
        usage.unit = units.length ∧ unit.package.getD "" = name ∧
          usage.text ∈ unit.packageAnnotations := by
    intro usage name
    simp only [getElem?_concat_eq_some_iff]
    constructor
    · rintro ⟨found, hfound | ⟨hlast, rfl⟩, hspec⟩
      · exact Or.inl ⟨found, hfound, hspec⟩
      · exact Or.inr ⟨hlast, hspec⟩
    · rintro (⟨found, hfound, hspec⟩ | ⟨hlast, hspec⟩)
      · exact ⟨found, Or.inl hfound, hspec⟩
      · exact ⟨unit, Or.inr ⟨hlast, rfl⟩, hspec⟩
  intro name other hother
  obtain ⟨found, hget, helement, hsuper, husages⟩ := h name other hother
  by_cases hsame : other = id
  · subst hsame
    have hname := h.name_eq hid hother
    refine ⟨_, get?_annotate_self round other _ hget, helement, hsuper, ?_⟩
    intro usage
    rw [hunits, ← husages usage, List.mem_append, List.mem_map]
    apply or_congr_right
    constructor
    · rintro ⟨text, htext, rfl⟩
      exact ⟨rfl, hname, htext⟩
    · rintro ⟨hunit, -, htext⟩
      refine ⟨usage.text, htext, ?_⟩
      rw [← hunit]
  · have hne : other.index ≠ id.index := by
      intro hindex
      apply hsame
      rw [← ElementId.ofIndex_index other, hindex, ElementId.ofIndex_index]
    refine ⟨found, (getElem?_annotate_of_ne round _ hne).trans hget, helement, hsuper, ?_⟩
    intro usage
    rw [hunits, ← husages usage]
    constructor
    · exact Or.inl
    · rintro (hfound | ⟨-, hname, -⟩)
      · exact hfound
      · -- The unit is in another package.
        rw [hname] at hid
        exact absurd (Option.some.inj (hother.symm.trans hid)) hsame

end Opening

theorem ofUnits_concat (units : List CompilationUnit) (unit : CompilationUnit) :
    ofUnits (units ++ [unit]) = ((ofUnits units).addUnit unit).1 := by
  rw [ofUnits, List.foldl_append]
  rfl

theorem size_addUnit (round : SourceRound) (unit : CompilationUnit) :
    (round.addUnit unit).1.elements.size =
      (round.openUnit unit).1.elements.size + sizeOfAll unit.types := by
  obtain ⟨roots, hadd⟩ := exists_addUnit_eq round unit
  have hsize := (insertAll_spec (round.withPackageOf unit) round.units.size unit.path
    (round.openUnit unit).2 (unit.package.getD "") [] unit.types).1
  rw [size_withPackageOf] at hsize
  rw [hadd]
  exact hsize

/-- The number of elements never falls. -/
theorem size_le_size_openUnit (round : SourceRound) (unit : CompilationUnit) :
    round.elements.size ≤ (round.openUnit unit).1.elements.size := by
  rw [openUnit_eq, size_package]
  exact Nat.le_add_right _ _

/-- Declarations are placed from the first index on. -/
theorem le_index_of_mem_placeAll
    {package : String} {outer : List String} {first : Nat} {declarations : List Declaration}
    {occurrence : Occurrence} (h : occurrence ∈ placeAll package outer first declarations) :
    first ≤ occurrence.index := by
  induction declarations generalizing first with
  | nil => cases h
  | cons declaration rest ih =>
      rcases List.mem_cons.1 h with rfl | h
      · exact Nat.le_refl _
      · exact Nat.le_trans (Nat.le_add_right _ _) (ih h)

theorem packageAt_concat
    {units : List CompilationUnit} {k : Nat} (hk : k ≤ units.length)
    (last unit : CompilationUnit) :
    packageAt (units ++ [last]) k unit = packageAt units k unit := by
  rw [packageAt, packageAt, List.take_append_of_le_length hk]

theorem typesAt_concat
    {units : List CompilationUnit} {k : Nat} (hk : k ≤ units.length)
    (last unit : CompilationUnit) :
    typesAt (units ++ [last]) k unit = typesAt units k unit := by
  rw [typesAt, typesAt, List.take_append_of_le_length hk]

theorem Knows.isSome_find?
    {round : SourceRound} {units : List CompilationUnit} (h : round.Knows units) :
    ∀ unit ∈ units, (round.packages.find? (unit.package.getD "")).isSome := by
  intro unit hunit
  obtain ⟨k, hk⟩ := List.getElem?_of_mem hunit
  exact Option.isSome_of_eq_some (h.entered k unit hk).1

theorem Knows.size_units
    {round : SourceRound} {units : List CompilationUnit} (h : round.Knows units) :
    round.units.size = units.length := by
  rw [← Array.length_toList, h.units_eq, List.length_map]

/-- What is declared stays as it is when the package of one more unit is opened and its annotations are
noted. -/
theorem getElem?_withPackageOf
    {round : SourceRound} {units : List CompilationUnit} {unit : CompilationUnit}
    (hpackages : (round.openUnit unit).1.PackagesMatch units) {n : Nat} {found : SourceElement}
    (hfound : round.elements[n]? = some found) (howner : found.element.enclosing ≠ none) :
    (round.withPackageOf unit).elements[n]? = some found := by
  have hopened := keeps_openUnit round unit n found hfound
  have hpackage := (find?_openUnit round unit _).trans (if_pos rfl)
  obtain ⟨package, hget, helement, -⟩ := hpackages _ _ hpackage
  have hne : n ≠ (round.openUnit unit).2.index := by
    rintro rfl
    obtain rfl := Option.some.inj (hopened.symm.trans hget)
    rw [helement] at howner
    exact howner rfl
  exact (getElem?_annotate_of_ne _ _ hne).trans hopened

/-- A round that knows some units knows one more when it is added. -/
theorem Knows.addUnit
    {units : List CompilationUnit} (h : (ofUnits units).Knows units) (unit : CompilationUnit)
    (hsize : ((ofUnits units).addUnit unit).1.elements.size < ElementId.count) :
    ((ofUnits units).addUnit unit).1.Knows (units ++ [unit]) := by
  rw [size_addUnit] at hsize
  have hopened := h.packages.openUnit unit (by omega) h.isSome_find?
  have hpackage := (find?_openUnit (ofUnits units) unit _).trans (if_pos rfl)
  have hmatch : ((ofUnits units).withPackageOf unit).PackagesMatch (units ++ [unit]) := by
    rw [withPackageOf, h.size_units]
    exact hopened.annotate hpackage
  obtain ⟨found, hfound, helement, -⟩ := hmatch _ _ hpackage
  have hname : found.element.qualifiedName = unit.package.getD "" := by rw [helement]
  obtain ⟨hkeeps, hentered⟩ := insertAll_entered hfound hname units.length unit.path
    (unit.package.getD "") [] unit.types (by
      rw [size_withPackageOf]
      exact Nat.le_of_lt hsize)
  obtain ⟨roots, hadd⟩ := exists_addUnit_eq (ofUnits units) unit
  rw [h.size_units] at hadd
  have hlast : ((ofUnits units).withPackageOf unit).Keeps ((ofUnits units).addUnit unit).1 := by
    rw [hadd]
    exact hkeeps
  have hnames : ((ofUnits units).addUnit unit).1.packages =
      ((ofUnits units).openUnit unit).1.packages := packages_addUnit _ _
  refine ⟨?_, ?_, ?_⟩
  · have hunits : ((ofUnits units).addUnit unit).1.units =
        (ofUnits units).units.push unit.context := by
      refine addUnit_induction (P := fun round => round.units = _) (units_openUnit _ _) ?_ ?_ ?_
      · exact fun _ _ _ hround => hround
      · exact fun _ _ _ hround => hround
      · exact fun _ _ _ hround => hround
    rw [hunits, Array.toList_push, h.units_eq, List.map_append, List.map_singleton]
  · intro name id hid
    obtain ⟨known, hget, hspec⟩ := hmatch name id (hnames ▸ hid)
    exact ⟨known, hlast.get? hget, hspec⟩
  · intro k other hother
    rw [hnames]
    rcases getElem?_concat_eq_some_iff.1 hother with hother | ⟨rfl, rfl⟩
    · have hlt := (List.getElem?_eq_some_iff.1 hother).1
      obtain ⟨hown, htops⟩ := h.entered k other hother
      rw [packageAt_concat (Nat.le_of_lt hlt), typesAt_concat (Nat.le_of_lt hlt)]
      refine ⟨find?_openUnit_of_eq_some hown unit, fun top htop => ⟨?_, (htops top htop).2⟩⟩
      exact (htops top htop).1.of_declared fun n old hold howner =>
        hlast _ _ (getElem?_withPackageOf hopened hold howner)
    · have hpackageAt : packageAt (units ++ [unit]) units.length unit =
          ((ofUnits units).openUnit unit).2 := by
        rw [packageAt, List.take_left]
      have htypesAt : typesAt (units ++ [unit]) units.length unit =
          placeAll (unit.package.getD "") [] ((ofUnits units).withPackageOf unit).elements.size
            unit.types := by
        rw [typesAt, List.take_left, size_withPackageOf]
      have hframed : ∀ (round : SourceRound) roots isOver,
          round.Keeps (round.framed roots isOver) := fun _ _ _ _ _ hkept => hkept
      have hbefore := (Array.getElem?_eq_some_iff.1 hfound).1
      rw [hpackageAt, htypesAt]
      refine ⟨hpackage, fun top htop => ⟨?_, ?_⟩⟩
      · rw [hadd]
        exact (hentered top htop).of_keeps (hframed _ _ _)
      · exact Nat.lt_of_lt_of_le hbefore (le_index_of_mem_placeAll htop)

/-- The round of some units knows them. -/
theorem knows_ofUnits
    (units : List CompilationUnit) (hsize : (ofUnits units).elements.size < ElementId.count) :
    (ofUnits units).Knows units := by
  induction units using List.reverseRecOn with
  | nil =>
      refine ⟨rfl, ?_, ?_⟩
      · intro name id hname
        cases hname
      · intro k unit hunit
        cases hunit
  | append_singleton units unit ih =>
      rw [ofUnits_concat] at hsize ⊢
      have hopenSize := size_le_size_openUnit (ofUnits units) unit
      have haddSize := size_addUnit (ofUnits units) unit
      exact (ih (by omega)).addUnit unit hsize

end SourceRound

end ComponentMarkers.Source
