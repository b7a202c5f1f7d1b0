import ComponentMarkers.Proofs.Scan.Listing
import ComponentMarkers.Proofs.Scan.Walks
import ComponentMarkers.Proofs.Source.Nesting
import ComponentMarkers.Source.Load
import Mathlib.Data.List.Dedup
import Mathlib.Data.List.Perm.Basic

/-!
# How often a file is loaded

Repetitions are told by the spelling of paths and not by the files they lead to.  So a file is listed once
for each of the spellings in which it is reached, and each time its unit is loaded.  Below roots that take
no step up, in a tree without links, the names of a file are spelled in one way only; what is left to
differ is the begin, and a file is loaded once if all the roots that reach it begin alike.
-/

namespace ComponentMarkers

open Component Scan

/-! ## What leads to a place -/

namespace FileTree

/-- The path leads to the place. -/
def isPathTo (tree : FileTree) (place : Place) (path : Path) : Bool :=
  tree.resolve? path = .ok place

/-- The text of what is at a place, if it is a file that can be read as one. -/
def textAt? (tree : FileTree) (place : Place) : Option String :=
  match tree.node? place with
  | some (.file content) => Text.decode? content
  | _ => none

end FileTree

namespace Scan

/-- The root has a source below it that is at the place. -/
def reaches (tree : FileTree) (place : Place) (root : Path) : Bool :=
  (sourcesBelow tree root).any (tree.isPathTo place)

/-- The different ways in which the place is spelled below some roots. -/
def spellingsOf (tree : FileTree) (roots : List Path) (place : Place) : List (List Component) :=
  (((roots.flatMap (sourcesBelow tree)).filter (tree.isPathTo place)).map Path.components).dedup

/-- The different ways in which the roots begin that reach the place. -/
def beginsTo (tree : FileTree) (roots : List Path) (place : Place) : List (List Component) :=
  ((roots.filter (reaches tree place)).map Path.lead).dedup

end Scan

/-- What has different keys is as many things as there are keys. -/
theorem length_eq_length_dedup_of_keys
    {α β : Type} [DecidableEq β] {key : α → β} {listed : List α} {keys : List β}
    (hdistinct : listed.Pairwise fun first second => key first ≠ key second)
    (hkeys : ∀ k, k ∈ listed.map key ↔ k ∈ keys) : listed.length = keys.dedup.length := by
  have hnodup : (listed.map key).Nodup := List.pairwise_map.2 hdistinct
  have hperm : (listed.map key).Perm keys.dedup := by
    rw [List.perm_ext_iff_of_nodup hnodup keys.nodup_dedup]
    intro k
    rw [hkeys, List.mem_dedup]
  rw [← hperm.length_eq, List.length_map]

namespace Scan

variable {tree : FileTree} {roots sources : List Path} {place : Place}

/-- The spelling that is listed for a path leads to the same place. -/
theorem Lists.exists_isPathTo
    (h : Lists tree roots sources) {root : Path} (hroot : root ∈ roots) {path : Path}
    (hpath : path ∈ sourcesBelow tree root) (hplace : tree.isPathTo place path) :
    ∃ listed ∈ sources, tree.isPathTo place listed ∧ listed.components = path.components := by
  obtain ⟨listed, hlisted, hsame⟩ := h.covers root hroot path hpath
  obtain ⟨_, -, hreached⟩ := h.reached listed hlisted
  obtain ⟨other, hother⟩ :=
    FileTree.exists_resolve?_of_isFile (isFile_of_mem_sourcesBelow hreached)
  obtain rfl := FileTree.resolve?_eq_of_same hsame (of_decide_eq_true hplace) hother
  exact ⟨listed, hlisted, decide_eq_true hother, (Path.same_iff.1 hsame).symm⟩

/-- A place is listed as often as it is spelled differently below the roots. -/
theorem Lists.countP_isPathTo_eq (h : Lists tree roots sources) (place : Place) :
    sources.countP (tree.isPathTo place) = (spellingsOf tree roots place).length := by
  rw [List.countP_eq_length_filter]
  apply length_eq_length_dedup_of_keys
  · exact h.ascending.pairwise_components_ne.filter _
  · intro steps
    simp only [List.mem_map, List.mem_filter, List.mem_flatMap]
    constructor
    · rintro ⟨path, ⟨hpath, hplace⟩, rfl⟩
      exact ⟨path, ⟨h.reached path hpath, hplace⟩, rfl⟩
    · rintro ⟨path, ⟨⟨root, hroot, hpath⟩, hplace⟩, rfl⟩
      obtain ⟨listed, hlisted, hlistedPlace, hsame⟩ := h.exists_isPathTo hroot hpath hplace
      exact ⟨listed, ⟨hlisted, hlistedPlace⟩, hsame⟩

/-- In a tree without links, and below roots that take no step up, it is listed as often as the roots that
reach it begin differently. -/
theorem Lists.countP_isPathTo_eq_begins
    (h : Lists tree roots sources) (htree : tree.HasNames) (hlinks : tree.IsLinkFree)
    (hroots : ∀ root ∈ roots, .parent ∉ root.components) (place : Place) :
    sources.countP (tree.isPathTo place) = (beginsTo tree roots place).length := by
  have hspelled : ∀ path ∈ sources, tree.isPathTo place path →
      .parent ∉ path.components ∧ path.placeFrom tree.workingDirectory = place := by
    intro path hpath hplace
    obtain ⟨root, hroot, hreached⟩ := h.reached path hpath
    have hparent := (extends_of_mem_sourcesBelow htree hreached).parent_not_mem (hroots root hroot)
    exact ⟨hparent, (hlinks.eq_placeFrom hparent (of_decide_eq_true hplace)).symm⟩
  rw [List.countP_eq_length_filter]
  apply length_eq_length_dedup_of_keys
  · apply (h.ascending.pairwise_components_ne.filter _).imp_of_mem
    intro path next hpath hnext hne hlead
    obtain ⟨hpath, hplace⟩ := List.mem_filter.1 hpath
    obtain ⟨hnext, hnextPlace⟩ := List.mem_filter.1 hnext
    obtain ⟨hparent, hplace⟩ := hspelled path hpath hplace
    obtain ⟨hnextParent, hnextPlace⟩ := hspelled next hnext hnextPlace
    exact hne (Path.components_eq_of_placeFrom_eq hlead hparent hnextParent
      (hplace.trans hnextPlace.symm))
  · intro begin
    simp only [List.mem_map, List.mem_filter]
    constructor
    · rintro ⟨path, ⟨hpath, hplace⟩, rfl⟩
      obtain ⟨root, hroot, hreached⟩ := h.reached path hpath
      refine ⟨root, ⟨hroot, List.any_eq_true.2 ⟨path, hreached, hplace⟩⟩, ?_⟩
      exact (extends_of_mem_sourcesBelow htree hreached).lead_eq.symm
    · rintro ⟨root, ⟨hroot, hreaches⟩, rfl⟩
      obtain ⟨path, hpath, hplace⟩ := List.any_eq_true.1 hreaches
      obtain ⟨listed, hlisted, hlistedPlace, hsame⟩ := h.exists_isPathTo hroot hpath hplace
      refine ⟨listed, ⟨hlisted, hlistedPlace⟩, ?_⟩
      rw [Path.lead_eq_filter, hsame, ← Path.lead_eq_filter]
      exact (extends_of_mem_sourcesBelow htree hpath).lead_eq

end Scan

namespace Source

/-! ## Units -/

/-- The units in those of the files that can be read. -/
def unitsIn (tree : FileTree) (files : List Path) : List CompilationUnit :=
  files.filterMap fun path =>
    (readText tree path).toOption.map fun text => readUnit text (some path)

theorem mem_unitsIn (tree : FileTree) (files : List Path) {unit : CompilationUnit} :
    unit ∈ unitsIn tree files ↔ ∃ file ∈ files, ∃ text, readText tree file = .ok text ∧
      unit = readUnit text (some file) := by
  rw [unitsIn, List.mem_filterMap]
  apply exists_congr
  intro file
  cases readText tree file with
  | error reason => simp [Except.toOption]
  | ok text => simp [Except.toOption, eq_comm]

/-- Loading files adds their units. -/
theorem fst_foldl_loadFile
    (tree : FileTree) (files : List Path) (state : SourceRound × List LogEvent) :
    (files.foldl (loadFile tree) state).1 =
      (unitsIn tree files).foldl (fun round unit => (round.addUnit unit).1) state.1 := by
  induction files generalizing state with
  | nil => rfl
  | cons file rest ih =>
      rw [List.foldl_cons, ih, unitsIn, unitsIn, List.filterMap_cons, loadFile]
      cases readText tree file with
      | error reason => rfl
      | ok text => rfl

theorem exists_loadRound_eq
    {tree : FileTree} {roots sources : List Path}
    (hsources : collectSources tree roots = .ok sources) :
    ∃ log, loadRound tree roots = .ok (SourceRound.ofUnits (unitsIn tree sources), log) := by
  have hround := fst_foldl_loadFile tree sources (.empty, [])
  rw [loadRound, hsources]
  dsimp only
  rw [hround]
  exact ⟨_, rfl⟩

theorem path_unitOfItems (path : Option Path) (levels : Nat) (items : List Item) :
    (unitOfItems path levels items).path = path := by
  rw [unitOfItems]
  generalize hunit : (⟨path, none, [], [], []⟩ : CompilationUnit) = unit
  have hpath : unit.path = path := by rw [← hunit]
  clear hunit
  induction items generalizing unit with
  | nil => exact hpath
  | cons item rest ih =>
      rw [List.foldl_cons]
      apply ih
      cases item <;> exact hpath

/-- A file is read as what is at its place. -/
theorem toOption_readText
    {tree : FileTree} {path : Path} {place : Place} (h : tree.resolve? path = .ok place) :
    (readText tree path).toOption = tree.textAt? place := by
  rw [readText, FileTree.readFile, h, FileTree.textAt?]
  dsimp only
  rcases tree.node? place with _ | (_ | content | target)
  · rfl
  · rfl
  · dsimp only
    cases Text.decode? content <;> rfl
  · rfl

/-- A file that can be read is loaded as often as it is listed, and one that cannot never. -/
theorem countP_unitsIn (tree : FileTree) (files : List Path) (place : Place) :
    (unitsIn tree files).countP (fun unit => unit.path.any (tree.isPathTo place)) =
      if (tree.textAt? place).isSome then files.countP (tree.isPathTo place) else 0 := by
  rw [unitsIn, List.countP_filterMap]
  have hfile : ∀ path, (((readText tree path).toOption.map fun text => readUnit text (some path)).map
      fun unit => unit.path.any (tree.isPathTo place)).getD false =
        (tree.isPathTo place path && (tree.textAt? place).isSome) := by
    intro path
    have hpath : ∀ text, (readUnit text (some path)).path.any (tree.isPathTo place) =
        tree.isPathTo place path := by
      intro text
      rw [readUnit, path_unitOfItems]
      rfl
    by_cases hplace : tree.isPathTo place path
    · rw [toOption_readText (of_decide_eq_true hplace)]
      cases tree.textAt? place with
      | none => rw [hplace]; rfl
      | some text => simp [hpath, hplace]
    · cases (readText tree path).toOption with
      | none => simp [hplace]
      | some text => simp [hpath, hplace]
  simp only [hfile]
  by_cases htext : (tree.textAt? place).isSome
  · simp [htext]
  · simp [htext]

/-- Whatever the roots are, as long as there is something at each of them, their sources are listed strictly
ascending, one spelling of each path that is reached, and the units of those that can be read are loaded.
So a file is listed, and loaded if it can be read, as often as it is spelled differently below the roots.
In a tree without links, and below roots that take no step up, that is as often as the roots that reach it
begin differently: with a name, with a step that stays where it is, or at the root of the file system. -/
theorem loads_once_per_spelling
    (tree : FileTree) (roots : List Path) (hroots : ∀ root ∈ roots, tree.isPresent root) :
    ∃ sources log, collectSources tree roots = .ok sources ∧
      loadRound tree roots = .ok (SourceRound.ofUnits (unitsIn tree sources), log) ∧
      Lists tree roots sources ∧
      (∀ place,
        sources.countP (tree.isPathTo place) = (spellingsOf tree roots place).length ∧
        (unitsIn tree sources).countP (fun unit => unit.path.any (tree.isPathTo place)) =
          if (tree.textAt? place).isSome then (spellingsOf tree roots place).length else 0) ∧
      (tree.HasNames → tree.IsLinkFree → (∀ root ∈ roots, .parent ∉ root.components) →
        ∀ place, (spellingsOf tree roots place).length = (beginsTo tree roots place).length) := by
  obtain ⟨sources, hsources, hlists⟩ := exists_lists_of_isPresent hroots
  obtain ⟨log, hload⟩ := exists_loadRound_eq hsources
  refine ⟨sources, log, hsources, hload, hlists, ?_, ?_⟩
  · intro place
    have hcount := hlists.countP_isPathTo_eq place
    refine ⟨hcount, ?_⟩
    rw [countP_unitsIn, hcount]
  · intro htree hlinks hparents place
    rw [← hlists.countP_isPathTo_eq place]
    exact hlists.countP_isPathTo_eq_begins htree hlinks hparents place

/-- A source in a directory of a directory of sources. -/
def nestedTree : FileTree where
  entries := [(["work"], .directory), (["work", "src"], .directory),
    (["work", "src", "b"], .directory),
    (["work", "src", "b", "B.java"], .file (Text.encode "class B \x7b\x7d"))]
  workingDirectory := ["work"]

theorem nestedTree_hasNames : nestedTree.HasNames := by
  intro entry hentry name hname
  have hplain : name ≠ "" ∧ name ≠ "." ∧ name ≠ ".." ∧ '/' ∉ name.toList := by
    revert name
    revert entry
    decide
  obtain ⟨hempty, hdot, hdots, hslash⟩ := hplain
  exact ⟨hempty, hdot, hdots, hslash⟩

theorem nestedTree_isLinkFree : nestedTree.IsLinkFree := by
  apply FileTree.isLinkFree_of_forall_mem
  simp [nestedTree]

/-- Below roots that are repeated and lie in one another, but begin alike, the source is loaded once. -/
theorem loads_once_per_spelling_nestedTree :
    (∀ root ∈ [(⟨"src"⟩ : Path), ⟨"src//b"⟩, ⟨"src/."⟩], nestedTree.isPresent root) ∧
      ∃ sources log, collectSources nestedTree [⟨"src"⟩, ⟨"src//b"⟩, ⟨"src/."⟩] = .ok sources ∧
        loadRound nestedTree [⟨"src"⟩, ⟨"src//b"⟩, ⟨"src/."⟩] =
          .ok (SourceRound.ofUnits (unitsIn nestedTree sources), log) ∧
        sources.countP (nestedTree.isPathTo ["work", "src", "b", "B.java"]) = 1 ∧
        (unitsIn nestedTree sources).countP (fun unit =>
          unit.path.any (nestedTree.isPathTo ["work", "src", "b", "B.java"])) = 1 := by
  have hroots : ∀ root ∈ [(⟨"src"⟩ : Path), ⟨"src//b"⟩, ⟨"src/."⟩], nestedTree.isPresent root := by
    decide +kernel
  obtain ⟨sources, log, hsources, hload, -, hcounts, hbegins⟩ :=
    loads_once_per_spelling nestedTree _ hroots
  have hone := hbegins nestedTree_hasNames nestedTree_isLinkFree (by decide +kernel)
    ["work", "src", "b", "B.java"]
  have hbegin : (beginsTo nestedTree [⟨"src"⟩, ⟨"src//b"⟩, ⟨"src/."⟩]
      ["work", "src", "b", "B.java"]).length = 1 := by
    decide +kernel
  have htext : (nestedTree.textAt? ["work", "src", "b", "B.java"]).isSome := by
    decide +kernel
  obtain ⟨hlisted, hloaded⟩ := hcounts ["work", "src", "b", "B.java"]
  rw [if_pos htext] at hloaded
  rw [hone, hbegin] at hlisted hloaded
  exact ⟨hroots, sources, log, hsources, hload, hlisted, hloaded⟩

/-- It is not so that every file is listed once: the directory with the source may be given as a root once
with a step before it that stays where it is and once without. -/
theorem not_listed_once :
    ¬ ∀ (tree : FileTree) (roots : List Path), tree.HasNames → tree.IsLinkFree →
      (∀ root ∈ roots, tree.isPresent root) →
        ∃ sources, collectSources tree roots = .ok sources ∧
          ∀ place, (∃ root ∈ roots, reaches tree place root) →
            sources.countP (tree.isPathTo place) = 1 := by
  intro h
  have hroots : ∀ root ∈ [(⟨"src"⟩ : Path), ⟨"./src"⟩], nestedTree.isPresent root := by
    decide +kernel
  obtain ⟨sources, hsources, honce⟩ := h nestedTree [⟨"src"⟩, ⟨"./src"⟩] nestedTree_hasNames
    nestedTree_isLinkFree hroots
  obtain ⟨same, hsame, hlists⟩ := exists_lists_of_isPresent hroots
  obtain rfl := Except.ok.inj (hsources.symm.trans hsame)
  have htwo : (spellingsOf nestedTree [⟨"src"⟩, ⟨"./src"⟩] ["work", "src", "b", "B.java"]).length =
      2 := by
    decide +kernel
  have hone := honce ["work", "src", "b", "B.java"] (by decide +kernel)
  rw [hlists.countP_isPathTo_eq, htwo] at hone
  cases hone

end Source

end ComponentMarkers
