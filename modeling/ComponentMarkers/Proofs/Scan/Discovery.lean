import ComponentMarkers.Proofs.FileSystem.Descents
import ComponentMarkers.Proofs.Scan.Relevance
import Mathlib.Data.List.Sort

/-!
# Which sources are found

What is listed for some roots is put together from what is listed for each of them, and depends neither
on the order of the roots nor on how often one of them is given.  Where no rule of an ignore file says
anything, what is listed for one root is told without the walk: the files at and below the root that
matter for it.  The names on the way to a file are looked at one by one during the walk, and all at once
when it is asked whether the file matters, with the same answer.

The exception is a root that is spelled `-`.  A walk takes it for the input of the program, even where it
exists as a directory.
-/

namespace ComponentMarkers

open Component

/-- Nothing at or below a place is a link. -/
def FileTree.HasNoLinksBelow (tree : FileTree) (place : Place) : Prop :=
  ∀ names target, tree.node? (place ++ names) ≠ some (.link target)

namespace Scan

/-! ## The list for some roots -/

section Lists

variable {tree : FileTree} {roots others sources otherSources : List Path}

/-- What is listed, spellings of one path taken for one path, is what is reached from the roots. -/
theorem Lists.mem_map_components_iff (h : Lists tree roots sources) (steps : List Component) :
    steps ∈ sources.map Path.components ↔
      ∃ root ∈ roots, ∃ path ∈ sourcesBelow tree root, path.components = steps := by
  rw [List.mem_map]
  constructor
  · rintro ⟨path, hpath, rfl⟩
    obtain ⟨root, hroot, hreached⟩ := h.reached path hpath
    exact ⟨root, hroot, path, hreached, rfl⟩
  · rintro ⟨root, hroot, path, hpath, rfl⟩
    obtain ⟨listed, hlisted, hsame⟩ := h.covers root hroot path hpath
    exact ⟨listed, hlisted, (Path.same_iff.1 hsame).symm⟩

theorem IsAscending.pairwise_map_components (h : IsAscending sources) :
    (sources.map Path.components).Pairwise fun steps later =>
      Path.compareComponents steps later = .lt :=
  List.pairwise_map.2 h

/-- Strictly ascending lists of the same paths are spelled alike up to the spelling of each path. -/
theorem IsAscending.map_components_eq
    (h : IsAscending sources) (hother : IsAscending otherSources)
    (hmem : ∀ steps, steps ∈ sources.map Path.components ↔ steps ∈ otherSources.map Path.components) :
    sources.map Path.components = otherSources.map Path.components := by
  have hirrefl : Std.Irrefl fun steps later => Path.compareComponents steps later = .lt := by
    refine ⟨fun steps hlt => ?_⟩
    rw [(Path.compareComponents_eq_iff steps steps).2 rfl] at hlt
    exact absurd hlt (by decide)
  have hantisymm : Std.Antisymm fun steps later => Path.compareComponents steps later = .lt :=
    ⟨fun steps later hlt hgt =>
      absurd (Std.TransCmp.lt_trans hlt hgt) (hirrefl.irrefl steps)⟩
  exact List.Pairwise.eq_of_mem_iff h.pairwise_map_components hother.pairwise_map_components hmem

/-- Roots given in another order, or more often, make no difference. -/
theorem Lists.map_components_eq
    (h : Lists tree roots sources) (hother : Lists tree others otherSources)
    (hroots : ∀ root, root ∈ others ↔ root ∈ roots) :
    otherSources.map Path.components = sources.map Path.components := by
  apply hother.ascending.map_components_eq h.ascending
  intro steps
  rw [hother.mem_map_components_iff, h.mem_map_components_iff]
  exact exists_congr fun root => and_congr_left' (hroots root)

/-- The first root that is missing is named, whatever the others are. -/
theorem collectSources_of_missing
    {before after : List Path} {missing : Path} (hbefore : ∀ root ∈ before, tree.isPresent root)
    (hmissing : ¬ tree.isPresent missing) :
    collectSources tree (before ++ missing :: after) = .error ⟨missing⟩ := by
  have hfound : ((before ++ missing :: after).find? fun root => !tree.isPresent root) =
      some missing := by
    rw [List.find?_append, List.find?_eq_none.2 (by simpa using hbefore), Option.none_or,
      List.find?_cons_of_pos (by simpa using hmissing)]
  rw [collectSources, hfound]

end Lists

/-! ## The way down where no rule says anything -/

namespace Surroundings

/-- The rules that apply in the directory that names lead to from one that is entered. -/
def enterAll (tree : FileTree) : Surroundings → Path → List String → Surroundings
  | surroundings, directory, [] => surroundings.enter tree directory
  | surroundings, directory, name :: rest =>
    enterAll tree (surroundings.enter tree directory) (directory.join ⟨name⟩) rest

theorem layers_enterAll {P : RuleLayer → Prop} {tree : FileTree} {surroundings : Surroundings}
    (htree : ∀ directory, P (layerOf tree false directory))
    (h : ∀ layer ∈ surroundings.layers, P layer) (directory : Path) (names : List String) :
    ∀ layer ∈ (surroundings.enterAll tree directory names).layers, P layer := by
  induction names generalizing surroundings directory with
  | nil => exact List.forall_mem_cons.2 ⟨htree directory, h⟩
  | cons name rest ih => exact ih (List.forall_mem_cons.2 ⟨htree directory, h⟩) _

@[simp]
theorem user_enterAll (tree : FileTree) (surroundings : Surroundings) (directory : Path)
    (names : List String) : (surroundings.enterAll tree directory names).user = surroundings.user := by
  induction names generalizing surroundings directory with
  | nil => rfl
  | cons name rest ih => exact ih _ _

end Surroundings

/-- No rule says anything about what is below a directory. -/
def IsUnruled (tree : FileTree) (surroundings : Surroundings) (directory : Path) (place : Place) :
    Prop :=
  ∀ names name, tree.node? (place ++ (names ++ [name])) ≠ none →
    (surroundings.enterAll tree directory names).verdict (directory.descend (names ++ [name]))
      (tree.isDirectoryAt (place ++ (names ++ [name]))) = .undecided

section Walking

variable {tree : FileTree} {surroundings : Surroundings} {directory : Path} {place : Place}
  {name : String}

theorem IsUnruled.verdict
    (h : IsUnruled tree surroundings directory place) (hnode : tree.node? (place ++ [name]) ≠ none) :
    (surroundings.enter tree directory).verdict (directory.join ⟨name⟩)
      (tree.isDirectoryAt (place ++ [name])) = .undecided :=
  h [] name hnode

theorem IsUnruled.enter (h : IsUnruled tree surroundings directory place) (name : String) :
    IsUnruled tree (surroundings.enter tree directory) (directory.join ⟨name⟩) (place ++ [name]) := by
  intro names last hnode
  rw [List.append_assoc, List.singleton_append, ← List.cons_append] at hnode ⊢
  exact h (name :: names) last hnode

/-- Where no file of the tree has a rule and the user has none, no rule says anything. -/
theorem isUnruled_of_forall_mem
    (h : ∀ place content, (place, .file content) ∈ tree.entries →
      (IgnoreRules.ofBytes ⟨""⟩ content).rules = []) (huser : (userRules tree).rules = [])
    (root : Path) (place : Place) : IsUnruled tree (.above tree place) root place := by
  have hlayer : ∀ isOutside directory, (layerOf tree isOutside directory).rules = [] := by
    intro isOutside directory
    refine List.eq_nil_iff_forall_not_mem.2 (forall_rules_of_forall_mem ?_ isOutside directory)
    intro other content hmem
    simp [h other content hmem]
  intro names name _
  apply Surroundings.verdict_eq_undecided
  · refine Surroundings.layers_enterAll (hlayer false) (fun layer hmem => ?_) root names
    obtain ⟨outside, -, rfl⟩ := List.mem_map.1 (List.mem_reverse.1 hmem)
    exact hlayer true outside
  · rw [Surroundings.user_enterAll]
    exact huser

theorem mem_namesIn_iff (tree : FileTree) (place : Place) (name : String) :
    name ∈ tree.namesIn place ↔ tree.node? (place ++ [name]) ≠ none := by
  rw [FileTree.namesIn, List.mem_mergeSort, List.mem_filterMap, tree.node?_ne_none_iff (by simp)]
  refine exists_congr fun entry => and_congr_right fun _ => ?_
  constructor
  · intro hlast
    split_ifs at hlast with hplace
    rw [← hplace]
    exact (List.dropLast_append_getLast? name hlast).symm
  · intro hplace
    rw [hplace, List.dropLast_concat, if_pos rfl, List.getLast?_concat]

/-- Without a verdict what is left out is what is hidden or skipped. -/
theorem isLeftOut_of_undecided {path : Path} {isDirectory : Bool}
    (h : surroundings.verdict path isDirectory = .undecided) :
    isLeftOut surroundings path name isDirectory = isSkippedStep (.normal name) := by
  rw [isLeftOut, h, isSkippedStep, Bool.or_comm]

/-- What a walk reaches below a directory: everything but directories, unless a name on the way is hidden
or skipped. -/
theorem mem_walkInto_iff
    (htree : tree.IsSound) (h : IsUnruled tree surroundings directory place) (bound : Nat) (path : Path) :
    path ∈ walkInto tree bound surroundings directory place ↔
      ∃ names : List String, names ≠ [] ∧ names.length ≤ bound ∧
        (∀ name ∈ names, ¬ isSkippedStep (.normal name)) ∧ tree.node? (place ++ names) ≠ none ∧
        ¬ tree.isDirectoryAt (place ++ names) ∧ path = directory.descend names := by
  induction bound generalizing surroundings directory place with
  | zero =>
      simp only [walkInto, List.not_mem_nil, false_iff, not_exists]
      rintro names ⟨hne, hlength, -⟩
      exact hne (List.length_eq_zero_iff.1 (Nat.le_zero.1 hlength))
  | succ bound ih =>
      rw [walkInto, List.mem_flatMap]
      constructor
      · rintro ⟨name, hname, hpath⟩
        have hnode := (mem_namesIn_iff tree place name).1 hname
        dsimp only at hpath
        rw [isLeftOut_of_undecided (h.verdict hnode)] at hpath
        split_ifs at hpath with hskipped hdirectory
        · exact absurd hpath List.not_mem_nil
        · obtain ⟨names, -, hlength, hnames, hlast, hfile, rfl⟩ := (ih (h.enter name)).1 hpath
          rw [List.append_assoc, List.singleton_append] at hlast hfile
          exact ⟨name :: names, List.cons_ne_nil _ _, Nat.succ_le_succ hlength,
            List.forall_mem_cons.2 ⟨hskipped, hnames⟩, hlast, hfile, (Path.descend_cons ..).symm⟩
        · exact ⟨[name], List.cons_ne_nil _ _, Nat.succ_le_succ (Nat.zero_le _),
            List.forall_mem_singleton.2 hskipped, hnode, hdirectory, List.mem_singleton.1 hpath⟩
      · rintro ⟨names, hne, hlength, hnames, hnode, hfile, rfl⟩
        obtain ⟨name, rest, rfl⟩ := List.exists_cons_of_ne_nil hne
        obtain ⟨hname, hrest⟩ := List.forall_mem_cons.1 hnames
        rw [← List.singleton_append, ← List.append_assoc] at hnode hfile
        -- On the way to something the first name stands for a directory, unless it is the last one.
        have hfirst : tree.node? (place ++ [name]) ≠ none := by
          by_cases hnil : rest = []
          · rwa [hnil, List.append_nil] at hnode
          · simp [htree.directory_of_append hnode hnil]
        refine ⟨name, (mem_namesIn_iff tree place name).2 hfirst, ?_⟩
        dsimp only
        rw [isLeftOut_of_undecided (h.verdict hfirst), if_neg hname]
        by_cases hnil : rest = []
        · rw [hnil, List.append_nil] at hfile
          rw [if_neg hfile, hnil]
          exact List.mem_singleton_self _
        · have hdirectory := FileTree.isDirectoryAt_iff.2 (htree.directory_of_append hnode hnil)
          rw [if_pos hdirectory, ih (h.enter name)]
          exact ⟨rest, hnil, Nat.le_of_succ_le_succ hlength, hrest, hnode, hfile,
            Path.descend_cons ..⟩

end Walking

/-! ## The list for one root -/

section Root

variable {tree : FileTree} {root : Path} {place : Place}

/-- What a walk reaches at and below a root. -/
theorem mem_walk_iff
    (htree : tree.IsSound) (hplace : tree.resolve? root = .ok place) (hroot : ¬ root.same ⟨"-"⟩)
    (hrules : IsUnruled tree (.above tree place) root place) (path : Path) :
    path ∈ walk tree root ↔
      ∃ names : List String, (∀ name ∈ names, ¬ isSkippedStep (.normal name)) ∧
        tree.node? (place ++ names) ≠ none ∧ ¬ tree.isDirectoryAt (place ++ names) ∧
        path = root.descend names := by
  rw [walk, if_neg hroot, hplace]
  dsimp only
  by_cases hdirectory : tree.isDirectoryAt place
  · rw [if_pos hdirectory, mem_walkInto_iff htree hrules]
    refine exists_congr fun names => ⟨fun h => h.2.2, fun h => ⟨?_, ?_, h⟩⟩
    · rintro rfl
      exact h.2.2.1 (by rwa [List.append_nil])
    · exact (htree.length_le_of_node? h.2.1).trans (Nat.le_succ _)
  · rw [if_neg hdirectory, List.mem_singleton]
    constructor
    · rintro rfl
      refine ⟨[], by simp, ?_, by rwa [List.append_nil], rfl⟩
      rw [List.append_nil]
      exact (FileTree.of_resolve? hplace).2
    · rintro ⟨names, -, hnode, -, rfl⟩
      by_cases hne : names = []
      · rw [hne]
        rfl
      · exact absurd (FileTree.isDirectoryAt_iff.2 (htree.directory_of_append hnode hne)) hdirectory

/-- The sources below a root that no rule touches: the files at and below it that matter for it. -/
theorem mem_sourcesBelow_iff
    (htree : tree.IsStorable) (hplace : tree.resolve? root = .ok place)
    (hlinks : tree.HasNoLinksBelow place) (hrules : IsUnruled tree (.above tree place) root place)
    (hroot : ¬ root.same ⟨"-"⟩) (path : Path) :
    path ∈ sourcesBelow tree root ↔
      ∃ names content, tree.node? (place ++ names) = some (.file content) ∧
        path = root.descend names ∧ tree.isFile path ∧ isRelevant root path := by
  rw [sourcesBelow, List.mem_filter, mem_walk_iff htree.toIsSound hplace hroot hrules,
    Bool.and_eq_true]
  have hrelevant : ∀ names, tree.node? (place ++ names) ≠ none →
      (isRelevant root (root.descend names) ↔
        (∀ name ∈ names, ¬ isSkippedStep (.normal name)) ∧ isSourceFile (root.descend names)) :=
    fun names hnode => isRelevant_iff_of_components_eq
      (root.components_descend (htree.forall_isName hnode))
  constructor
  · rintro ⟨⟨names, hnames, hnode, hfile, rfl⟩, hisFile, hsource⟩
    rcases hkind : tree.node? (place ++ names) with _ | (_ | content | target)
    · exact absurd hkind hnode
    · exact absurd (FileTree.isDirectoryAt_iff.2 hkind) hfile
    · exact ⟨names, content, hkind, rfl, hisFile, (hrelevant names hnode).2 ⟨hnames, hsource⟩⟩
    · exact absurd hkind (hlinks names target)
  · rintro ⟨names, content, hkind, rfl, hisFile, hmatters⟩
    have hnode : tree.node? (place ++ names) ≠ none := by simp [hkind]
    obtain ⟨hnames, hsource⟩ := (hrelevant names hnode).1 hmatters
    refine ⟨⟨names, hnames, hnode, ?_, rfl⟩, hisFile, hsource⟩
    rw [FileTree.isDirectoryAt_iff, hkind]
    simp

/-- What is listed for a single root is what is below it, each path in its own spelling. -/
theorem Lists.mem_iff_of_singleton
    {sources : List Path} (h : Lists tree [root] sources)
    (hspelling : ∀ path ∈ sourcesBelow tree root, ∀ other ∈ sourcesBelow tree root,
      path.same other → path = other) (path : Path) :
    path ∈ sources ↔ path ∈ sourcesBelow tree root := by
  have hreached : ∀ path ∈ sources, path ∈ sourcesBelow tree root := by
    intro path hpath
    obtain ⟨given, hgiven, hmem⟩ := h.reached path hpath
    rwa [List.mem_singleton.1 hgiven] at hmem
  refine ⟨hreached path, fun hpath => ?_⟩
  obtain ⟨listed, hlisted, hsame⟩ := h.covers root List.mem_cons_self path hpath
  rwa [hspelling path hpath listed (hreached listed hlisted) hsame]

/-- What is listed for a root that no rule touches. -/
theorem mem_collectSources_iff
    (htree : tree.IsStorable) (hplace : tree.resolve? root = .ok place)
    (hlinks : tree.HasNoLinksBelow place) (hrules : IsUnruled tree (.above tree place) root place)
    (hroot : ¬ root.same ⟨"-"⟩) :
    ∃ sources, collectSources tree [root] = .ok sources ∧ ∀ path, path ∈ sources ↔
      ∃ names content, tree.node? (place ++ names) = some (.file content) ∧
        path = root.descend names ∧ tree.isFile path ∧ isRelevant root path := by
  have hpresent := (FileTree.isPresent_iff root).2 ⟨place, hplace⟩
  obtain ⟨sources, hsources, hlists⟩ :=
    exists_lists_of_isPresent (List.forall_mem_singleton.2 hpresent)
  refine ⟨sources, hsources, fun path => ?_⟩
  rw [hlists.mem_iff_of_singleton, mem_sourcesBelow_iff htree hplace hlinks hrules hroot]
  simp only [mem_sourcesBelow_iff htree hplace hlinks hrules hroot]
  rintro path ⟨names, content, hnode, rfl, -⟩ other ⟨others, otherContent, hother, rfl, -⟩ hsame
  have hnames := htree.forall_isName (Option.ne_none_iff_exists'.2 ⟨_, hnode⟩)
  have hothers := htree.forall_isName (Option.ne_none_iff_exists'.2 ⟨_, hother⟩)
  rw [root.descend_inj hnames hothers (Path.same_iff.1 hsame)]

/-- For the root that stands for the input of the program nothing is listed. -/
theorem collectSources_of_same_dash
    (hpresent : tree.isPresent root) (hroot : root.same ⟨"-"⟩) : collectSources tree [root] = .ok [] := by
  obtain ⟨sources, hsources, hlists⟩ :=
    exists_lists_of_isPresent (List.forall_mem_singleton.2 hpresent)
  suffices hempty : sources = [] by rw [hsources, hempty]
  refine List.eq_nil_iff_forall_not_mem.2 fun path hpath => ?_
  obtain ⟨given, hgiven, hmem⟩ := hlists.reached path hpath
  rw [List.mem_singleton.1 hgiven, sourcesBelow, walk, if_pos hroot] at hmem
  exact absurd hmem (by simp)

end Root

/-! ## Discovery -/

/-- A root that is missing is an error, which names the first of them.  Otherwise the list is strictly
ascending, and up to the spelling of each path it is the union of what is listed for the single roots,
whatever their order and however often each is given.  What is listed for a single root at and below which
there are no links and on which no ignore file has a say, is exactly the files at and below it that matter
for it; but nothing where the root is spelled `-`. -/
theorem collectSources_isExact (tree : FileTree) (roots : List Path) :
    (∀ before missing after, roots = before ++ missing :: after →
      (∀ root ∈ before, tree.isPresent root) → ¬ tree.isPresent missing →
        collectSources tree roots = .error ⟨missing⟩) ∧
      ((∀ root ∈ roots, tree.isPresent root) → ∃ sources, collectSources tree roots = .ok sources ∧
        IsAscending sources ∧
        (∀ steps, steps ∈ sources.map Path.components ↔ ∃ root ∈ roots, ∃ own,
          collectSources tree [root] = .ok own ∧ steps ∈ own.map Path.components) ∧
        ∀ others, (∀ root, root ∈ others ↔ root ∈ roots) → ∃ otherSources,
          collectSources tree others = .ok otherSources ∧
            otherSources.map Path.components = sources.map Path.components) ∧
      (tree.IsStorable → ∀ root place, tree.resolve? root = .ok place →
        tree.HasNoLinksBelow place → IsUnruled tree (.above tree place) root place →
          ∃ sources, collectSources tree [root] = .ok sources ∧
            (root.same ⟨"-"⟩ → sources = []) ∧
            (¬ root.same ⟨"-"⟩ → ∀ path, path ∈ sources ↔
              ∃ names content, tree.node? (place ++ names) = some (.file content) ∧
                path = root.descend names ∧ tree.isFile path ∧ isRelevant root path)) := by
  refine ⟨?_, fun hpresent => ?_, fun htree root place hplace hlinks hrules => ?_⟩
  · rintro before missing after rfl
    exact collectSources_of_missing
  · obtain ⟨sources, hsources, hlists⟩ := exists_lists_of_isPresent hpresent
    refine ⟨sources, hsources, hlists.ascending, fun steps => ?_, fun others hothers => ?_⟩
    · rw [hlists.mem_map_components_iff]
      refine exists_congr fun root => and_congr_right fun hroot => ?_
      obtain ⟨own, hown, hownLists⟩ :=
        exists_lists_of_isPresent (List.forall_mem_singleton.2 (hpresent root hroot))
      simp only [hown, Except.ok.injEq, exists_eq_left', hownLists.mem_map_components_iff,
        List.mem_singleton, exists_eq_left]
    · obtain ⟨otherSources, hother, hotherLists⟩ := exists_lists_of_isPresent
        (fun root hroot => hpresent root ((hothers root).1 hroot))
      exact ⟨otherSources, hother, hlists.map_components_eq hotherLists hothers⟩
  · by_cases hroot : root.same ⟨"-"⟩
    · have hpresent := (FileTree.isPresent_iff root).2 ⟨place, hplace⟩
      exact ⟨[], collectSources_of_same_dash hpresent hroot, fun _ => rfl, absurd hroot⟩
    · obtain ⟨sources, hsources, hmem⟩ := mem_collectSources_iff htree hplace hlinks hrules hroot
      exact ⟨sources, hsources, fun hdash => absurd hdash hroot, fun _ => hmem⟩

/-- A tree with sources at two depths, one of them hidden and one among build products. -/
def layeredTree : FileTree where
  entries := [(["w"], .directory), (["w", "src"], .directory), (["w", "src", "A.java"], .file []),
    (["w", "src", "p"], .directory), (["w", "src", "p", "B.java"], .file []),
    (["w", "src", "p", ".C.java"], .file []), (["w", "src", "build"], .directory),
    (["w", "src", "build", "D.java"], .file []), (["w", "-"], .directory),
    (["w", "-", "E.java"], .file [])]
  workingDirectory := ["w"]

theorem layeredTree_isStorable : layeredTree.IsStorable := by
  decide +kernel

theorem layeredTree_isLinkFree : layeredTree.IsLinkFree :=
  FileTree.isLinkFree_of_forall_mem (by simp [layeredTree])

theorem layeredTree_isUnruled (root : Path) (place : Place) :
    IsUnruled layeredTree (.above layeredTree place) root place := by
  refine isUnruled_of_forall_mem (fun other content hmem => ?_) (by decide +kernel) root place
  have hempty : ∀ entry ∈ layeredTree.entries, ∀ bytes, entry.2 = .file bytes → bytes = [] := by
    simp +contextual [layeredTree]
  rw [hempty _ hmem content rfl]
  decide +kernel

/-- The first missing root is named.  Roots that overlap are listed together, whatever their order.  What
is hidden or among build products is not listed, and for the root `-` nothing is. -/
theorem collectSources_isExact_layeredTree :
    collectSources layeredTree [⟨"src"⟩, ⟨"gone"⟩, ⟨"lost"⟩] = .error ⟨⟨"gone"⟩⟩ ∧
      (∃ sources otherSources, collectSources layeredTree [⟨"src/p"⟩, ⟨"src"⟩] = .ok sources ∧
        IsAscending sources ∧
        collectSources layeredTree [⟨"src"⟩, ⟨"src/p"⟩, ⟨"src"⟩] = .ok otherSources ∧
        otherSources.map Path.components = sources.map Path.components) ∧
      (∃ sources, collectSources layeredTree [⟨"./src"⟩] = .ok sources ∧
        ⟨"./src/p/B.java"⟩ ∈ sources ∧ ⟨"./src/p/.C.java"⟩ ∉ sources ∧
        ⟨"./src/build/D.java"⟩ ∉ sources) ∧
      ∃ sources, collectSources layeredTree [⟨"-"⟩] = .ok sources ∧ sources = [] := by
  have hroots : ∀ root ∈ [(⟨"src/p"⟩ : Path), ⟨"src"⟩], layeredTree.isPresent root := by
    decide +kernel
  have hsrc : layeredTree.resolve? ⟨"./src"⟩ = .ok ["w", "src"] := by decide +kernel
  have hdash : layeredTree.resolve? ⟨"-"⟩ = .ok ["w", "-"] := by decide +kernel
  have hlinks : ∀ place, layeredTree.HasNoLinksBelow place := fun place names =>
    layeredTree_isLinkFree (place ++ names)
  refine ⟨?_, ?_, ?_, ?_⟩
  · exact (collectSources_isExact layeredTree _).1 [⟨"src"⟩] ⟨"gone"⟩ [⟨"lost"⟩] rfl
      (by decide +kernel) (by decide +kernel)
  · obtain ⟨sources, hsources, hascending, -, hothers⟩ :=
      (collectSources_isExact layeredTree _).2.1 hroots
    obtain ⟨otherSources, hother, hsame⟩ := hothers [⟨"src"⟩, ⟨"src/p"⟩, ⟨"src"⟩] (by simp)
    exact ⟨sources, otherSources, hsources, hascending, hother, hsame⟩
  · obtain ⟨sources, hsources, -, hmem⟩ := (collectSources_isExact layeredTree []).2.2
      layeredTree_isStorable ⟨"./src"⟩ ["w", "src"] hsrc (hlinks _) (layeredTree_isUnruled _ _)
    have hlisted := hmem (by decide +kernel)
    refine ⟨sources, hsources, (hlisted _).2 ⟨["p", "B.java"], [], ?_⟩, ?_, ?_⟩
    · decide +kernel
    · rw [hlisted]
      rintro ⟨-, -, -, -, -, hrelevant⟩
      exact absurd hrelevant (by decide +kernel)
    · rw [hlisted]
      rintro ⟨-, -, -, -, -, hrelevant⟩
      exact absurd hrelevant (by decide +kernel)
  · obtain ⟨sources, hsources, hempty, -⟩ := (collectSources_isExact layeredTree []).2.2
      layeredTree_isStorable ⟨"-"⟩ ["w", "-"] hdash (hlinks _) (layeredTree_isUnruled _ _)
    exact ⟨sources, hsources, hempty (by decide +kernel)⟩

/-- It is not so that for every root what is listed is exactly what matters below it. -/
theorem not_collectSources_isExact :
    ¬ ∀ (tree : FileTree) (root : Path) (place : Place), tree.IsStorable →
      tree.resolve? root = .ok place → tree.HasNoLinksBelow place →
        IsUnruled tree (.above tree place) root place →
          ∃ sources, collectSources tree [root] = .ok sources ∧ ∀ path, path ∈ sources ↔
            ∃ names content, tree.node? (place ++ names) = some (.file content) ∧
              path = root.descend names ∧ tree.isFile path ∧ isRelevant root path := by
  intro h
  obtain ⟨sources, hsources, hmem⟩ := h layeredTree ⟨"-"⟩ ["w", "-"] layeredTree_isStorable
    (by decide +kernel) (fun names => layeredTree_isLinkFree _) (layeredTree_isUnruled _ _)
  rw [collectSources_of_same_dash (by decide +kernel) (by decide +kernel)] at hsources
  obtain rfl := Except.ok.inj hsources
  have hlisted := (hmem ⟨"-/E.java"⟩).2 ⟨["E.java"], [], by decide +kernel⟩
  exact absurd hlisted List.not_mem_nil

end Scan

end ComponentMarkers
