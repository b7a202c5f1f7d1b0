import ComponentMarkers.Proofs.Scan.Listing
import ComponentMarkers.Proofs.Scan.Walks

/-!
# What is scanned and what matters

A walk goes to a hidden entry only if an exception in some ignore file, one of the tree or the user's own,
keeps it.  Whether a change of a
file matters is told by the names on its path alone, and there a hidden name never does.  So a source that
is listed matters exactly when no name below the root is hidden; and where no ignore file has an
exception, every source that is listed matters.
-/

namespace ComponentMarkers.Scan

open Component

/-! ## What rules say -/

/-- All rules of a layer. -/
def RuleLayer.rules (layer : RuleLayer) : List IgnoreRule :=
  layer.general.rules ++ layer.versioned.rules ++ layer.excluded.rules

/-- None of the rules is an exception, whether it is found in a directory of the tree or is one of those
that the user has for all repositories. -/
structure HasNoExceptions (tree : FileTree) : Prop where
  found : ∀ isOutside directory,
    ∀ rule ∈ (layerOf tree isOutside directory).rules, ¬ rule.isException
  ofUser : ∀ rule ∈ (userRules tree).rules, ¬ rule.isException

/-- What is read as an ignore file is nothing or a file of the tree. -/
theorem bytesOf_eq_nil_or_mem (tree : FileTree) (path : Path) :
    bytesOf tree path = [] ∨ ∃ place, (place, .file (bytesOf tree path)) ∈ tree.entries := by
  cases hplace : tree.resolve? path with
  | error fault =>
      rw [bytesOf, FileTree.readFile, hplace]
      exact Or.inl rfl
  | ok place =>
      rw [bytesOf, FileTree.readFile, hplace]
      dsimp only
      rcases hnode : tree.node? place with _ | (_ | content | target)
      · exact Or.inl rfl
      · exact Or.inl rfl
      · refine Or.inr ⟨place, ?_⟩
        rw [FileTree.node?] at hnode
        split at hnode
        · cases hnode
        · obtain ⟨before, after, hentries, -⟩ := List.lookup_eq_some_iff.1 hnode
          rw [hentries]
          exact List.mem_append_right _ List.mem_cons_self
      · exact Or.inl rfl

/-- The rules found in any directory are as all rules that could be read in a file of the tree. -/
theorem forall_rules_of_forall_mem
    {tree : FileTree} {P : IgnoreRule → Prop}
    (h : ∀ place content, (place, .file content) ∈ tree.entries →
      ∀ rule ∈ (IgnoreRules.ofBytes ⟨""⟩ content).rules, P rule)
    (isOutside : Bool) (directory : Path) : ∀ rule ∈ (layerOf tree isOutside directory).rules, P rule := by
  have hrules : ∀ directory file, ∀ rule ∈ (rulesIn tree directory file).rules, P rule := by
    intro directory file rule hrule
    change rule ∈ (IgnoreRules.ofBytes ⟨""⟩ (bytesOf tree file)).rules at hrule
    rcases bytesOf_eq_nil_or_mem tree file with hnil | ⟨place, hmem⟩
    · rw [hnil] at hrule
      cases hrule
    · exact h place _ hmem rule hrule
  intro rule hrule
  rw [layerOf, RuleLayer.rules, List.mem_append, List.mem_append] at hrule
  dsimp only at hrule
  rcases hrule with (hrule | hrule) | hrule
  · exact hrules _ _ rule hrule
  · exact hrules _ _ rule hrule
  · split at hrule
    · exact hrules _ _ rule hrule
    · cases hrule

theorem Verdict.orElse_eq_or (verdict other : Verdict) :
    verdict.orElse other = verdict ∨ verdict.orElse other = other := by
  cases verdict <;> simp [Verdict.orElse]

theorem IgnoreRules.verdict_ne_kept
    {rules : IgnoreRules} (h : ∀ rule ∈ rules.rules, ¬ rule.isException) (path : List Char)
    (isDirectory : Bool) : rules.verdict path isDirectory ≠ .kept := by
  rw [IgnoreRules.verdict]
  split
  · rename_i rule hrule
    rw [if_neg (h rule (List.mem_reverse.1 (List.mem_of_find?_eq_some hrule)))]
    simp
  · simp

theorem IgnoreRules.verdict_of_rules_eq_nil
    {rules : IgnoreRules} (h : rules.rules = []) (path : List Char) (isDirectory : Bool) :
    rules.verdict path isDirectory = .undecided := by
  rw [IgnoreRules.verdict, h, List.reverse_nil, List.find?_nil]

section Consulting

variable {P : Verdict → Prop}

theorem Verdict.orElse_of_both {verdict other : Verdict} (h : P verdict) (hother : P other) :
    P (verdict.orElse other) := by
  rcases verdict.orElse_eq_or other with heq | heq
  · rwa [heq]
  · rwa [heq]

/-- What each of the files of a layer says is one of some verdicts. -/
structure RuleLayer.Says (P : Verdict → Prop) (layer : RuleLayer) : Prop where
  general : ∀ path isDirectory, P (layer.general.verdict path isDirectory)
  versioned : ∀ path isDirectory, P (layer.versioned.verdict path isDirectory)
  excluded : ∀ path isDirectory, P (layer.excluded.verdict path isDirectory)

namespace Surroundings

/-- Every verdict so far is one of some verdicts. -/
structure Findings.Has (P : Verdict → Prop) (findings : Findings) : Prop where
  general : P findings.general
  versioned : P findings.versioned
  excluded : P findings.excluded

theorem Findings.Has.consult
    {findings : Findings} (h : findings.Has P) {layer : RuleLayer} (hlayer : layer.Says P)
    (inRepository : Bool) (path : List Char) (isDirectory : Bool) :
    (consult inRepository path isDirectory findings layer).Has P := by
  refine ⟨Verdict.orElse_of_both h.general (hlayer.general _ _), ?_, ?_⟩
  · dsimp only [Surroundings.consult]
    split
    · exact Verdict.orElse_of_both h.versioned (hlayer.versioned _ _)
    · exact h.versioned
  · dsimp only [Surroundings.consult]
    split
    · exact Verdict.orElse_of_both h.excluded (hlayer.excluded _ _)
    · exact h.excluded

theorem Findings.Has.foldl_consult
    {layers : List RuleLayer} (hlayers : ∀ layer ∈ layers, layer.Says P) {findings : Findings}
    (h : findings.Has P) (inRepository : Bool) (path : List Char) (isDirectory : Bool) :
    (layers.foldl (Surroundings.consult inRepository path isDirectory) findings).Has P := by
  induction layers generalizing findings with
  | nil => exact h
  | cons layer rest ih =>
      obtain ⟨hlayer, hrest⟩ := List.forall_mem_cons.1 hlayers
      exact ih hrest (h.consult hlayer inRepository path isDirectory)

theorem Findings.Has.orElse {findings : Findings} (h : findings.Has P) :
    P ((findings.general.orElse findings.versioned).orElse findings.excluded) :=
  Verdict.orElse_of_both (Verdict.orElse_of_both h.general h.versioned) h.excluded

/-- What the rules say together is what one of them says, or nothing. -/
theorem verdict_of_forall_says
    {surroundings : Surroundings} (hundecided : P .undecided)
    (h : ∀ layer ∈ surroundings.layers, layer.Says P)
    (huser : ∀ path isDirectory, P (surroundings.user.verdict path isDirectory)) (path : Path)
    (isDirectory : Bool) : P (surroundings.verdict path isDirectory) := by
  have hnone : (⟨.undecided, .undecided, .undecided, false⟩ : Findings).Has P :=
    ⟨hundecided, hundecided, hundecided⟩
  have hinner : ∀ layer ∈ surroundings.layers.takeWhile fun layer => !layer.isOutside,
      layer.Says P := fun layer hlayer =>
    h layer ((List.takeWhile_prefix _).subset hlayer)
  have houter : ∀ layer ∈ surroundings.layers.dropWhile fun layer => !layer.isOutside,
      layer.Says P := fun layer hlayer =>
    h layer ((List.dropWhile_suffix _).subset hlayer)
  have hnear := fun inRepository chars =>
    hnone.foldl_consult hinner inRepository chars isDirectory
  rw [verdict]
  refine Verdict.orElse_of_both ?_ ?_
  · dsimp only
    split
    · exact (hnear _ _).orElse
    · exact ((hnear _ _).foldl_consult houter _ _ _).orElse
  · split
    · exact huser _ _
    · exact hundecided

/-- Without exceptions the rules keep nothing. -/
theorem verdict_ne_kept
    {surroundings : Surroundings}
    (h : ∀ layer ∈ surroundings.layers, ∀ rule ∈ layer.rules, ¬ rule.isException)
    (huser : ∀ rule ∈ surroundings.user.rules, ¬ rule.isException) (path : Path)
    (isDirectory : Bool) : surroundings.verdict path isDirectory ≠ .kept := by
  refine verdict_of_forall_says (P := (· ≠ .kept)) (by simp) (fun layer hlayer => ?_)
    (IgnoreRules.verdict_ne_kept huser) path isDirectory
  have hrules := h layer hlayer
  simp only [RuleLayer.rules, List.mem_append] at hrules
  exact ⟨IgnoreRules.verdict_ne_kept fun rule hrule => hrules rule (.inl (.inl hrule)),
    IgnoreRules.verdict_ne_kept fun rule hrule => hrules rule (.inl (.inr hrule)),
    IgnoreRules.verdict_ne_kept fun rule hrule => hrules rule (.inr hrule)⟩

/-- Without rules nothing is decided. -/
theorem verdict_eq_undecided
    {surroundings : Surroundings} (h : ∀ layer ∈ surroundings.layers, layer.rules = [])
    (huser : surroundings.user.rules = []) (path : Path) (isDirectory : Bool) :
    surroundings.verdict path isDirectory = .undecided := by
  refine verdict_of_forall_says (P := (· = .undecided)) rfl (fun layer hlayer => ?_)
    (IgnoreRules.verdict_of_rules_eq_nil huser) path isDirectory
  have hrules := h layer hlayer
  simp only [RuleLayer.rules, List.append_eq_nil_iff] at hrules
  obtain ⟨⟨hgeneral, hversioned⟩, hexcluded⟩ := hrules
  exact ⟨IgnoreRules.verdict_of_rules_eq_nil hgeneral,
    IgnoreRules.verdict_of_rules_eq_nil hversioned, IgnoreRules.verdict_of_rules_eq_nil hexcluded⟩

end Surroundings

end Consulting

/-! ## The way to a source -/

/-- On the way from a directory down by names nothing is skipped, and the rules keep what is hidden. -/
def PassesDown (tree : FileTree) : Surroundings → Path → Place → List String → Prop
  | _, _, _, [] => True
  | surroundings, directory, place, name :: rest =>
    let inside := surroundings.enter tree directory
    let path := directory.join ⟨name⟩
    name ∉ skippedNames ∧
      (isHiddenName name → inside.verdict path (tree.isDirectoryAt (place ++ [name])) = .kept) ∧
      PassesDown tree inside path (place ++ [name]) rest

variable {tree : FileTree}

theorem PassesDown.not_mem_skippedNames
    {surroundings : Surroundings} {directory : Path} {place : Place} {names : List String}
    (h : PassesDown tree surroundings directory place names) :
    ∀ name ∈ names, name ∉ skippedNames := by
  induction names generalizing surroundings directory place with
  | nil => simp
  | cons name rest ih =>
      obtain ⟨hname, -, hrest⟩ := h
      exact List.forall_mem_cons.2 ⟨hname, ih hrest⟩

/-- Where nothing is kept by an exception, nothing hidden is on the way. -/
theorem PassesDown.not_isHiddenName
    (htree : HasNoExceptions tree) {surroundings : Surroundings} {directory : Path} {place : Place}
    {names : List String} (h : PassesDown tree surroundings directory place names)
    (hlayers : ∀ layer ∈ surroundings.layers, ∀ rule ∈ layer.rules, ¬ rule.isException)
    (huser : ∀ rule ∈ surroundings.user.rules, ¬ rule.isException) :
    ∀ name ∈ names, ¬ isHiddenName name := by
  induction names generalizing surroundings directory place with
  | nil => simp
  | cons name rest ih =>
      obtain ⟨-, hhidden, hrest⟩ := h
      have hinside : ∀ layer ∈ (surroundings.enter tree directory).layers,
          ∀ rule ∈ layer.rules, ¬ rule.isException :=
        List.forall_mem_cons.2 ⟨htree.found false directory, hlayers⟩
      exact List.forall_mem_cons.2
        ⟨fun hname => Surroundings.verdict_ne_kept hinside huser _ _ (hhidden hname),
          ih hrest hinside huser⟩

theorem exists_passesDown_of_mem_walkInto
    (htree : tree.HasNames) {bound : Nat} {surroundings : Surroundings} {directory path : Path}
    {place : Place} (h : path ∈ walkInto tree bound surroundings directory place) :
    ∃ names : List String, path.components = directory.components ++ names.map .normal ∧
      PassesDown tree surroundings directory place names := by
  induction bound generalizing surroundings directory place with
  | zero => cases h
  | succ bound ih =>
      rw [walkInto] at h
      obtain ⟨name, hname, hpath⟩ := List.mem_flatMap.1 h
      obtain ⟨hlead, hcomponents, -⟩ :=
        Path.path_of_isStep (.normal (isName_of_mem_namesIn htree hname))
      rw [Component.text] at hlead hcomponents
      have hjoin : (directory.join ⟨name⟩).components = directory.components ++ [.normal name] := by
        rw [Path.components_join directory hlead, hcomponents]
      dsimp only at hpath
      split_ifs at hpath with hout hdirectory
      · cases hpath
      all_goals
        rw [isLeftOut, Bool.or_eq_true, not_or, List.contains_iff_mem] at hout
        obtain ⟨hskipped, hhidden⟩ := hout
        have hkept : isHiddenName name → (surroundings.enter tree directory).verdict
            (directory.join ⟨name⟩) (tree.isDirectoryAt (place ++ [name])) = .kept := by
          intro hname
          rw [hname] at hhidden
          split at hhidden
          · exact absurd rfl hhidden
          · assumption
          · exact absurd rfl hhidden
      · obtain ⟨names, hnames, hpasses⟩ := ih hpath
        refine ⟨name :: names, ?_, hskipped, hkept, hpasses⟩
        rw [hnames, hjoin, List.append_assoc]
        rfl
      · rw [List.mem_singleton.1 hpath]
        exact ⟨[name], hjoin, hskipped, hkept, trivial⟩

theorem exists_passesDown_of_mem_sourcesBelow
    (htree : tree.HasNames) {root path : Path} {place : Place} (hplace : tree.resolve? root = .ok place)
    (h : path ∈ sourcesBelow tree root) :
    ∃ names : List String, path.components = root.components ++ names.map .normal ∧
      PassesDown tree (.above tree place) root place names := by
  have hwalk := (List.mem_filter.1 h).1
  rw [walk] at hwalk
  split at hwalk
  · cases hwalk
  · rw [hplace] at hwalk
    dsimp only at hwalk
    split at hwalk
    · exact exists_passesDown_of_mem_walkInto htree hwalk
    · rw [List.mem_singleton.1 hwalk]
      exact ⟨[], (List.append_nil _).symm, trivial⟩

/-- A path that goes on below a root by names matters if it is spelled as a source and no name is hidden
or skipped. -/
theorem isRelevant_iff_of_components_eq
    {root path : Path} {names : List String}
    (hnames : path.components = root.components ++ names.map .normal) :
    isRelevant root path ↔
      (∀ name ∈ names, ¬ isSkippedStep (.normal name)) ∧ isSourceFile path := by
  have hbelow : root.below? path = some (names.map .normal) := by
    rw [Path.below?, hnames, if_pos (by simp), List.drop_left]
  rw [isRelevant, hbelow, Option.getD_some, Bool.and_eq_true, Bool.not_eq_true', List.any_eq_false,
    List.forall_mem_map]

theorem isSkippedStep_iff_of_not_mem {name : String} (h : name ∉ skippedNames) :
    isSkippedStep (.normal name) ↔ isHiddenName name := by
  rw [isSkippedStep, Bool.or_eq_true, List.contains_iff_mem, or_iff_left h]

/-- Whatever the rules in the tree, the sources that are listed for a root lie below it by names that are
not skipped, and those that are hidden are kept by an exception.  Such a source matters for a watch of the
root exactly when no name below the root is hidden.  Where no ignore file has an exception, everything
that is listed matters. -/
theorem listed_isRelevant_iff
    (htree : tree.HasNames) {root : Path} (hroot : tree.isPresent root) :
    ∃ place sources, tree.resolve? root = .ok place ∧ collectSources tree [root] = .ok sources ∧
      (∀ path ∈ sources, ∃ names : List String,
        path.components = root.components ++ names.map .normal ∧
          PassesDown tree (.above tree place) root place names ∧
          (isRelevant root path ↔ ∀ name ∈ names, ¬ isHiddenName name)) ∧
      (HasNoExceptions tree → ∀ path ∈ sources, isRelevant root path) := by
  obtain ⟨place, hplace⟩ := (FileTree.isPresent_iff root).1 hroot
  have hpresent : ∀ given ∈ [root], tree.isPresent given := List.forall_mem_singleton.2 hroot
  obtain ⟨sources, hsources, hlists⟩ := exists_lists_of_isPresent hpresent
  have hlisted : ∀ path ∈ sources, ∃ names : List String,
      path.components = root.components ++ names.map .normal ∧
        PassesDown tree (.above tree place) root place names ∧
        (isRelevant root path ↔ ∀ name ∈ names, ¬ isHiddenName name) := by
    intro path hpath
    obtain ⟨found, hfound, hreached⟩ := hlists.reached path hpath
    obtain rfl := List.mem_singleton.1 hfound
    obtain ⟨names, hnames, hpasses⟩ :=
      exists_passesDown_of_mem_sourcesBelow htree hplace hreached
    have hsource := (Bool.and_eq_true_iff.1 (List.mem_filter.1 hreached).2).2
    refine ⟨names, hnames, hpasses, ?_⟩
    rw [isRelevant_iff_of_components_eq hnames, and_iff_left hsource]
    exact forall₂_congr fun name hname =>
      not_congr (isSkippedStep_iff_of_not_mem (hpasses.not_mem_skippedNames name hname))
  refine ⟨place, sources, hplace, hsources, hlisted, fun hrules path hpath => ?_⟩
  obtain ⟨names, -, hpasses, hrelevant⟩ := hlisted path hpath
  refine hrelevant.2
    (hpasses.not_isHiddenName hrules (fun layer hlayer => ?_) hrules.ofUser)
  obtain ⟨directory, -, rfl⟩ := List.mem_map.1 (List.mem_reverse.1 hlayer)
  exact hrules.found true directory

/-- A source in a hidden directory below a root, and an ignore file above it. -/
def hiddenTree (rules : String) : FileTree where
  entries := [(["w"], .directory), (["w", ".ignore"], .file (Text.encode rules)),
    (["w", "src"], .directory), (["w", "src", ".x"], .directory),
    (["w", "src", ".x", "A.java"], .file [])]
  workingDirectory := ["w"]

theorem hiddenTree_hasNames (rules : String) : (hiddenTree rules).HasNames := by
  have hplain : ∀ name ∈ ["w", ".ignore", "src", ".x", "A.java"],
      name ≠ "" ∧ name ≠ "." ∧ name ≠ ".." ∧ '/' ∉ name.toList := by
    decide
  intro entry hentry name hname
  obtain ⟨hempty, hdot, hdots, hslash⟩ := hplain name (by
    simp only [hiddenTree, List.mem_cons, List.not_mem_nil, or_false] at hentry ⊢
    rcases hentry with rfl | rfl | rfl | rfl | rfl
    all_goals
      simp only [List.mem_cons, List.not_mem_nil, or_false] at hname
      tauto)
  exact ⟨hempty, hdot, hdots, hslash⟩

/-- With an exception the source is listed and does not matter; without one it is listed below its own
directory, and there it matters. -/
theorem listed_isRelevant_iff_hiddenTree :
    (∃ sources, collectSources (hiddenTree "!.x\n") [⟨"src"⟩] = .ok sources ∧
        ⟨"src/.x/A.java"⟩ ∈ sources ∧ ∀ path ∈ sources, ¬ isRelevant ⟨"src"⟩ path) ∧
      HasNoExceptions (hiddenTree "") ∧
      ∃ sources, collectSources (hiddenTree "") [⟨"src/.x"⟩] = .ok sources ∧
        ⟨"src/.x/A.java"⟩ ∈ sources ∧ ∀ path ∈ sources, isRelevant ⟨"src/.x"⟩ path := by
  have hempty : Text.encode "" = [] := by decide +kernel
  have hrules : HasNoExceptions (hiddenTree "") := by
    refine ⟨forall_rules_of_forall_mem ?_, by rintro rule ⟨⟩⟩
    intro place content hmem rule hrule
    obtain rfl : content = [] := by
      rw [hiddenTree, hempty] at hmem
      simp only [List.mem_cons, Prod.mk.injEq, reduceCtorEq, and_false, Node.file.injEq,
        List.not_mem_nil, or_false, false_or] at hmem
      rcases hmem with ⟨-, hcontent⟩ | ⟨-, hcontent⟩
      · exact hcontent
      · exact hcontent
    cases hrule
  have hhidden : (hiddenTree "!.x\n").isPresent ⟨"src"⟩ := by decide +kernel
  have hown : (hiddenTree "").isPresent ⟨"src/.x"⟩ := by decide +kernel
  have hlisted : collectSources (hiddenTree "!.x\n") [⟨"src"⟩] = .ok [⟨"src/.x/A.java"⟩] := by
    decide +kernel
  have hownListed : collectSources (hiddenTree "") [⟨"src/.x"⟩] = .ok [⟨"src/.x/A.java"⟩] := by
    decide +kernel
  obtain ⟨_, sources, -, hsources, hpaths, -⟩ :=
    listed_isRelevant_iff (hiddenTree_hasNames "!.x\n") hhidden
  obtain ⟨_, others, -, hothers, -, hrelevant⟩ :=
    listed_isRelevant_iff (hiddenTree_hasNames "") hown
  obtain rfl := Except.ok.inj (hsources.symm.trans hlisted)
  obtain rfl := Except.ok.inj (hothers.symm.trans hownListed)
  refine ⟨⟨_, hsources, List.mem_cons_self, fun path hpath => ?_⟩, hrules, _, hothers,
    List.mem_cons_self, hrelevant hrules⟩
  obtain ⟨names, hnames, -, hiff⟩ := hpaths path hpath
  obtain rfl := List.mem_singleton.1 hpath
  have hsame : names = [".x", "A.java"] := by
    have hsteps : (Path.mk "src/.x/A.java").components =
        (Path.mk "src").components ++ [".x", "A.java"].map .normal := by
      decide +kernel
    rw [hsteps, List.append_cancel_left_eq, map_normal_inj] at hnames
    exact hnames.symm
  rw [hiff, hsame]
  decide +kernel

/-- It is not so that everything that is listed matters. -/
theorem not_listed_isRelevant :
    ¬ ∀ (tree : FileTree) (root : Path) (sources : List Path), tree.HasNames →
      tree.isPresent root → collectSources tree [root] = .ok sources →
        ∀ path ∈ sources, isRelevant root path := by
  intro h
  have hrelevant := h (hiddenTree "!.x\n") ⟨"src"⟩ [⟨"src/.x/A.java"⟩] (hiddenTree_hasNames _)
    (by decide +kernel) (by decide +kernel) ⟨"src/.x/A.java"⟩ List.mem_cons_self
  exact absurd hrelevant (by decide +kernel)

end ComponentMarkers.Scan
