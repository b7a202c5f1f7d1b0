import ComponentMarkers.Proofs.FileSystem.Resolution
import ComponentMarkers.Scan.Sources

/-!
# What a walk reaches

A walk goes from a root into directories by their names.  So every path that it reaches is spelled as the
root is and then takes steps to names: it begins like the root, and takes a step up only where the root
does.
-/

namespace ComponentMarkers

open Component

/-- Every name in the tree is a step to itself. -/
def FileTree.HasNames (tree : FileTree) : Prop :=
  ∀ entry ∈ tree.entries, ∀ name ∈ entry.1, IsName name

/-- The path begins like the root and goes on below it by names. -/
structure Path.Extends (path root : Path) : Prop where
  lead_eq : path.lead = root.lead
  isBelow : path.IsBelow root

namespace Path

theorem Extends.refl (path : Path) : path.Extends path :=
  ⟨rfl, [], (List.append_nil _).symm⟩

theorem Extends.join {path root : Path} {name : String} (hname : IsName name)
    (h : path.Extends (root.join ⟨name⟩)) : path.Extends root := by
  obtain ⟨hlead, hcomponents, -⟩ := path_of_isStep (.normal hname)
  rw [Component.text] at hlead hcomponents
  obtain ⟨names, hnames⟩ := h.isBelow
  refine ⟨h.lead_eq.trans (root.join_spec hlead).1, name :: names, ?_⟩
  rw [hnames, components_join root hlead, hcomponents, List.append_assoc, List.singleton_append,
    List.map_cons]

theorem Extends.parent_not_mem {path root : Path} (h : path.Extends root)
    (hroot : .parent ∉ root.components) : .parent ∉ path.components := by
  obtain ⟨names, hnames⟩ := h.isBelow
  rw [hnames, List.mem_append, not_or]
  refine ⟨hroot, ?_⟩
  simp

end Path

namespace Scan

theorem isName_of_mem_namesIn
    {tree : FileTree} (htree : tree.HasNames) {place : Place} {name : String}
    (h : name ∈ tree.namesIn place) : IsName name := by
  obtain ⟨entry, hentry, hlast⟩ := List.mem_filterMap.1 (List.mem_mergeSort.1 h)
  split_ifs at hlast
  exact htree entry hentry name (List.mem_of_getLast? hlast)

theorem extends_of_mem_walkInto
    {tree : FileTree} (htree : tree.HasNames) {bound : Nat} {surroundings : Surroundings}
    {directory path : Path} {place : Place}
    (h : path ∈ walkInto tree bound surroundings directory place) : path.Extends directory := by
  induction bound generalizing surroundings directory place with
  | zero => cases h
  | succ bound ih =>
      rw [walkInto] at h
      obtain ⟨name, hname, hpath⟩ := List.mem_flatMap.1 h
      apply Path.Extends.join (isName_of_mem_namesIn htree hname)
      dsimp only at hpath
      split_ifs at hpath
      · cases hpath
      · exact ih hpath
      · rw [List.mem_singleton.1 hpath]
        exact .refl _

/-- Every source below a root is spelled as the root is. -/
theorem extends_of_mem_sourcesBelow
    {tree : FileTree} (htree : tree.HasNames) {root path : Path}
    (h : path ∈ sourcesBelow tree root) : path.Extends root := by
  have hwalk := (List.mem_filter.1 h).1
  rw [walk] at hwalk
  split at hwalk
  · cases hwalk
  · split at hwalk
    · cases hwalk
    · split at hwalk
      · exact extends_of_mem_walkInto htree hwalk
      · rw [List.mem_singleton.1 hwalk]
        exact .refl _

theorem isFile_of_mem_sourcesBelow
    {tree : FileTree} {root path : Path} (h : path ∈ sourcesBelow tree root) : tree.isFile path :=
  (Bool.and_eq_true_iff.1 (List.mem_filter.1 h).2).1

end Scan

end ComponentMarkers
