import ComponentMarkers.Proofs.Path.Order
import ComponentMarkers.Scan.Sources

/-!
# What is listed

The sources below some roots are put in the order of paths, and of neighbours that are spellings of one
path the first is kept.  Spellings of one path are neighbours in an ordered list, so what is left is
strictly ascending and has one spelling of every path that is reached.
-/

namespace ComponentMarkers.Scan

/-- The paths are in the order of paths, no two of them spellings of one path. -/
def IsAscending (paths : List Path) : Prop :=
  paths.Pairwise fun path next => path.compare next = .lt

/-- The list has, strictly ascending, one spelling of every path at which there is a source below a
root. -/
structure Lists (tree : FileTree) (roots sources : List Path) : Prop where
  ascending : IsAscending sources
  reached : ∀ path ∈ sources, ∃ root ∈ roots, path ∈ sourcesBelow tree root
  covers : ∀ root ∈ roots, ∀ path ∈ sourcesBelow tree root, ∃ listed ∈ sources, path.same listed

/-- No two paths of a strictly ascending list are spellings of one path. -/
theorem IsAscending.pairwise_components_ne {paths : List Path} (h : IsAscending paths) :
    paths.Pairwise fun path next => path.components ≠ next.components := by
  apply List.Pairwise.imp _ h
  intro path next hlt hsame
  have heq := (Path.compare_eq_iff path next).2 (Path.same_iff.2 hsame)
  rw [hlt] at heq
  cases heq

/-- The first path is kept.  Behind it stands what is left of the others, without the first of them if
that is a spelling of the same path. -/
theorem exists_withoutRepetitions_cons (path : Path) (rest : List Path) :
    ∃ left, withoutRepetitions (path :: rest) = path :: left ∧
      ((left = withoutRepetitions rest ∧ ∀ next ∈ left.head?, ¬ path.same next) ∨
        ∃ next, withoutRepetitions rest = next :: left ∧ path.same next) := by
  rw [withoutRepetitions]
  cases withoutRepetitions rest with
  | nil => exact ⟨[], rfl, .inl ⟨rfl, by simp⟩⟩
  | cons next more =>
      dsimp only
      by_cases hsame : path.same next
      · exact ⟨more, if_pos hsame, .inr ⟨next, rfl, hsame⟩⟩
      · exact ⟨next :: more, if_neg hsame, .inl ⟨rfl, by simpa using hsame⟩⟩

theorem withoutRepetitions_sublist (paths : List Path) :
    (withoutRepetitions paths).Sublist paths := by
  induction paths with
  | nil => exact .slnil
  | cons path rest ih =>
      obtain ⟨left, hkept, ⟨rfl, -⟩ | ⟨next, hrest, -⟩⟩ := exists_withoutRepetitions_cons path rest
      · rw [hkept]
        exact ih.cons_cons path
      · rw [hrest] at ih
        rw [hkept]
        exact ((List.sublist_cons_self next left).trans ih).cons_cons path

/-- Leaving out repetitions loses no path. -/
theorem exists_same_mem_withoutRepetitions {paths : List Path} {path : Path} (h : path ∈ paths) :
    ∃ kept ∈ withoutRepetitions paths, path.same kept := by
  induction paths with
  | nil => cases h
  | cons first rest ih =>
      obtain ⟨left, hkept, hleft⟩ := exists_withoutRepetitions_cons first rest
      rw [hkept]
      rcases List.mem_cons.1 h with rfl | hpath
      · exact ⟨path, List.mem_cons_self, Path.same_iff.2 rfl⟩
      · obtain ⟨kept, hmem, hsame⟩ := ih hpath
        rcases hleft with ⟨rfl, -⟩ | ⟨next, hrest, hfirst⟩
        · exact ⟨kept, List.mem_cons_of_mem _ hmem, hsame⟩
        · rw [hrest] at hmem
          rcases List.mem_cons.1 hmem with rfl | hmem
          · refine ⟨first, List.mem_cons_self, Path.same_iff.2 ?_⟩
            exact (Path.same_iff.1 hsame).trans (Path.same_iff.1 hfirst).symm
          · exact ⟨kept, List.mem_cons_of_mem _ hmem, hsame⟩

theorem compare_eq_lt_of_not_same
    {path next : Path} (hle : (path.compare next).isLE) (hsame : ¬ path.same next) :
    path.compare next = .lt := by
  rcases Ordering.isLE_iff_eq_lt_or_eq_eq.1 hle with hlt | heq
  · exact hlt
  · exact absurd ((Path.compare_eq_iff path next).1 heq) hsame

/-- Leaving out repetitions makes an ordered list strictly ascending. -/
theorem isAscending_withoutRepetitions
    {paths : List Path} (hpaths : paths.Pairwise fun path next => (path.compare next).isLE) :
    IsAscending (withoutRepetitions paths) := by
  induction paths with
  | nil => exact .nil
  | cons path rest ih =>
      obtain ⟨hpath, hrest⟩ := List.pairwise_cons.1 hpaths
      have hascending := ih hrest
      have hsublist := withoutRepetitions_sublist rest
      obtain ⟨left, hkept, ⟨hleft, hhead⟩ | ⟨next, hnext, hsame⟩⟩ :=
        exists_withoutRepetitions_cons path rest
      · rw [← hleft] at hascending hsublist
        rw [hkept]
        refine List.pairwise_cons.2 ⟨?_, hascending⟩
        -- The path is below the first of the others, and so below all of them.
        cases left with
        | nil => simp
        | cons next more =>
            have hlt : path.compare next = .lt :=
              compare_eq_lt_of_not_same (hpath next (hsublist.subset List.mem_cons_self))
                (hhead next rfl)
            refine List.forall_mem_cons.2 ⟨hlt, fun other hother => ?_⟩
            exact Std.TransCmp.lt_trans hlt ((List.pairwise_cons.1 hascending).1 other hother)
      · rw [hnext] at hascending
        rw [hkept]
        obtain ⟨hlater, hmore⟩ := List.pairwise_cons.1 hascending
        refine List.pairwise_cons.2 ⟨fun other hother => ?_, hmore⟩
        exact Std.TransCmp.lt_of_eq_of_lt ((Path.compare_eq_iff path next).2 hsame)
          (hlater other hother)

/-- The sources below roots that exist are listed. -/
theorem exists_lists_of_isPresent
    {tree : FileTree} {roots : List Path} (hroots : ∀ root ∈ roots, tree.isPresent root) :
    ∃ sources, collectSources tree roots = .ok sources ∧ Lists tree roots sources := by
  have hpresent : (roots.find? fun root => !tree.isPresent root) = none := by
    rw [List.find?_eq_none]
    intro root hroot
    simp [hroots root hroot]
  refine ⟨_, by rw [collectSources, hpresent],
    isAscending_withoutRepetitions (Path.pairwise_mergeSort _), ?_, ?_⟩
  · intro path hpath
    have hlisted := (withoutRepetitions_sublist _).subset hpath
    exact List.mem_flatMap.1 (List.mem_mergeSort.1 hlisted)
  · intro root hroot path hpath
    apply exists_same_mem_withoutRepetitions
    exact List.mem_mergeSort.2 (List.mem_flatMap.2 ⟨root, hroot, hpath⟩)

end ComponentMarkers.Scan
