import ComponentMarkers.Proofs.FileSystem.Directories

/-!
# Sound trees

In a sound tree everything stands in a directory, and the program works in one.  A walk through such a
tree never arrives at a link.  Making directories keeps a tree sound and does nothing else, whatever
path they are made for and wherever it fails.
-/

namespace ComponentMarkers.FileTree

/-- Everything stands in a directory, and the program works in one. -/
structure IsSound (tree : FileTree) : Prop where
  workingDirectory : tree.node? tree.workingDirectory = some .directory
  parent : ∀ place name, tree.node? (place ++ [name]) ≠ none → tree.node? place = some .directory

theorem node?_ne_none_iff (tree : FileTree) {place : Place} (hplace : place ≠ []) :
    tree.node? place ≠ none ↔ ∃ entry ∈ tree.entries, entry.1 = place := by
  rw [node?, if_neg hplace, Option.ne_none_iff_isSome, List.lookup_isSome_iff]
  refine exists_congr fun entry => and_congr_right fun _ => ?_
  rw [beq_iff_eq, eq_comm]

/-- Below a place that no entry is at or below there is nothing. -/
theorem node?_eq_none_of_entries
    {tree : FileTree} {place : Place} (hplace : place ≠ [])
    (h : ∀ entry ∈ tree.entries, ¬ place <+: entry.1) (more : List String) :
    tree.node? (place ++ more) = none := by
  by_contra hnode
  obtain ⟨entry, hentry, hsame⟩ := (tree.node?_ne_none_iff (by simp [hplace])).1 hnode
  exact h entry hentry (by rw [hsame]; exact List.prefix_append _ _)

theorem isSound_iff (tree : FileTree) :
    tree.IsSound ↔ tree.node? tree.workingDirectory = some .directory ∧
      ∀ entry ∈ tree.entries, tree.node? entry.1.dropLast = some .directory := by
  constructor
  · intro h
    refine ⟨h.workingDirectory, fun entry hentry => ?_⟩
    by_cases hroot : entry.1 = []
    · rw [hroot]
      exact tree.node?_nil
    · refine h.parent _ (entry.1.getLast hroot) ?_
      rw [List.dropLast_concat_getLast]
      exact (tree.node?_ne_none_iff hroot).2 ⟨entry, hentry, rfl⟩
  · rintro ⟨hworking, hentries⟩
    refine ⟨hworking, fun place name hnode => ?_⟩
    obtain ⟨entry, hentry, hsame⟩ := (tree.node?_ne_none_iff (by simp)).1 hnode
    have hparent := hentries entry hentry
    rwa [hsame, List.dropLast_concat] at hparent

instance (tree : FileTree) : Decidable tree.IsSound :=
  decidable_of_iff _ tree.isSound_iff.symm

/-- No link is at the place. -/
def HasNoLink (tree : FileTree) (place : Place) : Prop :=
  ∀ target, tree.node? place ≠ some (.link target)

section Walks

variable {tree : FileTree} {place : Place}

theorem hasNoLink_of_directory (h : tree.node? place = some .directory) : tree.HasNoLink place := by
  intro target htarget
  rw [h] at htarget
  cases htarget

theorem IsSound.dropLast (h : tree.IsSound) (hplace : tree.node? place = some .directory) :
    tree.node? place.dropLast = some .directory := by
  cases place using List.reverseRecOn with
  | nil => exact hplace
  | append_singleton place name =>
      rw [List.dropLast_concat]
      exact h.parent place name (by simp [hplace])

/-- Steps arrive at no link, and a link they stop at is in a directory. -/
theorem IsSound.advance_spec
    (h : tree.IsSound) {steps : List String} {stop : Stop} (hplace : tree.HasNoLink place)
    (hadvance : tree.advance place steps = .ok stop) :
    (∀ last, stop = .arrived last → tree.HasNoLink last) ∧
      ∀ directory target rest, stop = .link directory target rest →
        tree.node? directory = some .directory := by
  induction steps generalizing place with
  | nil =>
      obtain rfl := Except.ok.inj hadvance
      refine ⟨?_, fun _ _ _ hlink => by cases hlink⟩
      rintro last ⟨⟩
      exact hplace
  | cons name rest ih =>
      rw [advance] at hadvance
      cases hfault : tree.directoryFault? place with
      | some fault => simp [hfault] at hadvance
      | none =>
          have hdirectory := (directoryFault?_eq_none_iff tree place).1 hfault
          rw [hfault] at hadvance
          dsimp only at hadvance
          split_ifs at hadvance
          · exact ih hplace hadvance
          · exact ih (hasNoLink_of_directory (h.dropLast hdirectory)) hadvance
          · split at hadvance
            · obtain rfl := Except.ok.inj hadvance
              refine ⟨fun _ harrived => (by cases harrived), ?_⟩
              rintro directory target rest ⟨⟩
              exact hdirectory
            · rename_i hnone
              exact ih hnone hadvance

theorem IsSound.hasNoLink_of_follow
    (h : tree.IsSound) {links : Nat} {steps : List String} {stop : Place}
    (hplace : tree.HasNoLink place) (hfollow : tree.follow links place steps = .ok stop) :
    tree.HasNoLink stop := by
  induction follow_eq_ok_iff.1 hfollow with
  | arrived hadvance => exact (h.advance_spec hplace hadvance).1 _ rfl
  | link hadvance harrives ih =>
      refine ih ?_ (follow_eq_ok_iff.2 harrives)
      rw [startOf]
      split
      · exact hasNoLink_of_directory tree.node?_nil
      · exact hasNoLink_of_directory ((h.advance_spec hplace hadvance).2 _ _ _ rfl)

theorem IsSound.hasNoLink_of_walk
    (h : tree.IsSound) {path : Path} {steps : List String} {stop : Place}
    (hwalk : tree.walk path steps = .ok stop) : tree.HasNoLink stop := by
  refine h.hasNoLink_of_follow ?_ hwalk
  rw [startOf]
  split
  · exact hasNoLink_of_directory tree.node?_nil
  · exact hasNoLink_of_directory h.workingDirectory

end Walks

/-- The later tree is the earlier one with directories made in it, one after the other. -/
inductive Makes (tree : FileTree) : FileTree → Prop where
  | refl : Makes tree tree
  | step {made : FileTree} (h : Makes tree made) {directory : Place} {name : String}
      (hdirectory : made.node? directory = some .directory)
      (hnone : made.node? (directory ++ [name]) = none) :
      Makes tree (made.put (directory ++ [name]) .directory)

theorem Makes.isSound {tree made : FileTree} (h : tree.Makes made) (htree : tree.IsSound) :
    made.IsSound := by
  induction h with
  | refl => exact htree
  | @step made _ directory name hdirectory hnone ih =>
      have hroot : directory ++ [name] ≠ [] := by simp
      have hkept : ∀ place, made.node? place = some .directory →
          (made.put (directory ++ [name]) .directory).node? place = some .directory := by
        intro place hplace
        rw [node?_put made hroot, hplace, ite_self]
      refine ⟨hkept _ ih.workingDirectory, fun place other hother => hkept place ?_⟩
      rw [node?_put made hroot] at hother
      split at hother
      · rename_i hsame
        rwa [(List.append_inj' hsame rfl).1]
      · exact ih.parent place other hother

/-- Nothing but directories is gained. -/
theorem Makes.exists_gains {tree made : FileTree} (h : tree.Makes made) :
    ∃ directories, ∀ content, tree.Gains made [] directories content := by
  induction h with
  | refl => exact ⟨[], fun content => .refl tree [] content⟩
  | step _ _ hnone ih =>
      obtain ⟨directories, hgains⟩ := ih
      exact ⟨directories ++ [_], fun content =>
        (hgains content).trans (gains_put_directory hnone content)⟩

theorem Makes.makeDirectory
    {tree made after : FileTree} (h : tree.Makes made) {path : Path}
    (hmake : made.makeDirectory path = .ok after) : tree.Makes after := by
  rw [FileTree.makeDirectory] at hmake
  split at hmake
  · cases hmake
  · split at hmake
    · cases hmake
    · split at hmake
      · cases hmake
      · rename_i directory _
        split_ifs at hmake
        rw [makeIn] at hmake
        cases hfault : made.directoryFault? directory with
        | some fault => simp [hfault, Except.mapError] at hmake
        | none =>
            rw [hfault] at hmake
            dsimp only at hmake
            split_ifs at hmake
            · cases hmake
            · split at hmake
              · cases hmake
              · rename_i hnone
                obtain rfl := Except.ok.inj hmake
                exact h.step ((directoryFault?_eq_none_iff _ _).1 hfault) hnone

/-- Making directories does nothing else, also when it fails. -/
theorem makes_makeDirectoriesFrom (tree : FileTree) (steps : List Component) :
    tree.Makes (tree.makeDirectoriesFrom steps).2 := by
  induction steps with
  | nil => exact .refl
  | cons last earlier ih =>
      rw [makeDirectoriesFrom]
      split
      · rename_i hmake
        exact Makes.refl.makeDirectory hmake
      · rcases hearlier : tree.makeDirectoriesFrom earlier with ⟨fault | _, made⟩
        · rw [hearlier] at ih
          exact ih
        · rw [hearlier] at ih
          dsimp only
          split
          · rename_i hmake
            exact ih.makeDirectory hmake
          · exact ih
      · exact .refl

end ComponentMarkers.FileTree
