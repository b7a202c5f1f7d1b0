import ComponentMarkers.Log.File
import ComponentMarkers.Proofs.Filer.Disk
import ComponentMarkers.Proofs.FileSystem.Soundness

/-!
# What opening a log file does

In a sound tree, opening the log file of a command makes directories and at most one file, which holds
what it held before.  Events that are added change that file and nothing else.
-/

namespace ComponentMarkers.FileTree

/-- A file that is opened to be added to holds what it held; else nothing was there. -/
theorem IsSound.gains_openFile
    {tree after : FileTree} (h : tree.IsSound) {path : Path} {place : Place}
    (hopen : tree.openFile true path = .ok (place, after)) :
    ∃ content, ∀ directories, tree.Gains after [place] directories content := by
  rw [openFile] at hopen
  split at hopen
  · cases hopen
  · split at hopen
    · split at hopen
      · cases hopen
      · cases hopen
    · split at hopen
      · cases hopen
      · rename_i stop hwalk
        have hlink := h.hasNoLink_of_walk hwalk
        rw [openAt] at hopen
        rcases hnode : tree.node? stop with _ | (_ | content | target)
        · rw [hnode] at hopen
          obtain ⟨rfl, rfl⟩ := Prod.mk.inj (Except.ok.inj hopen)
          have hroot : stop ≠ [] := by
            rintro rfl
            rw [node?_nil] at hnode
            cases hnode
          exact ⟨[], gains_of_node? (Or.inl hnode) rfl (node?_put tree hroot (.file []))⟩
        · rw [hnode] at hopen
          cases hopen
        · rw [hnode] at hopen
          obtain ⟨rfl, rfl⟩ := Prod.mk.inj (Except.ok.inj hopen)
          refine ⟨content, gains_of_node? (Or.inr ⟨content, hnode⟩) rfl fun other => ?_⟩
          rw [if_pos rfl]
          by_cases hsame : other = stop
          · rw [if_pos hsame, hsame, hnode]
          · rw [if_neg hsame]
        · exact absurd hnode (hlink target)

/-- Opening a log file makes directories and the file, when that is not there yet, and no more. -/
theorem IsSound.exists_gains_openLogFile
    {tree : FileTree} (h : tree.IsSound) (home : Path) (target : LogTarget) (day : String) :
    ∃ directories content,
      tree.Gains (tree.openLogFile home target day).2
        (tree.openLogFile home target day).1.toOption.toList directories content := by
  unfold openLogFile
  dsimp only
  split
  · rename_i hopen
    obtain ⟨content, hgains⟩ := h.gains_openFile hopen
    exact ⟨[], content, hgains []⟩
  · have hmakes := tree.makes_makeDirectoriesFrom (logDirectory home).components.reverse
    obtain ⟨directories, hmade⟩ := hmakes.exists_gains
    rcases hmake : tree.makeDirectories (logDirectory home).components with ⟨fault | _, made⟩
    · rw [← makeDirectories, hmake] at hmade
      exact ⟨directories, [], hmade []⟩
    · rw [← makeDirectories, hmake] at hmakes hmade
      dsimp only
      split
      · rename_i hopen
        obtain ⟨content, hgains⟩ := (hmakes.isSound h).gains_openFile hopen
        have hwhole := (hmade content).trans (hgains [])
        rw [List.append_nil] at hwhole
        exact ⟨directories, content, hwhole⟩
      · exact ⟨directories, [], hmade []⟩

/-- Events are added to one file. -/
theorem node?_appendEvents
    (tree : FileTree) {place other : Place} (hother : other ≠ place) (events : List LogEvent) :
    (tree.appendEvents place events).node? other = tree.node? other := by
  rw [appendEvents]
  cases hnode : tree.node? place with
  | none => rfl
  | some node =>
      cases node with
      | directory => rfl
      | link => rfl
      | file content =>
          have hroot : place ≠ [] := by
            rintro rfl
            rw [node?_nil] at hnode
            cases hnode
          dsimp only
          rw [writeAt, hnode]
          dsimp only
          rw [node?_put tree hroot, if_neg hother]

end ComponentMarkers.FileTree
