import ComponentMarkers.Proofs.FileSystem.Resolution
import Mathlib.Data.List.Nodup
import Mathlib.Data.List.Perm.Subperm

/-!
# Going down by names

A path may go on from a directory by the names of what is in it.  In a tree that a file system can hold
there are directories only on such a way, and the way has no more names than the tree has entries.
-/

namespace ComponentMarkers

open Component

namespace Path

/-- The path that goes on from a directory by names. -/
def descend (directory : Path) (names : List String) : Path :=
  names.foldl (fun path name => path.join ⟨name⟩) directory

theorem descend_cons (directory : Path) (name : String) (names : List String) :
    directory.descend (name :: names) = (directory.join ⟨name⟩).descend names :=
  List.foldl_cons ..

section Descending

variable {names : List String} (directory : Path) (hnames : ∀ name ∈ names, IsName name)
include hnames

theorem components_descend :
    (directory.descend names).components = directory.components ++ names.map .normal := by
  induction names generalizing directory with
  | nil => simp [descend]
  | cons name rest ih =>
      obtain ⟨hname, hrest⟩ := List.forall_mem_cons.1 hnames
      obtain ⟨hlead, hcomponents, -⟩ := path_of_isStep (.normal hname)
      rw [Component.text] at hlead hcomponents
      rw [descend_cons, ih (directory.join ⟨name⟩) hrest, components_join directory hlead, hcomponents,
        List.append_assoc, List.singleton_append, List.map_cons]

/-- Ways down by different names are different paths. -/
theorem descend_inj {others : List String} (hothers : ∀ name ∈ others, IsName name)
    (h : (directory.descend names).components = (directory.descend others).components) :
    names = others := by
  rw [components_descend directory hnames, components_descend directory hothers] at h
  exact map_normal_inj.1 (List.append_cancel_left h)

end Descending

end Path

namespace FileTree

/-- The tree is one that a file system may hold: everything stands in a directory, and every name is a step
to itself, has no null character and is not too long. -/
structure IsStorable (tree : FileTree) : Prop extends tree.IsSound where
  isName : ∀ entry ∈ tree.entries, ∀ name ∈ entry.1, IsName name
  nul_not_mem : ∀ entry ∈ tree.entries, ∀ name ∈ entry.1, '\x00' ∉ name.toList
  length_le : ∀ entry ∈ tree.entries, ∀ name ∈ entry.1, name.utf8ByteSize ≤ longestName

theorem isStorable_iff (tree : FileTree) :
    tree.IsStorable ↔ tree.IsSound ∧ ∀ entry ∈ tree.entries, ∀ name ∈ entry.1,
      IsName name ∧ '\x00' ∉ name.toList ∧ name.utf8ByteSize ≤ longestName :=
  ⟨fun h => ⟨h.toIsSound, fun entry hentry name hname => ⟨h.isName entry hentry name hname,
      h.nul_not_mem entry hentry name hname, h.length_le entry hentry name hname⟩⟩,
    fun h => ⟨h.1, fun entry hentry name hname => (h.2 entry hentry name hname).1,
      fun entry hentry name hname => (h.2 entry hentry name hname).2.1,
      fun entry hentry name hname => (h.2 entry hentry name hname).2.2⟩⟩

instance (tree : FileTree) : Decidable tree.IsStorable :=
  decidable_of_iff _ tree.isStorable_iff.symm

section Below

variable {tree : FileTree} {place : Place} {names : List String}

theorem isDirectoryAt_iff : tree.isDirectoryAt place ↔ tree.node? place = some .directory :=
  decide_eq_true_iff

/-- What has something behind it is a directory. -/
theorem IsSound.directory_of_append
    (h : tree.IsSound) (hnode : tree.node? (place ++ names) ≠ none) (hne : names ≠ []) :
    tree.node? place = some .directory := by
  induction names using List.reverseRecOn with
  | nil => exact absurd rfl hne
  | append_singleton names name ih =>
      rw [← List.append_assoc] at hnode
      have hparent := h.parent _ _ hnode
      by_cases hnil : names = []
      · rwa [hnil, List.append_nil] at hparent
      · exact ih (by simp [hparent]) hnil

theorem IsStorable.forall_isName
    (h : tree.IsStorable) (hnode : tree.node? (place ++ names) ≠ none) :
    ∀ name ∈ names, IsName name := by
  intro name hname
  obtain ⟨entry, hentry, hplace⟩ := (tree.node?_ne_none_iff
    (List.append_ne_nil_of_right_ne_nil _ (List.ne_nil_of_mem hname))).1 hnode
  exact h.isName entry hentry name (hplace ▸ List.mem_append_right _ hname)

/-- A way down has no more names than the tree has entries. -/
theorem IsSound.length_le_of_node?
    (h : tree.IsSound) (hnode : tree.node? (place ++ names) ≠ none) :
    names.length ≤ tree.entries.length := by
  have hlengths : (placesOn place names).map List.length =
      (List.range names.length).map fun n => place.length + (n + 1) := by
    induction names using List.reverseRecOn with
    | nil => simp [placesOn]
    | append_singleton names name ih =>
        rw [← List.append_assoc] at hnode
        have hparent := h.parent _ _ hnode
        rw [placesOn_concat, List.map_append, ih (by simp [hparent]), List.length_append,
          List.length_singleton, List.range_succ, List.map_append]
        simp
  have hnodup : (placesOn place names).Nodup := by
    apply List.Nodup.of_map List.length
    rw [hlengths]
    exact List.nodup_range.map fun m n hmn => by simpa using hmn
  have hsubset : placesOn place names ⊆ tree.entries.map Prod.fst := by
    intro other hother
    obtain ⟨init, hinit, ⟨rest, rfl⟩, rfl⟩ := (mem_placesOn_iff _ _ _).1 hother
    have hsome : tree.node? (place ++ init) ≠ none := by
      by_cases hrest : rest = []
      · rwa [hrest, List.append_nil] at hnode
      · rw [← List.append_assoc] at hnode
        simp [h.directory_of_append hnode hrest]
    obtain ⟨entry, hentry, hplace⟩ := (tree.node?_ne_none_iff (by simp [hinit])).1 hsome
    exact List.mem_map.2 ⟨entry, hentry, hplace⟩
  have hle := (List.subperm_of_subset hnodup hsubset).length_le
  have hcount := congrArg List.length hlengths
  simp only [List.length_map, List.length_range] at hle hcount
  omega

end Below

end FileTree

end ComponentMarkers
