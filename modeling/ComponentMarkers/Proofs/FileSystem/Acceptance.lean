import ComponentMarkers.FileSystem.Tree
import ComponentMarkers.Proofs.Path.Spelling
import Mathlib.Data.String.Basic

/-!
# Paths that the file system looks at

A path that the file system looks at has no character that ends a text and is not too long.  Its
plainest spelling leaves characters out and adds none, so that is looked at as well, and so are the
paths of the steps it begins with.
-/

namespace ComponentMarkers

open Text Component

namespace Path

theorem text_of_ofPiece? {piece : String} {step : Component} (h : ofPiece? piece = some step) :
    step.text = piece := by
  rw [ofPiece?.eq_def] at h
  split at h
  · cases h
  · cases h
  · rw [← Option.some.inj h]
    rfl
  · rw [← Option.some.inj h]
    rfl

theorem sublist_map_text (pieces : List String) :
    ((pieces.filterMap ofPiece?).map Component.text).Sublist pieces := by
  induction pieces with
  | nil => exact .slnil
  | cons piece rest ih =>
      rw [List.filterMap_cons]
      cases hstep : ofPiece? piece with
      | none => exact ih.cons piece
      | some step =>
          dsimp only
          rw [List.map_cons, text_of_ofPiece? hstep]
          exact ih.cons_cons piece

/-- The plainest spelling of a path is left when characters are taken out of any other one. -/
theorem sublist_ofComponents (path : Path) :
    (ofComponents path.components).text.toList.Sublist path.text.toList := by
  have hjoined : ∀ text, "/".intercalate (splitText '/' text) = text := intercalate_splitText '/'
  rw [components_eq, lead]
  by_cases habsolute : path.isAbsolute
  · obtain ⟨rest, hrest⟩ : ∃ rest, path.text = "/" ++ rest := by
      obtain ⟨chars, hchars⟩ := List.head?_eq_some_iff.1 (of_decide_eq_true habsolute)
      refine ⟨String.ofList chars, String.toList_injective ?_⟩
      rw [hchars]
      simp
    have hbetween : stepsBetween path.text = stepsBetween rest := by
      have hslash := stepsBetween_append_slash "" rest
      rwa [stepsBetween_empty, List.nil_append, String.empty_append, ← hrest] at hslash
    have hsteps := sublist_intercalate "/" (sublist_map_text (splitText '/' rest))
    rw [hjoined] at hsteps
    rw [if_pos habsolute, List.singleton_append, text_ofComponents_root, hbetween, hrest,
      String.toList_append, String.toList_append]
    exact hsteps.append_left _
  · rw [if_neg habsolute]
    have hroot : ∀ steps : List Component, steps = [] ∨ steps = [.current] →
        (steps ++ stepsBetween path.text).head? ≠ some .root := by
      rintro steps (rfl | rfl) hhead
      · cases isStep_of_mem_stepsBetween (List.mem_of_mem_head? hhead)
      · cases hhead
    by_cases hcurrent : (splitText '/' path.text).head? = some "."
    · obtain ⟨pieces, hpieces⟩ := List.head?_eq_some_iff.1 hcurrent
      have hsteps := sublist_intercalate "/" ((sublist_map_text pieces).cons_cons ".")
      rw [← hpieces, hjoined] at hsteps
      rw [if_pos hcurrent, text_ofComponents (hroot _ (Or.inr rfl)), stepsBetween, hpieces]
      exact hsteps
    · have hsteps := sublist_intercalate "/" (sublist_map_text (splitText '/' path.text))
      rw [hjoined] at hsteps
      rw [if_neg hcurrent, text_ofComponents (hroot _ (Or.inl rfl))]
      exact hsteps

theorem IsSpelt.text_ne_empty
    {steps : List Component} (h : IsSpelt steps) (hne : steps ≠ []) :
    (ofComponents steps).text ≠ "" := by
  cases h with
  | empty => exact absurd rfl hne
  | root => decide
  | current => decide
  | step _ hstep => exact (ofComponents_concat_spec _ hstep).1

theorem IsSpelt.isStep_of_concat
    {before : List Component} {step : Component} (h : IsSpelt (before ++ [step]))
    (hbefore : before ≠ []) : step.IsStep := by
  generalize hsteps : before ++ [step] = steps at h
  cases h with
  | empty => simp at hsteps
  | root => exact absurd (List.append_eq_singleton_iff.1 hsteps) (by simp [hbefore])
  | current => exact absurd (List.append_eq_singleton_iff.1 hsteps) (by simp [hbefore])
  | step _ hstep =>
      obtain rfl : step = _ := by simpa using (List.append_inj' hsteps rfl).2
      exact hstep

/-- Steps that others begin with have a spelling that the spelling of the others begins with. -/
theorem IsSpelt.prefix_ofComponents
    {steps more : List Component} (h : IsSpelt (steps ++ more)) :
    (ofComponents steps).text.toList <+: (ofComponents (steps ++ more)).text.toList := by
  induction more using List.reverseRecOn with
  | nil => simp only [List.append_nil, List.prefix_rfl]
  | append_singleton more step ih =>
      rw [← List.append_assoc] at h ⊢
      refine (ih h.of_append).trans ?_
      by_cases hbefore : steps ++ more = []
      · rw [hbefore]
        exact List.nil_prefix
      · have hstep := h.isStep_of_concat hbefore
        have hrelative : ¬ isAbsolute ⟨step.text⟩ := by
          rw [isAbsolute_iff_lead, (path_of_isStep hstep).1]
          simp
        rw [ofComponents_concat h.of_append hstep, join, if_neg hrelative]
        split
        · rw [String.toList_append]
          exact List.prefix_append _ _
        · rw [String.toList_append, String.toList_append, List.append_assoc]
          exact List.prefix_append _ _

end Path

namespace FileTree

/-- The file system takes the path: it looks at it, and no step of it is too long. -/
structure Accepts (path : Path) : Prop where
  pathFault?_eq : pathFault? path = none
  length_le : ∀ step ∈ path.components, step.text.utf8ByteSize ≤ longestName

instance (path : Path) : Decidable (Accepts path) :=
  decidable_of_iff
    (pathFault? path = none ∧ ∀ step ∈ path.components, step.text.utf8ByteSize ≤ longestName)
    ⟨fun h => ⟨h.1, h.2⟩, fun h => ⟨h.pathFault?_eq, h.length_le⟩⟩

/-- With a path the file system looks at the steps it begins with. -/
theorem pathFault?_ofComponents
    {path : Path} (h : pathFault? path = none) {steps : List Component}
    (hsteps : steps <+: path.components) (hne : steps ≠ []) :
    pathFault? (Path.ofComponents steps) = none := by
  obtain ⟨more, hmore⟩ := hsteps
  have hspelt := Path.isSpelt_components path
  rw [← hmore] at hspelt
  have hsublist : (Path.ofComponents steps).text.toList.Sublist path.text.toList := by
    have hwhole := path.sublist_ofComponents
    rw [← hmore] at hwhole
    exact hspelt.prefix_ofComponents.sublist.trans hwhole
  have hempty := hspelt.of_append.text_ne_empty hne
  have hsize := String.utf8Len_le_of_sublist hsublist
  rw [String.utf8Len_toList, String.utf8Len_toList] at hsize
  rw [pathFault?] at h ⊢
  split_ifs at h with hnul _ hlong
  rw [if_neg, if_neg (by simpa using hempty), if_neg (by omega)]
  simp only [List.contains_eq_mem, decide_eq_true_eq] at hnul ⊢
  exact fun hmem => hnul (hsublist.subset hmem)

end FileTree

end ComponentMarkers
