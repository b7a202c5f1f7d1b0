import ComponentMarkers.Proofs.Path.Components

/-!
# Joined texts

Texts that were joined by a character that none of them contains are found again between its
occurrences, unless there were none of them.
-/

namespace ComponentMarkers.Text

/-- Nothing is in a joined text but what is in the separator or in one of the parts. -/
theorem mem_intercalate
    {separator : String} {parts : List String} {c : Char}
    (h : c ∈ (separator.intercalate parts).toList) :
    c ∈ separator.toList ∨ ∃ part ∈ parts, c ∈ part.toList := by
  induction parts with
  | nil => simp at h
  | cons part rest ih =>
      cases rest with
      | nil =>
          rw [String.intercalate_singleton] at h
          exact Or.inr ⟨part, List.mem_cons_self, h⟩
      | cons next others =>
          rw [String.intercalate_cons_cons, String.toList_append, String.toList_append,
            List.mem_append, List.mem_append] at h
          rcases h with (hpart | hseparator) | hrest
          · exact Or.inr ⟨part, List.mem_cons_self, hpart⟩
          · exact Or.inl hseparator
          · rcases ih hrest with hseparator | ⟨other, hother, hmem⟩
            · exact Or.inl hseparator
            · exact Or.inr ⟨other, List.mem_cons_of_mem _ hother, hmem⟩

/-- Fewer parts give less text. -/
theorem sublist_intercalate (separator : String) {parts pieces : List String}
    (h : parts.Sublist pieces) :
    (separator.intercalate parts).toList.Sublist (separator.intercalate pieces).toList := by
  induction h with
  | slnil => exact .refl _
  | @cons parts pieces piece _ ih =>
      cases pieces with
      | nil => exact ih.trans (List.nil_sublist _)
      | cons next others =>
          rw [String.intercalate_cons_cons, String.toList_append]
          exact ih.trans (List.sublist_append_right _ _)
  | @cons_cons parts pieces part hrest ih =>
      cases parts with
      | nil =>
          cases pieces with
          | nil => exact .refl _
          | cons next others =>
              rw [String.intercalate_singleton, String.intercalate_cons_cons,
                String.toList_append, String.toList_append, List.append_assoc]
              exact List.sublist_append_left _ _
      | cons first more =>
          cases pieces with
          | nil => cases hrest
          | cons next others =>
              simp only [String.intercalate_cons_cons, String.toList_append]
              exact ih.append_left _

theorem splitText_of_not_mem {mark : Char} {text : String} (h : mark ∉ text.toList) :
    splitText mark text = [text] := by
  rw [splitText, splitAt_of_not_mem h, List.map_singleton, String.ofList_toList]

/-- The parts of a joined text are found again, as long as none of them has the separator in it. -/
theorem splitText_intercalate
    {mark : Char} {parts : List String} (hne : parts ≠ [])
    (hparts : ∀ part ∈ parts, mark ∉ part.toList) :
    splitText mark ((String.singleton mark).intercalate parts) = parts := by
  induction parts with
  | nil => exact absurd rfl hne
  | cons part rest ih =>
      obtain ⟨hpart, hrest⟩ := List.forall_mem_cons.1 hparts
      cases rest with
      | nil => rw [String.intercalate_singleton, splitText_of_not_mem hpart]
      | cons next others =>
          have hlist : (part ++ String.singleton mark ++
              (String.singleton mark).intercalate (next :: others)).toList =
                part.toList ++ mark ::
                  ((String.singleton mark).intercalate (next :: others)).toList := by
            simp
          have hmore := ih (List.cons_ne_nil next others) hrest
          rw [splitText] at hmore
          rw [String.intercalate_cons_cons, splitText, hlist, splitAt_append_cons, List.map_append,
            hmore, splitAt_of_not_mem hpart, List.map_singleton, String.ofList_toList,
            List.singleton_append]

theorem intercalate_splitAt {α : Type} [DecidableEq α] (mark : α) (l : List α) :
    [mark].intercalate (splitAt mark l) = l := by
  induction l with
  | nil => rfl
  | cons x rest ih =>
      rw [splitAt]
      by_cases hx : x = mark
      · rw [if_pos hx]
        cases hpieces : splitAt mark rest with
        | nil => exact absurd hpieces (splitAt_ne_nil mark rest)
        | cons piece pieces =>
            rw [hpieces] at ih
            rw [List.intercalate_cons_cons, ih, hx]
            rfl
      · rw [if_neg hx]
        cases hpieces : splitAt mark rest with
        | nil => exact absurd hpieces (splitAt_ne_nil mark rest)
        | cons piece pieces =>
            rw [hpieces] at ih
            cases pieces with
            | nil =>
                rw [List.intercalate_singleton] at ih ⊢
                rw [ih]
            | cons next others =>
                rw [List.intercalate_cons_cons] at ih ⊢
                rw [List.cons_append, List.cons_append, ih]

/-- Joining the pieces of a text gives the text back. -/
theorem intercalate_splitText (mark : Char) (text : String) :
    (String.singleton mark).intercalate (splitText mark text) = text := by
  apply String.toList_injective
  have hpieces : (splitText mark text).map String.toList = splitAt mark text.toList := by
    rw [splitText, List.map_map]
    exact (List.map_congr_left fun chars _ => String.toList_ofList).trans (List.map_id _)
  rw [String.toList_intercalate, hpieces, String.toList_singleton, intercalate_splitAt]

end ComponentMarkers.Text
