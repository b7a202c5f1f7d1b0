import ComponentMarkers.Proofs.Text.Joined

/-!
# Dotted names at their first and last dot

A text without dots is its only segment.  A text with dots is put together again from what stands before
and after its first dot, and from what stands before and after its last one.
-/

namespace ComponentMarkers.Text

/-- The dotted name is `last`, or ends with a dot and `last`. -/
def EndsIn (name last : String) : Prop :=
  name = last ∨ ∃ owner, name = owner ++ "." ++ last

theorem toList_append_dot (owner rest : String) :
    (owner ++ "." ++ rest).toList = owner.toList ++ '.' :: rest.toList := by
  simp

theorem toList_intercalate_dot (first next : String) (rest : List String) :
    (".".intercalate (first :: next :: rest)).toList =
      first.toList ++ '.' :: (".".intercalate (next :: rest)).toList := by
  rw [String.intercalate_cons_cons, toList_append_dot]

/-- A joined text begins with its first part. -/
theorem exists_toList_intercalate_dot (first : String) (rest : List String) :
    ∃ more, (".".intercalate (first :: rest)).toList = first.toList ++ more := by
  cases rest with
  | nil => exact ⟨[], by simp⟩
  | cons next others => exact ⟨_, toList_intercalate_dot first next others⟩

theorem segments_of_not_mem {name : String} (h : '.' ∉ name.toList) : segments name = [name] :=
  splitText_of_not_mem h

theorem segments_append_dot (owner rest : String) :
    segments (owner ++ "." ++ rest) = segments owner ++ segments rest := by
  rw [segments, splitText, toList_append_dot, splitAt_append_cons, List.map_append]
  rfl

theorem segments_ne_nil (name : String) : segments name ≠ [] :=
  mt List.map_eq_nil_iff.1 (splitAt_ne_nil '.' name.toList)

/-- Joined by dots the segments are the name. -/
theorem intercalate_segments (name : String) : ".".intercalate (segments name) = name :=
  intercalate_splitText '.' name

section First

theorem splitFirst?_of_not_mem {name : String} (h : '.' ∉ name.toList) : splitFirst? name = none := by
  rw [splitFirst?, segments_of_not_mem h]

theorem splitFirst?_append_dot {first : String} (h : '.' ∉ first.toList) (rest : String) :
    splitFirst? (first ++ "." ++ rest) = some (first, rest) := by
  obtain ⟨next, others, hrest⟩ := List.exists_cons_of_ne_nil (segments_ne_nil rest)
  rw [splitFirst?, segments_append_dot, segments_of_not_mem h, hrest, List.singleton_append]
  dsimp only
  rw [← hrest, intercalate_segments]

end First

section Last

theorem splitLast?_of_not_mem {name : String} (h : '.' ∉ name.toList) : splitLast? name = none := by
  rw [splitLast?, segments_of_not_mem h]
  rfl

theorem splitLast?_append_dot (owner : String) {last : String} (h : '.' ∉ last.toList) :
    splitLast? (owner ++ "." ++ last) = some (owner, last) := by
  obtain ⟨final, earlier, howner⟩ :=
    List.exists_cons_of_ne_nil (mt List.reverse_eq_nil_iff.1 (segments_ne_nil owner))
  rw [splitLast?, segments_append_dot, segments_of_not_mem h, List.reverse_append, howner,
    List.reverse_singleton, List.singleton_append]
  dsimp only
  rw [← howner, List.reverse_reverse, intercalate_segments]

/-- A text has no dot, or something stands after its last one. -/
theorem exists_last_dot (name : String) :
    '.' ∉ name.toList ∨ ∃ owner last, '.' ∉ last.toList ∧ name = owner ++ "." ++ last := by
  by_cases h : '.' ∈ name.toList
  · obtain ⟨after, before, hname, hafter⟩ := List.eq_append_cons_of_mem (List.mem_reverse.2 h)
    refine Or.inr ⟨String.ofList before.reverse, String.ofList after.reverse, ?_, ?_⟩
    · rwa [String.toList_ofList, List.mem_reverse]
    · apply String.toList_injective
      rw [toList_append_dot, String.toList_ofList, String.toList_ofList, List.reverse_eq_iff.1 hname,
        List.reverse_append, List.reverse_cons, List.append_assoc, List.singleton_append]
  · exact Or.inl h

theorem lastSegment_of_not_mem {name : String} (h : '.' ∉ name.toList) : lastSegment name = name := by
  rw [lastSegment, segments_of_not_mem h]
  rfl

theorem lastSegment_append_dot (owner : String) {last : String} (h : '.' ∉ last.toList) :
    lastSegment (owner ++ "." ++ last) = last := by
  rw [lastSegment, segments_append_dot, segments_of_not_mem h, List.getLast?_concat]
  rfl

/-- The last segment of a name is the text that it ends in. -/
theorem lastSegment_eq_iff {last : String} (h : '.' ∉ last.toList) (name : String) :
    lastSegment name = last ↔ EndsIn name last := by
  constructor
  · rintro rfl
    rcases exists_last_dot name with hname | ⟨owner, last, hlast, rfl⟩
    · exact Or.inl (lastSegment_of_not_mem hname).symm
    · rw [lastSegment_append_dot owner hlast]
      exact Or.inr ⟨owner, rfl⟩
  · rintro (rfl | ⟨owner, rfl⟩)
    · exact lastSegment_of_not_mem h
    · exact lastSegment_append_dot owner h

end Last

theorem qualify_empty (name : String) : qualify "" name = name :=
  rfl

theorem qualify_of_ne_empty {owner : String} (h : owner ≠ "") (name : String) :
    qualify owner name = owner ++ "." ++ name := by
  rw [qualify, String.isEmpty_eq_false_iff.2 h]
  rfl

end ComponentMarkers.Text
