import Mathlib.Data.List.Basic

/-!
# Lists

What is at an index of a list that is longer by one entry, how rows stand in a list, and lists that are gone
through with an operation that may fail but does not.
-/

namespace ComponentMarkers

variable {α β ε : Type}

/-- What is at an index of a list with one more entry was there before or is this entry. -/
theorem getElem?_concat_eq_some_iff {entries : List α} {last entry : α} {i : Nat} :
    (entries ++ [last])[i]? = some entry ↔
      entries[i]? = some entry ∨ i = entries.length ∧ last = entry := by
  rcases Nat.lt_trichotomy i entries.length with hlt | rfl | hgt
  · rw [List.getElem?_append_left hlt]
    simp [Nat.ne_of_lt hlt]
  · rw [List.getElem?_concat_length, List.getElem?_eq_none (Nat.le_refl _)]
    simp
  · have hnone : (entries ++ [last])[i]? = none :=
      List.getElem?_eq_none (by rw [List.length_append]; exact hgt)
    rw [hnone, List.getElem?_eq_none (Nat.le_of_lt hgt)]
    simp [Nat.ne_of_gt hgt]

/-- Two rows stand one behind the other. -/
theorem append_isPrefix_drop
    {before after row : List α} {n : Nat} (hbefore : before <+: row.drop n)
    (hafter : after <+: row.drop (n + before.length)) : before ++ after <+: row.drop n := by
  obtain ⟨rest, hrest⟩ := hbefore
  have hdrop : row.drop (n + before.length) = rest := by
    rw [← List.drop_drop, ← hrest, List.drop_left]
  rw [hdrop] at hafter
  rw [← hrest]
  exact (List.prefix_append_right_inj before).2 hafter

/-! ## Operations that may fail -/

theorem mapM_eq_ok {f : α → Except ε β} {g : α → β} {entries : List α}
    (h : ∀ entry ∈ entries, f entry = .ok (g entry)) :
    entries.mapM f = .ok (entries.map g) := by
  induction entries with
  | nil => rfl
  | cons entry rest ih =>
      obtain ⟨hentry, hrest⟩ := List.forall_mem_cons.1 h
      rw [List.mapM_cons, hentry, ih hrest]
      rfl

theorem anyM_eq_ok {f : α → Except ε Bool} {p : α → Bool} {entries : List α}
    (h : ∀ entry ∈ entries, f entry = .ok (p entry)) :
    entries.anyM f = .ok (entries.any p) := by
  induction entries with
  | nil => rfl
  | cons entry rest ih =>
      obtain ⟨hentry, hrest⟩ := List.forall_mem_cons.1 h
      rw [List.anyM_cons, hentry, ih hrest, List.any_cons]
      cases p entry <;> rfl

theorem findM?_eq_ok {f : α → Except ε Bool} {p : α → Bool} {entries : List α}
    (h : ∀ entry ∈ entries, f entry = .ok (p entry)) :
    entries.findM? f = .ok (entries.find? p) := by
  induction entries with
  | nil => rfl
  | cons entry rest ih =>
      obtain ⟨hentry, hrest⟩ := List.forall_mem_cons.1 h
      rw [List.findM?, hentry, ih hrest, List.find?_cons]
      cases p entry <;> rfl

theorem filterM_eq_ok {f : α → Except ε Bool} {p : α → Bool} {entries : List α}
    (h : ∀ entry ∈ entries, f entry = .ok (p entry)) :
    entries.filterM f = .ok (entries.filter p) := by
  have hfrom : ∀ chosen, entries.filterAuxM f chosen = .ok ((entries.filter p).reverse ++ chosen) := by
    induction entries with
    | nil => exact fun _ => rfl
    | cons entry rest ih =>
        obtain ⟨hentry, hrest⟩ := List.forall_mem_cons.1 h
        intro chosen
        rw [List.filterAuxM, hentry]
        change rest.filterAuxM f _ = _
        rw [ih hrest, List.filter_cons]
        cases p entry
        · rfl
        · simp
  rw [List.filterM, hfrom]
  simp [bind, Except.bind, pure, Except.pure]

end ComponentMarkers
