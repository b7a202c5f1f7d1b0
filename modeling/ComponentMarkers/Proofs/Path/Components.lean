import ComponentMarkers.ResourcePath

/-!
# The steps of joined paths

The components of a path are the way it begins and the steps between its slashes.  Joining a path that
does not begin at the root appends its steps; joining one that does forgets what was there.
-/

namespace ComponentMarkers

namespace Text

variable {α : Type} [DecidableEq α] {mark : α}

theorem splitAt_ne_nil (mark : α) (l : List α) : splitAt mark l ≠ [] := by
  induction l with
  | nil => simp [splitAt]
  | cons x rest ih =>
      rw [splitAt]
      split
      · simp
      · split
        · simp
        · simp

theorem splitAt_of_not_mem {l : List α} (h : mark ∉ l) : splitAt mark l = [l] := by
  induction l with
  | nil => rfl
  | cons x rest ih =>
      rw [List.mem_cons, not_or] at h
      rw [splitAt, if_neg (Ne.symm h.1), ih h.2]

/-- A separator ends one piece and begins the next. -/
theorem splitAt_append_cons (before after : List α) :
    splitAt mark (before ++ mark :: after) = splitAt mark before ++ splitAt mark after := by
  induction before with
  | nil =>
      rw [List.nil_append, splitAt, splitAt, if_pos rfl]
      rfl
  | cons x rest ih =>
      rw [List.cons_append, splitAt, splitAt]
      by_cases hx : x = mark
      · rw [if_pos hx, if_pos hx, ih, List.cons_append]
      · rw [if_neg hx, if_neg hx, ih]
        cases hpieces : splitAt mark rest with
        | nil => exact absurd hpieces (splitAt_ne_nil mark rest)
        | cons piece pieces => rfl

/-- What is in a piece is in the whole, and it is not the separator. -/
theorem mem_of_mem_splitAt
    {l piece : List α} (hpiece : piece ∈ splitAt mark l) {x : α} (hx : x ∈ piece) :
    x ∈ l ∧ x ≠ mark := by
  induction l generalizing piece with
  | nil =>
      obtain rfl := List.mem_singleton.1 hpiece
      cases hx
  | cons y rest ih =>
      rw [splitAt] at hpiece
      split at hpiece
      · rcases List.mem_cons.1 hpiece with rfl | hpiece
        · cases hx
        · obtain ⟨hmem, hne⟩ := ih hpiece hx
          exact ⟨List.mem_cons_of_mem _ hmem, hne⟩
      · rename_i hy
        split at hpiece
        · obtain rfl := List.mem_singleton.1 hpiece
          obtain rfl := List.mem_singleton.1 hx
          exact ⟨List.mem_cons_self, hy⟩
        · rename_i first pieces hpieces
          rcases List.mem_cons.1 hpiece with rfl | hpiece
          · rcases List.mem_cons.1 hx with rfl | hx
            · exact ⟨List.mem_cons_self, hy⟩
            · obtain ⟨hmem, hne⟩ := ih (hpieces ▸ List.mem_cons_self) hx
              exact ⟨List.mem_cons_of_mem _ hmem, hne⟩
          · obtain ⟨hmem, hne⟩ := ih (hpieces ▸ List.mem_cons_of_mem _ hpiece) hx
            exact ⟨List.mem_cons_of_mem _ hmem, hne⟩

end Text

open Text

namespace Path

/-- The steps between the slashes of a text. -/
def stepsBetween (text : String) : List Component :=
  (splitText '/' text).filterMap Component.ofPiece?

/-- The step with which a path begins, if it begins at the root or says that it begins here. -/
def lead (path : Path) : List Component :=
  if path.isAbsolute then [.root]
  else if (splitText '/' path.text).head? = some "." then [.current]
  else []

theorem components_eq (path : Path) : path.components = path.lead ++ stepsBetween path.text := by
  rw [components, lead, stepsBetween]
  cases hsplit : splitText '/' path.text with
  | nil => exact absurd (List.map_eq_nil_iff.1 hsplit) (splitAt_ne_nil _ _)
  | cons first pieces =>
      dsimp only
      by_cases habsolute : path.isAbsolute
      · -- Nothing stands before the first slash.
        have hfirst : first = "" := by
          obtain ⟨text⟩ := path
          rw [splitText] at hsplit
          rw [isAbsolute] at habsolute
          cases hlist : text.toList with
          | nil => simp [hlist] at habsolute
          | cons c rest =>
              obtain rfl : c = '/' := by simpa [hlist] using habsolute
              rw [hlist, splitAt, if_pos rfl] at hsplit
              exact (List.cons.inj hsplit).1.symm
        rw [if_pos habsolute, if_pos habsolute, hfirst]
        rfl
      · rw [if_neg habsolute, if_neg habsolute]
        by_cases hfirst : first = "."
        · rw [if_pos hfirst, hfirst]
          rfl
        · rw [if_neg hfirst, if_neg (by simpa using hfirst), List.nil_append,
            List.filterMap_cons]
          cases Component.ofPiece? first <;> rfl

theorem stepsBetween_empty : stepsBetween "" = [] := by
  rw [stepsBetween, splitText, String.toList_empty]
  rfl

theorem stepsBetween_append_slash (before after : String) :
    stepsBetween (before ++ "/" ++ after) = stepsBetween before ++ stepsBetween after := by
  have hlist : (before ++ "/" ++ after).toList = before.toList ++ '/' :: after.toList := by
    simp
  rw [stepsBetween, splitText, hlist, splitAt_append_cons, List.map_append, List.filterMap_append]
  rfl

/-- The pieces of a path are not changed by what is put behind a slash. -/
theorem lead_append_slash
    {before : String} (hbefore : before ≠ "") (after : String) :
    lead ⟨before ++ "/" ++ after⟩ = lead ⟨before⟩ := by
  have hlist : (before ++ "/" ++ after).toList = before.toList ++ '/' :: after.toList := by
    simp
  have habsolute : isAbsolute ⟨before ++ "/" ++ after⟩ = isAbsolute ⟨before⟩ := by
    rw [isAbsolute, isAbsolute, hlist]
    cases hchars : before.toList with
    | nil => exact absurd (String.toList_eq_nil_iff.1 hchars) hbefore
    | cons c rest => rfl
  have hfirst : (splitText '/' (before ++ "/" ++ after)).head? = (splitText '/' before).head? := by
    rw [splitText, hlist, splitAt_append_cons, List.map_append]
    cases hpieces : (splitAt '/' before.toList).map String.ofList with
    | nil => exact absurd (List.map_eq_nil_iff.1 hpieces) (splitAt_ne_nil _ _)
    | cons first pieces =>
        rw [splitText, hpieces]
        rfl
  rw [lead, lead, habsolute, hfirst]

theorem lead_of_isAbsolute {path : Path} (h : path.isAbsolute) : path.lead = [.root] := by
  rw [lead, if_pos h]

theorem isAbsolute_iff_lead (path : Path) : path.isAbsolute ↔ path.lead = [.root] := by
  constructor
  · exact lead_of_isAbsolute
  · intro h
    rw [lead] at h
    split at h
    · assumption
    · split at h
      · cases h
      · cases h

/-- Behind a slash nothing has a say in how a path begins. -/
theorem lead_slash (before after other : String) :
    lead ⟨before ++ "/" ++ after⟩ = lead ⟨before ++ "/" ++ other⟩ := by
  by_cases hbefore : before = ""
  · have habsolute : ∀ rest : String, isAbsolute ⟨before ++ "/" ++ rest⟩ := by
      intro rest
      simp [isAbsolute, hbefore]
    rw [lead_of_isAbsolute (habsolute after), lead_of_isAbsolute (habsolute other)]
  · rw [lead_append_slash hbefore, lead_append_slash hbefore]

/-- A text that ends with a slash has something before it. -/
theorem exists_of_endsWithSlash {path : Path} (h : path.endsWithSlash) :
    ∃ before, path.text = before ++ "/" := by
  obtain ⟨before, hbefore⟩ := List.getLast?_eq_some_iff.1 (of_decide_eq_true h)
  refine ⟨String.ofList before, String.toList_injective ?_⟩
  rw [hbefore]
  simp

theorem join_of_isAbsolute (path : Path) {other : Path} (h : other.isAbsolute) :
    path.join other = other := by
  rw [join, if_pos h]

/-- A path that is joined and does not begin in a way of its own leaves the begin as it is and adds
its steps. -/
theorem join_spec (path : Path) {other : Path} (h : other.lead = []) :
    (path.join other).lead = path.lead ∧
      stepsBetween (path.join other).text = stepsBetween path.text ++ stepsBetween other.text := by
  have hrelative : ¬ other.isAbsolute := by
    rw [isAbsolute_iff_lead, h]
    simp
  rw [join, if_neg hrelative]
  by_cases hempty : path.text = ""
  · have hpath : path = ⟨""⟩ := by
      obtain ⟨text⟩ := path
      exact congrArg Path.mk hempty
    subst hpath
    rw [if_pos (by simp), String.empty_append]
    exact ⟨h, rfl⟩
  · by_cases hslash : path.endsWithSlash
    · obtain ⟨before, hbefore⟩ := exists_of_endsWithSlash hslash
      have hself : path = ⟨before ++ "/" ++ ""⟩ := by
        obtain ⟨text⟩ := path
        rw [String.append_empty]
        exact congrArg Path.mk hbefore
      rw [if_pos (by simp [hslash]), hself]
      dsimp only
      rw [String.append_empty, stepsBetween_append_slash]
      refine ⟨?_, ?_⟩
      · rw [lead_slash before other.text "", String.append_empty]
      · have hend := stepsBetween_append_slash before ""
        rw [String.append_empty, stepsBetween_empty, List.append_nil] at hend
        rw [hend]
    · rw [if_neg (by simp [hempty, hslash]), lead_append_slash hempty]
      exact ⟨rfl, stepsBetween_append_slash _ _⟩

theorem components_join (path : Path) {other : Path} (h : other.lead = []) :
    (path.join other).components = path.components ++ other.components := by
  obtain ⟨hlead, hsteps⟩ := path.join_spec h
  rw [components_eq, hlead, hsteps, components_eq, components_eq, h, List.nil_append,
    List.append_assoc]

/-- A text without slashes is a single step. -/
theorem stepsBetween_of_slash_not_mem {text : String} (h : '/' ∉ text.toList) :
    stepsBetween text = (Component.ofPiece? text).toList := by
  rw [stepsBetween, splitText, splitAt_of_not_mem h, List.map_singleton, String.ofList_toList,
    List.filterMap_cons]
  cases Component.ofPiece? text <;> rfl

/-- In a text without dots every step is one to a name. -/
theorem exists_normal_of_dot_not_mem
    {text : String} (h : '.' ∉ text.toList) {step : Component} (hstep : step ∈ stepsBetween text) :
    ∃ name, step = .normal name := by
  obtain ⟨piece, hpiece, hof⟩ := List.mem_filterMap.1 hstep
  obtain ⟨chars, hchars, rfl⟩ := List.mem_map.1 hpiece
  have hdot : '.' ∉ chars := fun hmem => h (mem_of_mem_splitAt hchars hmem).1
  rw [Component.ofPiece?.eq_def] at hof
  split at hof
  · cases hof
  · cases hof
  · rename_i heq
    have hlist := congrArg String.toList heq
    simp only [String.toList_ofList] at hlist
    rw [hlist] at hdot
    exact absurd (by decide) hdot
  · exact ⟨_, (Option.some.inj hof).symm⟩

/-- A text without dots begins at the root or in no way of its own. -/
theorem lead_of_dot_not_mem {text : String} (h : '.' ∉ text.toList)
    (hrelative : ¬ isAbsolute ⟨text⟩) : lead ⟨text⟩ = [] := by
  rw [lead, if_neg hrelative, if_neg]
  intro hfirst
  obtain ⟨chars, hchars, hdot⟩ := List.mem_map.1 (List.mem_of_mem_head? hfirst)
  have hlist := congrArg String.toList hdot
  simp only [String.toList_ofList] at hlist
  have hmem : '.' ∈ chars := by
    rw [hlist]
    decide
  exact h (mem_of_mem_splitAt hchars hmem).1

end Path

end ComponentMarkers
