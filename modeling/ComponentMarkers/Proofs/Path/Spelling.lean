import ComponentMarkers.Proofs.Path.Resources
import ComponentMarkers.Proofs.Text.Joined
import Mathlib.Data.List.Induction

/-!
# Spellings of a path

The file system is given texts, and takes them for the names between their slashes.  Here these names
are related to the steps of a path: up to names that stay where they are they are the same, so that two
spellings of one path are walked in the same way.  The plainest spelling of some steps has just these
steps again.
-/

namespace ComponentMarkers

open Text

namespace Component

/-- A name that stands between slashes and is a step to itself. -/
structure IsName (name : String) : Prop where
  ne_empty : name ≠ ""
  ne_dot : name ≠ "."
  ne_dots : name ≠ ".."
  slash_not_mem : '/' ∉ name.toList

instance (name : String) : Decidable (IsName name) :=
  decidable_of_iff (name ≠ "" ∧ name ≠ "." ∧ name ≠ ".." ∧ '/' ∉ name.toList)
    ⟨fun h => ⟨h.1, h.2.1, h.2.2.1, h.2.2.2⟩, fun h => ⟨h.1, h.2, h.3, h.4⟩⟩

/-- A step that may stand behind others. -/
inductive IsStep : Component → Prop where
  | parent : IsStep .parent
  | normal {name : String} (h : IsName name) : IsStep (.normal name)

/-- What is handed to the file system for a step, nothing for one that a path can only begin with. -/
def entry? : Component → Option String
  | root => none
  | current => none
  | parent => some ".."
  | normal name => some name

theorem IsStep.text_spec {step : Component} (h : step.IsStep) :
    step.text ≠ "" ∧ '/' ∉ step.text.toList := by
  cases h with
  | parent => exact ⟨by decide, by decide⟩
  | normal hname => exact ⟨hname.ne_empty, hname.slash_not_mem⟩

theorem map_normal_inj {names others : List String} :
    names.map Component.normal = others.map Component.normal ↔ names = others :=
  List.map_inj_right fun _ _ => Component.normal.inj

end Component

open Component

namespace Path

theorem isStep_of_mem_stepsBetween {text : String} {step : Component}
    (h : step ∈ stepsBetween text) : step.IsStep := by
  obtain ⟨piece, hpiece, hof⟩ := List.mem_filterMap.1 h
  obtain ⟨chars, hchars, rfl⟩ := List.mem_map.1 hpiece
  have hslash : '/' ∉ (String.ofList chars).toList := by
    rw [String.toList_ofList]
    exact fun hmem => (mem_of_mem_splitAt hchars hmem).2 rfl
  rw [ofPiece?.eq_def] at hof
  split at hof
  · cases hof
  · cases hof
  · rw [← Option.some.inj hof]
    exact .parent
  · rename_i name hempty hdot hdots
    rw [← Option.some.inj hof]
    exact .normal ⟨hempty, hdot, hdots, hslash⟩

/-- Steps as they come from a path. -/
inductive IsSpelt : List Component → Prop where
  | empty : IsSpelt []
  | root : IsSpelt [.root]
  | current : IsSpelt [.current]
  | step {steps : List Component} {step : Component} (h : IsSpelt steps) (hstep : step.IsStep) :
      IsSpelt (steps ++ [step])

theorem IsSpelt.append
    {steps more : List Component} (h : IsSpelt steps) (hmore : ∀ step ∈ more, step.IsStep) :
    IsSpelt (steps ++ more) := by
  induction more using List.reverseRecOn with
  | nil => rwa [List.append_nil]
  | append_singleton more step ih =>
      rw [← List.append_assoc]
      exact .step (ih fun other hother => hmore other (List.mem_append_left _ hother))
        (hmore step (List.mem_append_right _ (List.mem_singleton.2 rfl)))

theorem isSpelt_components (path : Path) : IsSpelt path.components := by
  rw [components_eq]
  refine IsSpelt.append ?_ fun step => isStep_of_mem_stepsBetween
  rw [lead]
  split
  · exact .root
  · split
    · exact .current
    · exact .empty

theorem IsSpelt.dropLast {steps : List Component} (h : IsSpelt steps) :
    IsSpelt steps.dropLast := by
  cases h with
  | empty => exact .empty
  | root => exact .empty
  | current => exact .empty
  | step h _ =>
      rw [List.dropLast_concat]
      exact h

theorem IsSpelt.of_append {steps more : List Component} (h : IsSpelt (steps ++ more)) :
    IsSpelt steps := by
  induction more using List.reverseRecOn with
  | nil => rwa [List.append_nil] at h
  | append_singleton more step ih =>
      apply ih
      have hdropped := h.dropLast
      rwa [← List.append_assoc, List.dropLast_concat] at hdropped

/-- A path begins at the root when its first step does. -/
theorem isAbsolute_iff_head? (path : Path) :
    path.isAbsolute ↔ path.components.head? = some .root := by
  rw [isAbsolute_iff_lead, components_eq, lead]
  split
  · simp
  · split
    · simp
    · simp only [List.nil_append, List.nil_eq, reduceCtorEq, false_iff]
      intro hhead
      cases isStep_of_mem_stepsBetween (List.mem_of_mem_head? hhead)

/-- The names of a path, those aside that stay where they are, are what is handed over for its steps. -/
theorem pieces_filter (path : Path) :
    path.pieces.filter (· ≠ ".") = path.components.filterMap entry? := by
  have hlead : path.lead.filterMap entry? = [] := by
    rw [lead]
    split
    · rfl
    · split
      · rfl
      · rfl
  rw [components_eq, List.filterMap_append, hlead, List.nil_append, stepsBetween,
    List.filterMap_filterMap, pieces, List.filter_filter]
  induction splitText '/' path.text with
  | nil => rfl
  | cons piece rest ih =>
      rw [List.filter_cons, List.filterMap_cons, ih]
      by_cases hempty : piece = ""
      · rw [hempty]
        rfl
      · by_cases hdot : piece = "."
        · rw [hdot]
          rfl
        · by_cases hdots : piece = ".."
          · rw [hdots]
            rfl
          · have hstep : ofPiece? piece = some (.normal piece) := by
              rw [ofPiece?.eq_def]
              split
              · exact absurd rfl hempty
              · exact absurd rfl hdot
              · exact absurd rfl hdots
              · rfl
            simp [hstep, hempty, hdot, entry?]

theorem pieces_empty : pieces ⟨""⟩ = [] := by
  decide

theorem pieces_append_slash (before after : String) :
    pieces ⟨before ++ "/" ++ after⟩ = pieces ⟨before⟩ ++ pieces ⟨after⟩ := by
  have hlist : (before ++ "/" ++ after).toList = before.toList ++ '/' :: after.toList := by
    simp
  rw [pieces, splitText, hlist, splitAt_append_cons, List.map_append, List.filter_append]
  rfl

section Join

variable (path : Path) {other : Path}

theorem isAbsolute_join (h : other.lead = []) : (path.join other).isAbsolute ↔ path.isAbsolute := by
  rw [isAbsolute_iff_lead, isAbsolute_iff_lead, (path.join_spec h).1]

theorem pieces_join (h : other.lead = []) :
    (path.join other).pieces = path.pieces ++ other.pieces := by
  have hrelative : ¬ other.isAbsolute := by
    rw [isAbsolute_iff_lead, h]
    simp
  rw [join, if_neg hrelative]
  obtain ⟨text⟩ := path
  by_cases hempty : text = ""
  · rw [if_pos (by simp [hempty]), hempty, String.empty_append, pieces_empty, List.nil_append]
  · by_cases hslash : endsWithSlash ⟨text⟩
    · obtain ⟨before, hbefore⟩ := exists_of_endsWithSlash hslash
      dsimp only at hbefore
      have hend := pieces_append_slash before ""
      rw [String.append_empty, pieces_empty, List.append_nil] at hend
      rw [if_pos (by simp [hslash])]
      dsimp only
      rw [hbefore, pieces_append_slash, hend]
    · rw [if_neg (by simp [hempty, hslash]), pieces_append_slash]

theorem endsWithSlash_join (h : other.lead = []) (hempty : other.text ≠ "") :
    (path.join other).endsWithSlash = other.endsWithSlash := by
  have hlast : ∀ before : String,
      (before ++ other.text).toList.getLast? = other.text.toList.getLast? := by
    intro before
    rw [String.toList_append, List.getLast?_append]
    cases hlast : other.text.toList.getLast? with
    | none => exact absurd (String.toList_eq_nil_iff.1 (List.getLast?_eq_none_iff.1 hlast)) hempty
    | some c => rfl
  have hrelative : ¬ other.isAbsolute := by
    rw [isAbsolute_iff_lead, h]
    simp
  rw [join, if_neg hrelative]
  split
  · rw [endsWithSlash, endsWithSlash, hlast]
  · rw [endsWithSlash, endsWithSlash, hlast]

end Join

/-- The path of a single step. -/
theorem path_of_isStep {step : Component} (h : step.IsStep) :
    lead ⟨step.text⟩ = [] ∧ components ⟨step.text⟩ = [step] ∧ pieces ⟨step.text⟩ = [step.text] ∧
      endsWithSlash ⟨step.text⟩ = false := by
  cases h with
  | parent => decide
  | @normal name hname =>
      have hsplit : splitText '/' name = [name] := splitText_of_not_mem hname.slash_not_mem
      have hrelative : ¬ isAbsolute ⟨name⟩ := fun habsolute =>
        hname.slash_not_mem (List.mem_of_mem_head? (of_decide_eq_true habsolute))
      have hlead : lead ⟨name⟩ = [] := by
        rw [lead, if_neg hrelative, hsplit, if_neg (by simpa using hname.ne_dot)]
      refine ⟨hlead, ?_, ?_, ?_⟩
      · rw [components_eq]
        change lead ⟨name⟩ ++ stepsBetween name = _
        rw [hlead, stepsBetween_name hname.slash_not_mem hname.ne_empty hname.ne_dot hname.ne_dots]
        rfl
      · change (splitText '/' name).filter _ = _
        rw [hsplit, List.filter_cons_of_pos (by simpa using hname.ne_empty)]
        rfl
      · apply decide_eq_false
        exact fun hslash => hname.slash_not_mem (List.mem_of_mem_getLast? hslash)

theorem intercalate_concat
    {separator : String} {parts : List String} (hne : parts ≠ []) (part : String) :
    separator.intercalate (parts ++ [part]) = separator.intercalate parts ++ separator ++ part := by
  induction parts with
  | nil => exact absurd rfl hne
  | cons first rest ih =>
      cases rest with
      | nil =>
          rw [String.intercalate_singleton]
          exact (String.intercalate_cons_cons).trans (by rw [String.intercalate_singleton])
      | cons next others =>
          rw [List.cons_append, List.cons_append, String.intercalate_cons_cons,
            String.intercalate_cons_cons, ← List.cons_append, ih (List.cons_ne_nil _ _),
            String.append_assoc, String.append_assoc, String.append_assoc, String.append_assoc,
            String.append_assoc]

theorem text_ofComponents_root (steps : List Component) :
    (ofComponents (.root :: steps)).text = "/" ++ "/".intercalate (steps.map Component.text) :=
  rfl

theorem text_ofComponents {steps : List Component} (h : steps.head? ≠ some .root) :
    (ofComponents steps).text = "/".intercalate (steps.map Component.text) := by
  rw [ofComponents.eq_def]
  split
  · exact absurd rfl h
  · rfl

/-- A spelling neither is empty nor ends with a slash as soon as there is a step that may stand behind
others. -/
theorem ofComponents_concat_spec (steps : List Component) {step : Component}
    (hstep : step.IsStep) :
    (ofComponents (steps ++ [step])).text ≠ "" ∧
      (ofComponents (steps ++ [step])).endsWithSlash = false := by
  have hjoined : ∀ parts : List String, ∃ before,
      "/".intercalate (parts ++ [step.text]) = before ++ step.text := by
    intro parts
    by_cases hne : parts = []
    · exact ⟨"", by rw [hne, List.nil_append, String.intercalate_singleton, String.empty_append]⟩
    · exact ⟨_, intercalate_concat hne step.text⟩
  obtain ⟨before, hbefore⟩ : ∃ before,
      (ofComponents (steps ++ [step])).text = before ++ step.text := by
    by_cases hroot : (steps ++ [step]).head? = some .root
    · cases steps with
      | nil =>
          obtain rfl := Option.some.inj hroot
          cases hstep
      | cons first rest =>
          obtain rfl := Option.some.inj hroot
          obtain ⟨before, hbefore⟩ := hjoined (rest.map Component.text)
          refine ⟨"/" ++ before, ?_⟩
          rw [List.cons_append, text_ofComponents_root, List.map_append, List.map_singleton,
            hbefore, String.append_assoc]
    · obtain ⟨before, hbefore⟩ := hjoined (steps.map Component.text)
      refine ⟨before, ?_⟩
      rw [text_ofComponents hroot, List.map_append, List.map_singleton, hbefore]
  obtain ⟨hempty, hslash⟩ := hstep.text_spec
  have hchars : step.text.toList ≠ [] := mt String.toList_eq_nil_iff.1 hempty
  rw [endsWithSlash, hbefore, String.toList_append]
  constructor
  · intro h
    have hlist := congrArg String.toList h
    rw [String.toList_append] at hlist
    exact hchars (List.append_eq_nil_iff.1 hlist).2
  · apply decide_eq_false
    rw [List.getLast?_append]
    cases hlast : step.text.toList.getLast? with
    | none => exact absurd (List.getLast?_eq_none_iff.1 hlast) hchars
    | some c =>
        intro hc
        obtain rfl : c = '/' := by simpa using hc
        exact hslash (List.mem_of_mem_getLast? hlast)

/-- One more step is spelled by joining it. -/
theorem ofComponents_concat {steps : List Component} (h : IsSpelt steps) {step : Component}
    (hstep : step.IsStep) :
    ofComponents (steps ++ [step]) = (ofComponents steps).join ⟨step.text⟩ := by
  have hrelative : ¬ isAbsolute ⟨step.text⟩ := by
    rw [isAbsolute_iff_lead, (path_of_isStep hstep).1]
    simp
  have htext : ∀ path other : Path, path.text = other.text → path = other := by
    rintro ⟨path⟩ ⟨other⟩ rfl
    rfl
  apply htext
  rw [join, if_neg hrelative]
  cases h with
  | empty =>
      rw [List.nil_append, text_ofComponents, List.map_singleton, String.intercalate_singleton]
      · exact String.empty_append.symm
      · cases hstep <;> simp
  | root =>
      rw [List.singleton_append, text_ofComponents_root, List.map_singleton,
        String.intercalate_singleton]
      rfl
  | current =>
      rw [text_ofComponents, List.map_append, List.map_singleton, List.map_singleton,
        intercalate_concat (List.cons_ne_nil _ _), String.intercalate_singleton]
      · rfl
      · simp
  | @step before last hbefore hlast =>
      obtain ⟨hempty, hslash⟩ := ofComponents_concat_spec before hlast
      rw [if_neg (by simp [hempty, hslash])]
      dsimp only
      by_cases hroot : (before ++ [last]).head? = some .root
      · cases before with
        | nil =>
            obtain rfl := Option.some.inj hroot
            cases hlast
        | cons first rest =>
            obtain rfl := Option.some.inj hroot
            rw [List.cons_append, List.cons_append, text_ofComponents_root, text_ofComponents_root,
              List.map_append, List.map_singleton, intercalate_concat (by simp),
              String.append_assoc, String.append_assoc, String.append_assoc]
      · rw [text_ofComponents hroot, text_ofComponents, List.map_append, List.map_singleton,
          intercalate_concat (by simp)]
        simpa using hroot

/-- The spelling of steps has these steps. -/
theorem components_ofComponents {steps : List Component} (h : IsSpelt steps) :
    (ofComponents steps).components = steps := by
  induction h with
  | empty => decide
  | root => decide
  | current => decide
  | step h hstep ih =>
      obtain ⟨hlead, hcomponents, -⟩ := path_of_isStep hstep
      rw [ofComponents_concat h hstep, components_join _ hlead, ih, hcomponents]

end Path

end ComponentMarkers
