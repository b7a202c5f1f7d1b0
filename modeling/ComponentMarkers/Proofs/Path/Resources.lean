import ComponentMarkers.Proofs.Path.Components

/-!
# Where resources lie

A plain name is a list of steps to names.  So is the directory of a package, since no dot is left in
the segments of a package; but a segment may begin with a slash, and then the directory begins at the
root of the file system.
-/

namespace ComponentMarkers

open Text ComponentMarkers.Path

/-- A segment of the package begins with a slash. -/
def HasRootedSegment (package : String) : Prop :=
  ∃ segment ∈ segments package, isAbsolute ⟨segment⟩

instance (package : String) : Decidable (HasRootedSegment package) :=
  inferInstanceAs (Decidable (∃ segment ∈ segments package, isAbsolute ⟨segment⟩))

theorem dot_not_mem_of_mem_segments {package segment : String}
    (h : segment ∈ segments package) : '.' ∉ segment.toList := by
  obtain ⟨chars, hchars, rfl⟩ := List.mem_map.1 h
  rw [String.toList_ofList]
  exact fun hmem => (mem_of_mem_splitAt hchars hmem).2 rfl

/-- A plain name begins in no way of its own, and its steps go to names. -/
theorem isPlainName_iff (name : String) :
    isPlainName name ↔ name ≠ "" ∧ lead ⟨name⟩ = [] ∧
      ∀ step ∈ stepsBetween name, ∃ normal, step = .normal normal := by
  have hstep : ∀ step : Component, step.name?.isSome ↔ ∃ normal, step = .normal normal := by
    intro step
    cases step <;> simp [Component.name?]
  rw [isPlainName, Bool.and_eq_true, List.all_eq_true, components_eq]
  simp only [hstep, List.mem_append]
  constructor
  · rintro ⟨hempty, hall⟩
    refine ⟨by simpa using hempty, ?_, fun step h => hall step (Or.inr h)⟩
    cases hlead : lead ⟨name⟩ with
    | nil => rfl
    | cons first rest =>
        obtain ⟨normal, rfl⟩ := hall first (Or.inl (hlead ▸ List.mem_cons_self))
        rw [lead] at hlead
        split at hlead
        · cases hlead
        · split at hlead
          · cases hlead
          · cases hlead
  · rintro ⟨hempty, hlead, hall⟩
    refine ⟨by simpa using hempty, ?_⟩
    rintro step (h | h)
    · rw [hlead] at h
      cases h
    · exact hall step h

/-- A name without slashes that is no step of its own goes to itself. -/
theorem stepsBetween_name
    {name : String} (hslash : '/' ∉ name.toList) (hempty : name ≠ "") (hdot : name ≠ ".")
    (hdots : name ≠ "..") : stepsBetween name = [.normal name] := by
  rw [stepsBetween_of_slash_not_mem hslash, Component.ofPiece?.eq_def]
  split
  · exact absurd rfl hempty
  · exact absurd rfl hdot
  · exact absurd rfl hdots
  · rfl

/-- A name without slashes that does not begin with a dot is plain. -/
theorem isPlainName_of_slash_not_mem {name : String} (hslash : '/' ∉ name.toList)
    (hempty : name ≠ "") (hdot : name ≠ ".") (hdots : name ≠ "..") : isPlainName name := by
  rw [isPlainName_iff]
  refine ⟨hempty, ?_, ?_⟩
  · have hrelative : ¬ isAbsolute ⟨name⟩ := by
      intro habsolute
      exact hslash (List.mem_of_mem_head? (of_decide_eq_true habsolute))
    rw [lead, if_neg hrelative, splitText, splitAt_of_not_mem hslash, List.map_singleton,
      String.ofList_toList, if_neg (by simpa using hdot)]
  · intro step hstep
    rw [stepsBetween_name hslash hempty hdot hdots] at hstep
    exact ⟨name, List.mem_singleton.1 hstep⟩

/-- Segments are joined one after the other.  The directory begins at the root as soon as one of the
segments does. -/
theorem foldl_join_segments
    (segments : List String) (hdots : ∀ segment ∈ segments, '.' ∉ segment.toList)
    (path : Path) (hpath : ∀ step ∈ stepsBetween path.text, ∃ name, step = .normal name) :
    (segments.foldl (fun path segment => path.join ⟨segment⟩) path).lead =
        (if ∃ segment ∈ segments, isAbsolute ⟨segment⟩ then [.root] else path.lead) ∧
      ∀ step ∈ stepsBetween (segments.foldl (fun path segment => path.join ⟨segment⟩) path).text,
        ∃ name, step = .normal name := by
  induction segments generalizing path with
  | nil => exact ⟨by simp, hpath⟩
  | cons segment rest ih =>
      obtain ⟨hdot, hrest⟩ := List.forall_mem_cons.1 hdots
      rw [List.foldl_cons]
      by_cases habsolute : isAbsolute ⟨segment⟩
      · rw [join_of_isAbsolute path habsolute]
        obtain ⟨hlead, hsteps⟩ := ih hrest ⟨segment⟩
          fun step hstep => exists_normal_of_dot_not_mem hdot hstep
        refine ⟨?_, hsteps⟩
        rw [hlead, lead_of_isAbsolute habsolute, ite_self, if_pos]
        exact ⟨segment, List.mem_cons_self, habsolute⟩
      · obtain ⟨hjoined, hjoinedSteps⟩ := path.join_spec (lead_of_dot_not_mem hdot habsolute)
        obtain ⟨hlead, hsteps⟩ := ih hrest (path.join ⟨segment⟩) fun step hstep => by
          rw [hjoinedSteps] at hstep
          rcases List.mem_append.1 hstep with hstep | hstep
          · exact hpath step hstep
          · exact exists_normal_of_dot_not_mem hdot hstep
        refine ⟨?_, hsteps⟩
        rw [hlead, hjoined]
        simp [habsolute]

/-- The directory of a package has steps to names only, and begins at the root when a segment does. -/
theorem packagePath_spec (package : String) :
    (packagePath package).lead = (if HasRootedSegment package then [.root] else []) ∧
      ∀ step ∈ stepsBetween (packagePath package).text, ∃ name, step = .normal name := by
  obtain ⟨hlead, hsteps⟩ := foldl_join_segments
    ((segments package).filter (· ≠ ""))
    (fun segment hsegment => dot_not_mem_of_mem_segments (List.mem_filter.1 hsegment).1)
    ⟨""⟩ (by rw [stepsBetween_empty]; simp)
  refine ⟨?_, hsteps⟩
  rw [packagePath, hlead]
  have hiff : (∃ segment ∈ (segments package).filter (· ≠ ""), isAbsolute ⟨segment⟩) ↔
      HasRootedSegment package := by
    constructor
    · rintro ⟨segment, hsegment, habsolute⟩
      exact ⟨segment, (List.mem_filter.1 hsegment).1, habsolute⟩
    · rintro ⟨segment, hsegment, habsolute⟩
      refine ⟨segment, List.mem_filter.2 ⟨hsegment, ?_⟩, habsolute⟩
      rw [decide_eq_true_eq]
      rintro rfl
      cases habsolute
  simp only [hiff]
  rfl

/-- The path of a resource with a plain name. -/
theorem resourcePath_spec (package : String) {name : String} (hname : isPlainName name) :
    (resourcePath package name).lead = (if HasRootedSegment package then [.root] else []) ∧
      ∀ step ∈ stepsBetween (resourcePath package name).text, ∃ normal, step = .normal normal := by
  obtain ⟨-, hlead, hsteps⟩ := (isPlainName_iff name).1 hname
  obtain ⟨hpackage, hpackageSteps⟩ := packagePath_spec package
  obtain ⟨hjoined, hjoinedSteps⟩ := (packagePath package).join_spec hlead
  rw [resourcePath, hjoined, hjoinedSteps]
  refine ⟨hpackage, ?_⟩
  intro step hstep
  rcases List.mem_append.1 hstep with hstep | hstep
  · exact hpackageSteps step hstep
  · exact hsteps step hstep

/-- The directory of a package without slashes has one step for each segment that is not empty. -/
theorem packagePath_of_slash_not_mem {package : String} (hslash : '/' ∉ package.toList) :
    (packagePath package).lead = [] ∧
      stepsBetween (packagePath package).text =
        ((segments package).filter (· ≠ "")).map .normal := by
  have hsegments : ∀ segment ∈ (segments package).filter (· ≠ ""),
      '.' ∉ segment.toList ∧ '/' ∉ segment.toList ∧ segment ≠ "" := by
    intro segment hsegment
    obtain ⟨hmem, hempty⟩ := List.mem_filter.1 hsegment
    refine ⟨dot_not_mem_of_mem_segments hmem, ?_, of_decide_eq_true hempty⟩
    obtain ⟨chars, hchars, rfl⟩ := List.mem_map.1 hmem
    rw [String.toList_ofList]
    exact fun h => hslash (mem_of_mem_splitAt hchars h).1
  rw [packagePath]
  generalize (segments package).filter (· ≠ "") = parts at hsegments ⊢
  have hjoined : ∀ path : Path, path.lead = [] →
      (parts.foldl (fun path segment => path.join ⟨segment⟩) path).lead = [] ∧
        stepsBetween (parts.foldl (fun path segment => path.join ⟨segment⟩) path).text =
          stepsBetween path.text ++ parts.map .normal := by
    induction parts with
    | nil =>
        intro path hpath
        exact ⟨hpath, (List.append_nil _).symm⟩
    | cons segment rest ih =>
        intro path hpath
        obtain ⟨⟨hdot, hslash, hempty⟩, hrest⟩ := List.forall_mem_cons.1 hsegments
        have hrelative : ¬ isAbsolute ⟨segment⟩ :=
          fun habsolute => hslash (List.mem_of_mem_head? (of_decide_eq_true habsolute))
        have hstep : stepsBetween segment = [.normal segment] := by
          apply stepsBetween_name hslash hempty
          · rintro rfl
            exact hdot (by decide)
          · rintro rfl
            exact hdot (by decide)
        obtain ⟨hlead, hsteps⟩ := path.join_spec (lead_of_dot_not_mem hdot hrelative)
        obtain ⟨hlast, hall⟩ := ih hrest (path.join ⟨segment⟩) (hlead.trans hpath)
        rw [List.foldl_cons]
        refine ⟨hlast, ?_⟩
        rw [hall, hsteps]
        dsimp only
        rw [hstep, List.append_assoc, List.map_cons, List.singleton_append]
  exact hjoined ⟨""⟩ (by decide)

/-- A resource whose package and name have no slashes lies in the directories of the package's segments
under its name. -/
theorem components_resourcePath
    {package name : String} (hpackage : '/' ∉ package.toList) (hname : '/' ∉ name.toList)
    (hempty : name ≠ "") (hdot : name ≠ ".") (hdots : name ≠ "..") :
    (resourcePath package name).components =
      ((segments package).filter (· ≠ "")).map .normal ++ [.normal name] := by
  obtain ⟨-, hlead, -⟩ := (isPlainName_iff name).1
    (isPlainName_of_slash_not_mem hname hempty hdot hdots)
  obtain ⟨hpackageLead, hpackageSteps⟩ := packagePath_of_slash_not_mem hpackage
  rw [resourcePath, components_join _ hlead, components_eq (packagePath package), hpackageLead,
    hpackageSteps, List.nil_append, components_eq, hlead, List.nil_append,
    stepsBetween_name hname hempty hdot hdots]

/-- The path is the root and steps to names from there. -/
def Path.IsBelow (path root : Path) : Prop :=
  ∃ names : List String, path.components = root.components ++ names.map .normal

theorem exists_names_of_normal
    {steps : List Component} (h : ∀ step ∈ steps, ∃ name, step = .normal name) :
    ∃ names : List String, steps = names.map .normal := by
  induction steps with
  | nil => exact ⟨[], rfl⟩
  | cons step rest ih =>
      obtain ⟨⟨name, rfl⟩, hrest⟩ := List.forall_mem_cons.1 h
      obtain ⟨names, rfl⟩ := ih hrest
      exact ⟨name :: names, rfl⟩

/-- A resource is taken from the output root unless a segment of its package begins with a slash: then
it is taken from the root of the file system, wherever the output root is. -/
theorem components_join_resourcePath
    (root : Path) (package : String) {name : String} (hname : isPlainName name) :
    ∃ names : List String, (root.join (resourcePath package name)).components =
      (if HasRootedSegment package then [.root] else root.components) ++ names.map .normal := by
  obtain ⟨hlead, hsteps⟩ := resourcePath_spec package hname
  obtain ⟨names, hnames⟩ := exists_names_of_normal hsteps
  refine ⟨names, ?_⟩
  by_cases hrooted : HasRootedSegment package
  · rw [if_pos hrooted] at hlead ⊢
    rw [join_of_isAbsolute root ((isAbsolute_iff_lead _).2 hlead), components_eq, hlead, hnames]
  · rw [if_neg hrooted] at hlead ⊢
    rw [components_join root hlead, components_eq (resourcePath package name), hlead, hnames,
      List.nil_append]

/-- Resources lie below the output root, unless a segment of the package begins with a slash and the
path of the resource does not lead there by itself. -/
theorem join_resourcePath_isBelow_iff
    (root : Path) (package : String) {name : String} (hname : isPlainName name) :
    (root.join (resourcePath package name)).IsBelow root ↔
      ¬ HasRootedSegment package ∨ (resourcePath package name).IsBelow root := by
  by_cases hrooted : HasRootedSegment package
  · have habsolute : (resourcePath package name).isAbsolute := by
      rw [isAbsolute_iff_lead, (resourcePath_spec package hname).1, if_pos hrooted]
    rw [join_of_isAbsolute root habsolute]
    simp [hrooted]
  · obtain ⟨names, hnames⟩ := components_join_resourcePath root package hname
    rw [if_neg hrooted] at hnames
    constructor
    · exact fun _ => Or.inl hrooted
    · exact fun _ => ⟨names, hnames⟩

end ComponentMarkers
