import ComponentMarkers.Proofs.FileSystem.Soundness

/-!
# Where paths lead

What a path leads to can be told without the names in it that stay where they are.  So all spellings of a
path lead to one place, as far as they lead anywhere.  Where there are no links, a path that takes no step
up leads to the place that it spells out.
-/

namespace ComponentMarkers

open Component

namespace Path

/-- The place that a path spells out when it is taken from a directory: where it starts, and behind that
the names in it. -/
def placeFrom (directory : Place) (path : Path) : Place :=
  FileTree.startOf directory path ++ path.components.filterMap Component.name?

theorem name?_eq_none_of_mem_lead {path : Path} {step : Component} (h : step ∈ path.lead) :
    step.name? = none := by
  rw [lead] at h
  split_ifs at h
  · rw [List.mem_singleton.1 h]
    rfl
  · rw [List.mem_singleton.1 h]
    rfl
  · cases h

/-- How a path begins can be told from its steps. -/
theorem lead_eq_filter (path : Path) :
    path.lead = path.components.filter fun step => step = .root || step = .current := by
  have hlead : path.lead.filter (fun step => step = .root || step = .current) = path.lead := by
    rw [lead]
    split_ifs <;> rfl
  have hsteps : (stepsBetween path.text).filter
      (fun step => step = .root || step = .current) = [] := by
    rw [List.filter_eq_nil_iff]
    intro step hstep
    cases isStep_of_mem_stepsBetween hstep <;> simp
  rw [components_eq, List.filter_append, hlead, hsteps, List.append_nil]

theorem isName_of_mem_components
    {path : Path} {name : String} (h : .normal name ∈ path.components) : IsName name := by
  rw [components_eq] at h
  rcases List.mem_append.1 h with hlead | hstep
  · cases name?_eq_none_of_mem_lead hlead
  · cases isStep_of_mem_stepsBetween hstep with
    | normal hname => exact hname

/-- Without steps up a path is its begin and the names in it. -/
theorem components_eq_of_parent_not_mem {path : Path} (h : .parent ∉ path.components) :
    path.components =
      path.lead ++ (path.components.filterMap Component.name?).map Component.normal := by
  have hlead : path.lead.filterMap Component.name? = [] := by
    rw [List.filterMap_eq_nil_iff]
    intro step hstep
    exact name?_eq_none_of_mem_lead hstep
  have hsteps : ∀ step ∈ stepsBetween path.text, step.name?.map Component.normal = some step := by
    intro step hstep
    cases isStep_of_mem_stepsBetween hstep with
    | parent => exact absurd (components_eq path ▸ List.mem_append_right _ hstep) h
    | normal => rfl
  conv_rhs => rw [components_eq, List.filterMap_append, hlead, List.nil_append]
  rw [components_eq, List.append_cancel_left_eq, List.map_filterMap]
  exact ((List.filterMap_congr hsteps).trans List.filterMap_some).symm

/-- Of the paths that begin alike and take no step up one only spells out a place. -/
theorem components_eq_of_placeFrom_eq
    {path other : Path} (hlead : path.lead = other.lead) (hpath : .parent ∉ path.components)
    (hother : .parent ∉ other.components) {directory : Place}
    (hplace : path.placeFrom directory = other.placeFrom directory) :
    path.components = other.components := by
  have hstart : FileTree.startOf directory path = FileTree.startOf directory other := by
    apply FileTree.startOf_congr
    rw [isAbsolute_iff_lead, isAbsolute_iff_lead, hlead]
  rw [placeFrom, placeFrom, hstart] at hplace
  rw [components_eq_of_parent_not_mem hpath, components_eq_of_parent_not_mem hother, hlead,
    List.append_cancel_left hplace]

end Path

namespace FileTree

/-- There are no links in the tree. -/
def IsLinkFree (tree : FileTree) : Prop :=
  ∀ place target, tree.node? place ≠ some (.link target)

variable {tree : FileTree}

theorem isLinkFree_of_forall_mem
    (h : ∀ entry ∈ tree.entries, ∀ target, entry.2 ≠ .link target) : tree.IsLinkFree := by
  intro place target htarget
  rw [node?] at htarget
  split at htarget
  · cases htarget
  · obtain ⟨before, after, hentries, -⟩ := List.lookup_eq_some_iff.1 htarget
    refine h (place, .link target) ?_ target rfl
    rw [hentries]
    exact List.mem_append_right _ List.mem_cons_self

/-- A path that leads somewhere is walked through to its end. -/
theorem walk_of_resolve?
    {path : Path} {place : Place} (h : tree.resolve? path = .ok place) :
    tree.walk path (path.components.filterMap entry?) = .ok place := by
  have hwalk : tree.walk path (stepsOf path) = .ok place := by
    rw [resolve?] at h
    split at h
    · cases h
    · cases hsteps : tree.walk path (stepsOf path) with
      | error fault => simp [hsteps] at h
      | ok stop =>
          rw [hsteps] at h
          dsimp only at h
          split_ifs at h
          rw [Except.ok.inj h]
  rw [← Path.pieces_filter]
  cases hfilter : tree.walk path (path.pieces.filter (· ≠ ".")) with
  | error fault =>
      rw [walk_of_dotted_of_error (dotted_stepsOf path) hfilter] at hwalk
      cases hwalk
  | ok stop =>
      rcases walk_of_dotted_of_ok (dotted_stepsOf path) hfilter with hlong | ⟨fault, -, hlong⟩
      · rw [← hwalk, hlong]
      · rw [hlong] at hwalk
        cases hwalk

/-- A path that leads somewhere is one the file system looks at, and something is where it leads. -/
theorem of_resolve?
    {path : Path} {place : Place} (h : tree.resolve? path = .ok place) :
    pathFault? path = none ∧ tree.node? place ≠ none := by
  rw [resolve?] at h
  cases hfault : pathFault? path with
  | some fault => simp [hfault] at h
  | none =>
      cases hstop : tree.walk path (stepsOf path) with
      | error fault => simp [hfault, hstop] at h
      | ok stop =>
          simp only [hfault, hstop] at h
          split_ifs at h with hnode
          rw [← Except.ok.inj h]
          exact ⟨rfl, Option.isSome_iff_ne_none.1 hnode⟩

theorem isPresent_iff (path : Path) :
    tree.isPresent path ↔ ∃ place, tree.resolve? path = .ok place := by
  rw [isPresent, nodeOf?]
  cases hplace : tree.resolve? path with
  | error fault => simp
  | ok place => simpa using Option.isSome_iff_ne_none.2 (of_resolve? hplace).2

theorem exists_resolve?_of_isFile {path : Path} (h : tree.isFile path) :
    ∃ place, tree.resolve? path = .ok place := by
  rw [isFile, nodeOf?] at h
  cases hplace : tree.resolve? path with
  | error fault => simp [hplace] at h
  | ok place => exact ⟨place, rfl⟩

/-- Spellings of one path that lead somewhere lead to one place. -/
theorem resolve?_eq_of_same
    {path other : Path} (hsame : path.same other) {place otherPlace : Place}
    (hplace : tree.resolve? path = .ok place) (hother : tree.resolve? other = .ok otherPlace) :
    place = otherPlace := by
  have hcomponents : path.components = other.components := decide_eq_true_iff.1 hsame
  have hwalk := walk_of_resolve? hplace
  rw [walk, startOf_congr (isAbsolute_congr hcomponents), hcomponents] at hwalk
  exact Except.ok.inj (hwalk.symm.trans (walk_of_resolve? hother))

theorem IsLinkFree.advance_eq
    (h : tree.IsLinkFree) {names : List String} (hnames : ∀ name ∈ names, IsName name)
    {place : Place} {stop : Stop} (hadvance : tree.advance place names = .ok stop) :
    stop = .arrived (place ++ names) := by
  induction names generalizing place with
  | nil =>
      rw [List.append_nil]
      exact (Except.ok.inj hadvance).symm
  | cons name rest ih =>
      obtain ⟨hname, hrest⟩ := List.forall_mem_cons.1 hnames
      rw [advance] at hadvance
      split at hadvance
      · cases hadvance
      · rw [if_neg hname.ne_dot, if_neg hname.ne_dots] at hadvance
        split_ifs at hadvance
        split at hadvance
        · rename_i target htarget
          exact absurd htarget (h _ target)
        · rw [ih hrest hadvance, List.append_assoc, List.singleton_append]

/-- Where there are no links, a path that takes no step up leads to the place it spells out. -/
theorem IsLinkFree.eq_placeFrom
    (h : tree.IsLinkFree) {path : Path} (hpath : .parent ∉ path.components) {place : Place}
    (hplace : tree.resolve? path = .ok place) : place = path.placeFrom tree.workingDirectory := by
  have hentries : path.components.filterMap entry? = path.components.filterMap name? := by
    apply List.filterMap_congr
    intro step hstep
    cases step with
    | parent => exact absurd hstep hpath
    | _ => rfl
  have hnames : ∀ name ∈ path.components.filterMap name?, IsName name := by
    intro name hname
    obtain ⟨step, hstep, hstepName⟩ := List.mem_filterMap.1 hname
    cases step with
    | normal same =>
        obtain rfl := Option.some.inj hstepName
        exact Path.isName_of_mem_components hstep
    | _ => cases hstepName
  have hwalk := walk_of_resolve? hplace
  rw [hentries, walk, follow] at hwalk
  split at hwalk
  · cases hwalk
  · rename_i stop hadvance
    have hstop := h.advance_eq hnames hadvance
    rw [Stop.arrived.inj hstop] at hwalk
    exact (Except.ok.inj hwalk).symm
  · rename_i hadvance
    have hstop := h.advance_eq hnames hadvance
    cases hstop

end FileTree

end ComponentMarkers
