import ComponentMarkers.FileSystem.Change
import Mathlib.Data.List.Infix
import Mathlib.Tactic.SplitIfs

/-!
# Walking through a tree of files

A walk over two stretches of steps is a walk over the first and then one over the second.  Steps that
stay where they are can be left out of a walk that arrives.  Where no links are on the way, a walk is
described by the places it goes through: all but the last have to be directories, and the first that is
none is what the walk fails at.
-/

namespace ComponentMarkers

namespace FileTree

/-- A node that is put at a place is found there, and all others where they were. -/
theorem node?_put
    (tree : FileTree) {place : Place} (hplace : place ≠ []) (node : Node) (other : Place) :
    (tree.put place node).node? other = if other = place then some node else tree.node? other := by
  by_cases hroot : other = []
  · rw [hroot, node?, node?, if_pos rfl, if_pos rfl, if_neg hplace.symm]
  · rw [node?, node?, if_neg hroot, if_neg hroot, put]
    dsimp only
    rw [List.lookup_cons]
    by_cases hsame : other = place
    · rw [if_pos hsame, hsame, beq_self_eq_true]
    · rw [if_neg hsame, beq_eq_false_iff_ne.2 hsame]
      dsimp only
      induction tree.entries with
      | nil => rfl
      | cons entry rest ih =>
          obtain ⟨found, content⟩ := entry
          by_cases hfound : found = place
          · rw [List.filter_cons_of_neg (by simpa using hfound), List.lookup_cons,
              beq_eq_false_iff_ne.2 (by rw [hfound]; exact hsame)]
            exact ih
          · rw [List.filter_cons_of_pos (by simpa using hfound), List.lookup_cons, List.lookup_cons,
              ih]

theorem node?_nil (tree : FileTree) : tree.node? [] = some .directory :=
  if_pos rfl

theorem directoryFault?_eq_none_iff (tree : FileTree) (place : Place) :
    tree.directoryFault? place = none ↔ tree.node? place = some .directory := by
  rw [directoryFault?]
  rcases tree.node? place with _ | (_ | _ | _) <;> simp

theorem directoryFault?_eq_some_iff (tree : FileTree) (place : Place) (fault : SystemFault) :
    tree.directoryFault? place = some fault ↔
      fault = .notFound ∧ tree.node? place = none ∨
        fault = .notDirectory ∧ ∃ node, tree.node? place = some node ∧ node ≠ .directory := by
  rw [directoryFault?]
  rcases tree.node? place with _ | (_ | _ | _) <;> simp [eq_comm]

/-- Steps go on from where earlier ones stopped. -/
theorem advance_append (tree : FileTree) (place : Place) (first second : List String) :
    tree.advance place (first ++ second) =
      match tree.advance place first with
      | .error fault => .error fault
      | .ok (.arrived stop) => tree.advance stop second
      | .ok (.link directory target rest) => .ok (.link directory target (rest ++ second)) := by
  induction first generalizing place with
  | nil => rw [List.nil_append, advance]
  | cons name rest ih =>
      rw [List.cons_append, advance, advance]
      cases tree.directoryFault? place with
      | some fault => rfl
      | none =>
          dsimp only
          split_ifs
          · exact ih place
          · exact ih place.dropLast
          · rfl
          · split
            · rfl
            · exact ih (place ++ [name])

/-- A walk arrives: its steps lead to a place, or to a link whose target is walked to next. -/
inductive Arrives (tree : FileTree) : (links : Nat) → Place → List String → Place → Prop where
  | arrived {links : Nat} {place stop : Place} {steps : List String}
      (hadvance : tree.advance place steps = .ok (.arrived stop)) :
      Arrives tree links place steps stop
  | link {links : Nat} {place directory stop : Place} {target : Path} {steps rest : List String}
      (hadvance : tree.advance place steps = .ok (.link directory target rest))
      (hrest : Arrives tree links (startOf directory target) (stepsOf target ++ rest) stop) :
      Arrives tree (links + 1) place steps stop

theorem follow_eq_ok_iff {tree : FileTree} {links : Nat} {place stop : Place} {steps : List String} :
    tree.follow links place steps = .ok stop ↔ tree.Arrives links place steps stop := by
  constructor
  · intro h
    induction links using Nat.strong_induction_on generalizing place steps with
    | h links ih =>
        rw [follow] at h
        rcases hadvance : tree.advance place steps with fault | (reached | ⟨directory, target, rest⟩)
        · simp [hadvance] at h
        · obtain rfl : reached = stop := by simpa [hadvance] using h
          exact .arrived hadvance
        · rw [hadvance] at h
          cases links with
          | zero => cases h
          | succ links => exact .link hadvance (ih links (Nat.lt_succ_self links) h)
  · intro h
    induction h with
    | arrived hadvance => rw [follow, hadvance]
    | link hadvance _ ih =>
        rw [follow, hadvance]
        exact ih

/-- A walk that arrives can be gone on with, whatever links it has left. -/
theorem exists_follow_append
    {tree : FileTree} {links : Nat} {place stop : Place} {first : List String}
    (h : tree.follow links place first = .ok stop) :
    ∃ left, ∀ second, tree.follow links place (first ++ second) = tree.follow left stop second := by
  induction follow_eq_ok_iff.1 h with
  | @arrived links place stop first hadvance =>
      refine ⟨links, fun second => ?_⟩
      rw [follow, advance_append, hadvance, follow]
  | link hadvance harrives ih =>
      obtain ⟨left, hleft⟩ := ih (follow_eq_ok_iff.2 harrives)
      refine ⟨left, fun second => ?_⟩
      rw [follow, advance_append, hadvance]
      dsimp only
      rw [← List.append_assoc]
      exact hleft second

/-- A walk that fails also fails when it was to go on. -/
theorem follow_append_of_error
    {tree : FileTree} {links : Nat} {place : Place} {first : List String} {fault : SystemFault}
    (h : tree.follow links place first = .error fault) (second : List String) :
    tree.follow links place (first ++ second) = .error fault := by
  induction links using Nat.strong_induction_on generalizing place first with
  | h links ih =>
      rw [follow] at h
      rw [follow, advance_append]
      rcases hadvance : tree.advance place first with other | (reached | ⟨directory, target, rest⟩)
      · simpa [hadvance] using h
      · simp [hadvance] at h
      · rw [hadvance] at h
        cases links with
        | zero => exact h
        | succ links =>
            dsimp only
            rw [← List.append_assoc]
            exact ih links (Nat.lt_succ_self links) h

/-- The first steps are the second with some more that stay where they are. -/
inductive Dotted : List String → List String → Prop where
  | nil : Dotted [] []
  | keep (name : String) {long short : List String} (h : Dotted long short) :
      Dotted (name :: long) (name :: short)
  | dot {long short : List String} (h : Dotted long short) : Dotted ("." :: long) short

theorem Dotted.append
    {long short : List String} (h : Dotted long short) {otherLong otherShort : List String}
    (hother : Dotted otherLong otherShort) : Dotted (long ++ otherLong) (short ++ otherShort) := by
  induction h with
  | nil => exact hother
  | keep name _ ih => exact .keep name ih
  | dot _ ih => exact .dot ih

theorem Dotted.refl (steps : List String) : Dotted steps steps := by
  induction steps with
  | nil => exact .nil
  | cons name rest ih => exact .keep name ih

theorem dotted_filter (steps : List String) : Dotted steps (steps.filter (· ≠ ".")) := by
  induction steps with
  | nil => exact .nil
  | cons name rest ih =>
      by_cases hname : name = "."
      · rw [List.filter_cons_of_neg (by simpa using hname), hname]
        exact .dot ih
      · rw [List.filter_cons_of_pos (by simpa using hname)]
        exact .keep name ih

/-- A step that stays at a place fails only where there is no directory; then anything fails there but
to take no step at all. -/
theorem advance_dot
    (tree : FileTree) (place : Place) (steps : List String) :
    tree.advance place ("." :: steps) =
      match tree.directoryFault? place with
      | some fault => .error fault
      | none => tree.advance place steps := by
  rw [advance]
  rfl

/-- What becomes of a walk when steps are put in that stay where they are. -/
theorem advance_of_dotted
    (tree : FileTree) {long short : List String} (h : Dotted long short) (place : Place) :
    match tree.advance place short with
    | .error fault => tree.advance place long = .error fault
    | .ok (.arrived stop) => tree.advance place long = .ok (.arrived stop) ∨
        ∃ fault, tree.directoryFault? stop = some fault ∧ tree.advance place long = .error fault
    | .ok (.link directory target rest) => ∃ dotted, Dotted dotted rest ∧
        tree.advance place long = .ok (.link directory target dotted) := by
  induction h generalizing place with
  | nil => exact Or.inl rfl
  | @keep name long short hdotted ih =>
      rw [advance, advance]
      cases tree.directoryFault? place with
      | some fault => rfl
      | none =>
          dsimp only
          split_ifs
          · exact ih place
          · exact ih place.dropLast
          · rfl
          · rcases tree.node? (place ++ [name]) with _ | (_ | content | target)
            · exact ih (place ++ [name])
            · exact ih (place ++ [name])
            · exact ih (place ++ [name])
            · exact ⟨long, hdotted, rfl⟩
  | @dot long short hdotted ih =>
      rw [advance_dot]
      cases hfault : tree.directoryFault? place with
      | none => exact ih place
      | some fault =>
          dsimp only
          cases short with
          | nil => exact Or.inr ⟨fault, hfault, rfl⟩
          | cons name rest =>
              rw [advance, hfault]

/-- Steps that stay where they are change nothing about a walk that fails, and a walk that arrives does
so with them unless there is no directory where it arrives. -/
theorem follow_of_dotted
    (tree : FileTree) (links : Nat) (place : Place) {long short : List String}
    (h : Dotted long short) :
    match tree.follow links place short with
    | .error fault => tree.follow links place long = .error fault
    | .ok stop => tree.follow links place long = .ok stop ∨
        ∃ fault, tree.directoryFault? stop = some fault ∧
          tree.follow links place long = .error fault := by
  induction links using Nat.strong_induction_on generalizing place long short with
  | h links ih =>
      have hadvance := advance_of_dotted tree h place
      rw [follow, follow]
      rcases hshort : tree.advance place short with fault | (stop | ⟨directory, target, rest⟩)
      · rw [hshort] at hadvance
        dsimp only at hadvance ⊢
        rw [hadvance]
      · rw [hshort] at hadvance
        dsimp only at hadvance ⊢
        rcases hadvance with hlong | ⟨fault, hfault, hlong⟩
        · rw [hlong]
          exact Or.inl rfl
        · rw [hlong]
          exact Or.inr ⟨fault, hfault, rfl⟩
      · rw [hshort] at hadvance
        dsimp only at hadvance ⊢
        obtain ⟨dotted, hdotted, hlong⟩ := hadvance
        rw [hlong]
        cases links with
        | zero => rfl
        | succ links =>
            exact ih links (Nat.lt_succ_self links) _ ((Dotted.refl (stepsOf target)).append hdotted)

theorem walk_of_dotted_of_error
    {tree : FileTree} {path : Path} {long short : List String} (h : Dotted long short)
    {fault : SystemFault} (hwalk : tree.walk path short = .error fault) :
    tree.walk path long = .error fault := by
  have hfollow := follow_of_dotted tree mostLinks (startOf tree.workingDirectory path) h
  rw [walk] at hwalk
  rw [hwalk] at hfollow
  exact hfollow

theorem walk_of_dotted_of_ok
    {tree : FileTree} {path : Path} {long short : List String} (h : Dotted long short)
    {stop : Place} (hwalk : tree.walk path short = .ok stop) :
    tree.walk path long = .ok stop ∨
      ∃ fault, tree.directoryFault? stop = some fault ∧ tree.walk path long = .error fault := by
  have hfollow := follow_of_dotted tree mostLinks (startOf tree.workingDirectory path) h
  rw [walk] at hwalk
  rw [hwalk] at hfollow
  exact hfollow

/-- The places that a way from a place goes through, one for each of its names. -/
def placesOn (place : Place) : List String → List Place
  | [] => []
  | name :: way => (place ++ [name]) :: placesOn (place ++ [name]) way

theorem placesOn_append (place : Place) (first second : List String) :
    placesOn place (first ++ second) = placesOn place first ++ placesOn (place ++ first) second := by
  induction first generalizing place with
  | nil => rw [List.nil_append, placesOn, List.nil_append, List.append_nil]
  | cons name rest ih =>
      rw [List.cons_append, placesOn, placesOn, ih, List.cons_append, List.append_assoc,
        List.singleton_append]

theorem placesOn_concat (place : Place) (way : List String) (name : String) :
    placesOn place (way ++ [name]) = placesOn place way ++ [place ++ way ++ [name]] := by
  rw [placesOn_append, placesOn, placesOn]

theorem mem_placesOn_iff (place : Place) (way : List String) (other : Place) :
    other ∈ placesOn place way ↔ ∃ init, init ≠ [] ∧ init <+: way ∧ other = place ++ init := by
  induction way using List.reverseRecOn with
  | nil => simp [placesOn]
  | append_singleton way name ih =>
      rw [placesOn_concat, List.mem_append, ih, List.mem_singleton]
      constructor
      · rintro (⟨init, hne, hprefix, rfl⟩ | rfl)
        · exact ⟨init, hne, hprefix.trans (List.prefix_append _ _), rfl⟩
        · exact ⟨way ++ [name], by simp, List.prefix_rfl, List.append_assoc _ _ _⟩
      · rintro ⟨init, hne, hprefix, rfl⟩
        rcases List.prefix_concat_iff.1 hprefix with rfl | hprefix
        · exact Or.inr (List.append_assoc _ _ _).symm
        · exact Or.inl ⟨init, hne, hprefix, rfl⟩

/-- A name that the file system takes for a step into a directory or to a file. -/
structure IsEntryName (name : String) : Prop where
  ne_dot : name ≠ "."
  ne_dots : name ≠ ".."
  length_le : name.utf8ByteSize ≤ longestName

/-- None of the places is a link. -/
def HasNoLinkAt (tree : FileTree) (places : List Place) : Prop :=
  ∀ place ∈ places, ∀ target, tree.node? place ≠ some (.link target)

/-- Where no links are on a way, the walk along it fails at the first place that is no directory, the
last place aside, and else arrives. -/
theorem advance_way
    {tree : FileTree} {way : List String} (hnames : ∀ name ∈ way, IsEntryName name) {place : Place}
    (hlinks : tree.HasNoLinkAt (placesOn place way)) :
    tree.advance place way =
      match (place :: placesOn place way).dropLast.findSome? tree.directoryFault? with
      | some fault => .error fault
      | none => .ok (.arrived (place ++ way)) := by
  induction way generalizing place with
  | nil =>
      rw [placesOn, advance, List.append_nil]
      rfl
  | cons name rest ih =>
      obtain ⟨hname, hrest⟩ := List.forall_mem_cons.1 hnames
      obtain ⟨hlink, hlinks⟩ := List.forall_mem_cons.1 hlinks
      rw [placesOn, List.dropLast_cons_cons, List.findSome?_cons, advance]
      cases tree.directoryFault? place with
      | some fault => rfl
      | none =>
          dsimp only
          rw [if_neg hname.ne_dot, if_neg hname.ne_dots, if_neg (Nat.not_lt.2 hname.length_le),
            ih hrest hlinks, List.append_assoc, List.singleton_append]
          split
          · rename_i target htarget
            exact absurd htarget (hlink target)
          · rfl

theorem follow_way
    {tree : FileTree} {way : List String} (hnames : ∀ name ∈ way, IsEntryName name) {place : Place}
    (hlinks : tree.HasNoLinkAt (placesOn place way)) (links : Nat) :
    tree.follow links place way =
      match (place :: placesOn place way).dropLast.findSome? tree.directoryFault? with
      | some fault => .error fault
      | none => .ok (place ++ way) := by
  rw [follow, advance_way hnames hlinks]
  cases (place :: placesOn place way).dropLast.findSome? tree.directoryFault? <;> rfl

/-- Directories stay what they are, and links are where they were. -/
structure KeepsWays (before after : FileTree) : Prop where
  workingDirectory_eq : after.workingDirectory = before.workingDirectory
  directory : ∀ place, before.node? place = some .directory → after.node? place = some .directory
  link_iff : ∀ place target,
    after.node? place = some (.link target) ↔ before.node? place = some (.link target)

theorem KeepsWays.advance_eq
    {before after : FileTree} (h : before.KeepsWays after) {place : Place} {steps : List String}
    {stop : Stop} (hadvance : before.advance place steps = .ok stop) :
    after.advance place steps = .ok stop := by
  induction steps generalizing place with
  | nil => exact hadvance
  | cons name rest ih =>
      rw [advance] at hadvance ⊢
      cases hfault : before.directoryFault? place with
      | some fault => simp [hfault] at hadvance
      | none =>
          rw [directoryFault?_eq_none_iff] at hfault
          rw [(directoryFault?_eq_none_iff _ _).2 hfault] at hadvance
          rw [(directoryFault?_eq_none_iff _ _).2 (h.directory place hfault)]
          dsimp only at hadvance ⊢
          split_ifs at hadvance ⊢
          · exact ih hadvance
          · exact ih hadvance
          · split at hadvance
            · rename_i target htarget
              rw [(h.link_iff _ target).2 htarget]
              exact hadvance
            · rename_i hnone
              split
              · rename_i target htarget
                exact absurd ((h.link_iff _ target).1 htarget) (hnone target)
              · exact ih hadvance

/-- A walk that arrives still arrives there. -/
theorem KeepsWays.follow_eq
    {before after : FileTree} (h : before.KeepsWays after) {links : Nat} {place stop : Place}
    {steps : List String} (hfollow : before.follow links place steps = .ok stop) :
    after.follow links place steps = .ok stop := by
  rw [follow_eq_ok_iff] at hfollow ⊢
  induction hfollow with
  | arrived hadvance => exact .arrived (h.advance_eq hadvance)
  | link hadvance _ ih => exact .link (h.advance_eq hadvance) ih

end FileTree

end ComponentMarkers
