import ComponentMarkers.Path

/-!
# The order of paths

Steps are ordered by kind and then by name, and lists of steps as words are.  So paths are ordered
totally, and two of them stand at one point of the order exactly when they are spellings of one path.
-/

namespace ComponentMarkers

namespace Component

theorem compare_eq_iff (a b : Component) : a.compare b = .eq ↔ a = b := by
  cases a with
  | root => cases b <;> simp [compare, rank]
  | current => cases b <;> simp [compare, rank]
  | parent => cases b <;> simp [compare, rank]
  | normal x =>
      cases b with
      | normal y => simp [compare]
      | _ => simp [compare, rank]

/-- The name of a step to a name, for the others the empty text. -/
def label (step : Component) : String :=
  step.name?.getD ""

/-- Steps are compared by the position of their kind and then by their labels. -/
theorem compare_eq_compareLex :
    Component.compare = compareLex (compareOn rank) (compareOn label) := by
  funext step other
  cases step <;> cases other <;> rfl

instance : Std.TransCmp Component.compare := by
  rw [compare_eq_compareLex]
  infer_instance

end Component

namespace Path

theorem compareComponents_eq_iff (a b : List Component) :
    compareComponents a b = .eq ↔ a = b := by
  induction a generalizing b with
  | nil => cases b <;> simp [compareComponents]
  | cons x rest ih =>
      cases b with
      | nil => simp [compareComponents]
      | cons y others =>
          rw [compareComponents, Ordering.then_eq_eq, Component.compare_eq_iff, ih,
            List.cons.injEq]

theorem same_iff {path other : Path} : path.same other ↔ path.components = other.components :=
  decide_eq_true_iff

theorem compare_eq_iff (a b : Path) : a.compare b = .eq ↔ a.same b := by
  rw [compare, compareComponents_eq_iff, same, decide_eq_true_eq]

theorem compareComponents_eq_compareLex :
    compareComponents = List.compareLex Component.compare := by
  funext steps others
  induction steps generalizing others with
  | nil => cases others <;> rfl
  | cons step rest ih =>
      cases others with
      | nil => rfl
      | cons other more => rw [compareComponents, List.compareLex_cons_cons, ih]

instance : Std.TransCmp compareComponents := by
  rw [compareComponents_eq_compareLex]
  infer_instance

instance : Std.TransCmp Path.compare where
  eq_swap {path other} :=
    @Std.OrientedCmp.eq_swap _ compareComponents _ path.components other.components
  isLE_trans {path next last} :=
    @Std.TransCmp.isLE_trans _ compareComponents _ path.components next.components last.components

/-- Sorting puts paths in their order. -/
theorem pairwise_mergeSort (paths : List Path) :
    (paths.mergeSort fun path next => path.compare next != .gt).Pairwise fun path next =>
      (path.compare next).isLE := by
  have hle : ∀ path next : Path, (path.compare next != .gt) = (path.compare next).isLE := by
    intro path next
    cases path.compare next <;> rfl
  simp only [hle]
  apply List.pairwise_mergeSort
  · intro path next last
    exact Std.TransCmp.isLE_trans
  · intro path next
    have hswap : next.compare path = (path.compare next).swap := Std.OrientedCmp.eq_swap
    rw [hswap]
    cases path.compare next <;> rfl

end Path

end ComponentMarkers
