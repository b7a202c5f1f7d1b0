/-!
# Sets in the order of entry

A list without repetitions to which entries are added at the end.  An entry that is already there keeps
its place.
-/

namespace ComponentMarkers

/-- Distinct entries in the order in which they came. -/
structure OrderedSet (α : Type) where
  toList : List α
  nodup : toList.Nodup
  deriving DecidableEq, Repr

namespace OrderedSet

variable {α : Type} [DecidableEq α]

/-- The set without entries. -/
def empty : OrderedSet α :=
  ⟨[], List.nodup_nil⟩

/-- The entry is in the set. -/
def contains (set : OrderedSet α) (entry : α) : Bool :=
  decide (entry ∈ set.toList)

/-- Adds an entry unless it is there. -/
def insert (set : OrderedSet α) (entry : α) : OrderedSet α :=
  if h : entry ∈ set.toList then
    set
  else
    ⟨set.toList ++ [entry], by
      refine List.nodup_append.2 ⟨set.nodup, by simp, ?_⟩
      intro a ha b hb heq
      rw [List.mem_singleton] at hb
      exact h (hb ▸ heq ▸ ha)⟩

/-- Adds entries one after the other. -/
def insertAll (set : OrderedSet α) (entries : List α) : OrderedSet α :=
  entries.foldl insert set

/-- The distinct entries of a list. -/
def ofList (entries : List α) : OrderedSet α :=
  empty.insertAll entries

/-- The number of entries. -/
def size (set : OrderedSet α) : Nat :=
  set.toList.length

theorem mem_insert (set : OrderedSet α) (entry other : α) :
    other ∈ (set.insert entry).toList ↔ other ∈ set.toList ∨ other = entry := by
  unfold insert
  split
  · rename_i h
    constructor
    · exact Or.inl
    · rintro (hother | rfl)
      · exact hother
      · exact h
  · simp

theorem mem_insertAll (set : OrderedSet α) (entries : List α) (other : α) :
    other ∈ (set.insertAll entries).toList ↔ other ∈ set.toList ∨ other ∈ entries := by
  induction entries generalizing set with
  | nil => simp [insertAll]
  | cons entry rest ih =>
    have h := ih (set.insert entry)
    simp only [insertAll, List.foldl_cons] at h ⊢
    rw [h, mem_insert, List.mem_cons, or_assoc]

end OrderedSet

end ComponentMarkers
