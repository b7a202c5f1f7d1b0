import ComponentMarkers.Element

/-!
# Indexes of names

An index sends names to elements.  The first element entered under a name keeps it.
-/

namespace ComponentMarkers

/-- Names and the elements they were given to, in the order of entry. -/
structure NameIndex where
  entries : List (String × ElementId)
  deriving DecidableEq, Repr

namespace NameIndex

/-- The index without names. -/
def empty : NameIndex :=
  ⟨[]⟩

/-- The element a name was given to. -/
def find? (index : NameIndex) (name : String) : Option ElementId :=
  index.entries.lookup name

/-- Gives a name to an element unless another one has it. -/
def insertNew (index : NameIndex) (name : String) (id : ElementId) : NameIndex :=
  match index.find? name with
  | some _ => index
  | none => ⟨index.entries ++ [(name, id)]⟩

theorem find?_empty (name : String) : empty.find? name = none :=
  rfl

theorem find?_insertNew (index : NameIndex) (name other : String) (id : ElementId) :
    (index.insertNew name id).find? other =
      (index.find? other).or (if other = name then some id else none) := by
  unfold insertNew
  split
  · rename_i found h
    split
    · rename_i heq
      rw [heq, h]
      rfl
    · rw [Option.or_none]
  · rename_i h
    simp only [find?, List.lookup_append, List.lookup_cons, List.lookup_nil]
    congr 1
    by_cases heq : other = name
    · simp [heq]
    · simp [heq, beq_eq_false_iff_ne.2 heq]

end NameIndex

end ComponentMarkers
