import ComponentMarkers.Proofs.Source.Bodies
import ComponentMarkers.Proofs.Source.Origins
import ComponentMarkers.Proofs.Source.Places

/-!
# Sources are read to their last level

Declarations are read to the depth of the brackets of their source.  The body of a type is one level
deeper than the row of trees that the type is read from, so every type that the reader comes to, however
far inside other ones, is declared in the unit.
-/

namespace ComponentMarkers.Source

open Text Source.Tree

section Rows

variable {trees after : List Tree}

theorem depthAll_le_of_suffix {others : List Tree} (h : trees <:+ others) :
    depthAll trees ≤ depthAll others := by
  obtain ⟨before, rfl⟩ := h
  rw [depthAll_append]
  exact Nat.le_max_right _ _

theorem depthAll_body_lt_of_body? {body : List Tree} (h : body? trees = some (body, after)) :
    depthAll body < depthAll trees := by
  fun_induction body? trees with
  | case1 => cases h
  | case2 opening inner closing rest =>
      obtain ⟨rfl, -⟩ := Prod.mk.inj (Option.some.inj h)
      exact Nat.lt_of_lt_of_le (Nat.lt_succ_self _) (Nat.le_max_left _ _)
  | case3 => cases h
  | case4 tree rest _ _ ih => exact Nat.lt_of_lt_of_le (ih h) (Nat.le_max_right _ _)

theorem depthAll_body_lt_of_typeHead?
    {names : List AnnotationNode} {head : TypeHead} (h : typeHead? names trees = some (head, after)) :
    depthAll head.body < depthAll trees := by
  obtain ⟨keyword, name, rest, rfl, -, -, hbody⟩ := exists_of_typeHead? h
  have hrest : afterTypeArguments rest <:+ keyword :: name :: rest :=
    ((afterTypeArguments_suffix rest).trans (List.suffix_cons name rest)).trans
      (List.suffix_cons keyword _)
  exact Nat.lt_of_lt_of_le (depthAll_body_lt_of_body? hbody) (depthAll_le_of_suffix hrest)

end Rows

/-- A type inside another one has a body with fewer levels. -/
theorem TypeHead.depthAll_body_lt_of_mem {head outer : TypeHead} (h : .type head ∈ outer.members) :
    depthAll head.body < depthAll outer.body := by
  obtain ⟨row, hrow, hreads⟩ := outer.exists_readsMember h
  cases hreads with
  | type hhead =>
      exact Nat.lt_of_lt_of_le (depthAll_body_lt_of_typeHead? hhead)
        (depthAll_le_of_suffix ((modifiers_suffix row).trans hrow))

theorem depthAll_body_lt_of_mem_items
    {trees : List Tree} {head : TypeHead} (h : .type head ∈ items trees) :
    depthAll head.body < depthAll trees := by
  obtain ⟨names, row, after, hrow, hhead⟩ := exists_typeHead?_of_mem_items h
  exact Nat.lt_of_lt_of_le (depthAll_body_lt_of_typeHead? hhead) (depthAll_le_of_suffix hrow)

/-- The reader comes to the type at the top of the trees or among the members of a type it has come to. -/
inductive IsRead (trees : List Tree) : TypeHead → Prop where
  | top {head : TypeHead} (h : .type head ∈ items trees) : IsRead trees head
  | inside {head outer : TypeHead} (houter : IsRead trees outer) (h : .type head ∈ outer.members) :
      IsRead trees head

/-- What the reader comes to is declared, with everything inside it. -/
theorem IsRead.exists_hasPlace
    {source : String} {head : TypeHead} (h : IsRead (nest (tokens source)) head) (path : Option Path) :
    ∃ levels place, depthAll head.body < levels ∧
      (readUnit source path).HasPlace (head.declaration levels :: place) := by
  induction h with
  | top hmem =>
      refine ⟨depthAll (nest (tokens source)), [], depthAll_body_lt_of_mem_items hmem, ?_⟩
      apply CompilationUnit.HasPlace.inside .package
      rw [CompilationUnit.declaredAt, readUnit, types_unitOfItems]
      exact List.mem_map_of_mem (List.mem_filterMap.2 ⟨_, hmem, rfl⟩)
  | @inside head outer _ hmem ih =>
      obtain ⟨levels, place, hlevels, hplace⟩ := ih
      obtain ⟨lower, rfl⟩ : ∃ lower, levels = lower + 1 :=
        Nat.exists_eq_add_one_of_ne_zero (Nat.ne_zero_of_lt hlevels)
      refine ⟨lower, _, ?_, .inside hplace ?_⟩
      · exact Nat.lt_of_lt_of_le (TypeHead.depthAll_body_lt_of_mem hmem) (Nat.le_of_lt_succ hlevels)
      · rw [CompilationUnit.declaredAt, TypeHead.members_declaration_succ]
        exact List.mem_flatMap.2 ⟨_, hmem, List.mem_singleton_self _⟩

end ComponentMarkers.Source
