import ComponentMarkers.Source.Name

/-!
# Initializers and statements that are passed over

Nothing in the value of a field or in a statement is a declaration of the unit.  What the reader needs
of a value is where it ends: at a comma or a semicolon outside all brackets, or before a word that cannot
go on with it.  Round, square and curly brackets are groups by now; angle brackets are not, and a comma
between type arguments ends nothing.
-/

namespace ComponentMarkers.Source

/-- The trees begin with the two colons of a method reference. -/
def startsReference : List Tree → Bool
  | first :: second :: _ => first.isSymbol ':' && second.isSymbol ':'
  | _ => false

/-- The trees after a class type at the head of the trees, the trees themselves when there is none. -/
def afterType (trees : List Tree) : List Tree :=
  match typeReference? trees with
  | some (_, after) => after
  | none => trees

/-- After type arguments the trees go on with a method reference, a class literal or a further name of the
type.  An operand never begins like that. -/
def goesOnType (trees : List Tree) : Bool :=
  startsReference (afterDimensions trees) || (nextTypeName? (afterDimensions trees)).isSome

/-- The trees after type arguments at their head, if it is by a type that an operand begins: elsewhere
angle brackets are operators. -/
def referenceArguments? (trees : List Tree) : Option (List Tree) :=
  match typeArguments? trees with
  | some (_, after) => if goesOnType after then some after else none
  | none => none

/-- The trees after an annotation at their head, if it belongs to the type of a method reference. -/
def referenceAnnotation? (trees : List Tree) : Option (List Tree) :=
  match annotation? trees with
  | some (_, after) => if startsReference (afterType after) then some after else none
  | none => none

/-- The trees after what a method reference names, up to a name: type arguments, and the word `new`. -/
def afterColons (trees : List Tree) : List Tree :=
  match afterTypeArguments trees with
  | [] => []
  | tree :: rest => if tree.isWord "new" then rest else tree :: rest

/-- The trees after the smallest part of an expression that begins with `tree` and hides no comma. -/
def afterPart (tree : Tree) (rest : List Tree) : List Tree :=
  if tree.isWord "new" then
    afterType (afterTypeArguments (annotations rest).2)
  else if tree.isWord "instanceof" then
    afterType (modifiers rest).2
  else if startsReference (tree :: rest) then
    afterColons rest.tail
  else if tree.isSymbol '.' || tree.isSymbol ':' then
    afterTypeArguments rest
  else
    match referenceArguments? (tree :: rest), referenceAnnotation? (tree :: rest) with
    | some after, _ => after
    | none, some after => after
    | none, none => rest

theorem afterType_length (trees : List Tree) : (afterType trees).length ≤ trees.length := by
  unfold afterType
  split
  · rename_i h
    exact Nat.le_of_lt (typeReference?_length h)
  · exact Nat.le_refl _

theorem referenceArguments?_length {trees after : List Tree}
    (h : referenceArguments? trees = some after) : after.length < trees.length := by
  unfold referenceArguments? at h
  split at h
  · rename_i inner tail harguments
    split at h
    · cases h
      exact typeArguments?_length harguments
    · simp at h
  · simp at h

theorem referenceAnnotation?_length {trees after : List Tree}
    (h : referenceAnnotation? trees = some after) : after.length < trees.length := by
  unfold referenceAnnotation? at h
  split at h
  · rename_i name tail hannotation
    split at h
    · cases h
      exact annotation?_length hannotation
    · simp at h
  · simp at h

theorem afterColons_length (trees : List Tree) : (afterColons trees).length ≤ trees.length := by
  have h := afterTypeArguments_length trees
  unfold afterColons
  split
  · exact Nat.zero_le _
  · rename_i tree rest heq
    rw [heq, List.length_cons] at h
    split
    · omega
    · exact h

theorem afterPart_length (tree : Tree) (rest : List Tree) :
    (afterPart tree rest).length ≤ rest.length := by
  unfold afterPart
  split
  · exact Nat.le_trans (afterType_length _)
      (Nat.le_trans (afterTypeArguments_length _) (annotations_length rest))
  split
  · exact Nat.le_trans (afterType_length _) (modifiers_length rest)
  split
  · refine Nat.le_trans (afterColons_length _) ?_
    rw [List.length_tail]
    exact Nat.sub_le _ _
  split
  · exact afterTypeArguments_length rest
  split
  · rename_i h
    exact Nat.le_of_lt_succ (referenceArguments?_length h)
  · rename_i h
    exact Nat.le_of_lt_succ (referenceAnnotation?_length h)
  · exact Nat.le_refl _

/-- An operand ends with such a tree, `ended` telling whether one ended before it.  Arguments and
indexes belong to the operand before them. -/
def endsOperand (ended : Bool) : Tree → Bool
  | .leaf ⟨_, .symbol _⟩ => false
  | .leaf ⟨_, .word text⟩ => text ≠ "instanceof"
  | .leaf _ => true
  | .group .curly _ _ _ => true
  | .group _ _ _ _ => ended

/-- After an operand the tree does not belong to the same expression. -/
def startsAnew (tree : Tree) : Bool :=
  tree.word?.any fun word => word ≠ "instanceof"

/-- The trees from the one that ends the value at the head of the trees, `ended` telling whether an
operand has just ended. -/
def afterValue : (ended : Bool) → List Tree → List Tree
  | _, [] => []
  | ended, tree :: rest =>
    if tree.isSymbol ',' || tree.isSymbol ';' || (ended && startsAnew tree) then
      tree :: rest
    else
      have := afterPart_length tree rest
      afterValue (endsOperand ended tree) (afterPart tree rest)
  termination_by _ trees => trees.length

theorem afterValue_length (ended : Bool) (trees : List Tree) :
    (afterValue ended trees).length ≤ trees.length := by
  fun_induction afterValue ended trees with
  | case1 => exact Nat.le_refl _
  | case2 => exact Nat.le_refl _
  | case3 ended tree rest _ h ih =>
    rw [List.length_cons]
    omega

/-- The trees after the value that an equals sign at the head of the trees introduces. -/
def afterInitializer : List Tree → List Tree
  | [] => []
  | tree :: rest => if tree.isSymbol '=' then afterValue false rest else tree :: rest

theorem afterInitializer_length (trees : List Tree) :
    (afterInitializer trees).length ≤ trees.length := by
  unfold afterInitializer
  split
  · exact Nat.le_refl _
  · rename_i tree rest
    have := afterValue_length false rest
    split <;> simp only [List.length_cons] <;> omega

/-- The trees after the next semicolon or block, whichever comes first. -/
def afterBlock : List Tree → List Tree
  | [] => []
  | tree :: rest =>
    if tree.isSymbol ';' || tree.isGroup .curly then rest else afterBlock rest

theorem afterBlock_length (trees : List Tree) : (afterBlock trees).length ≤ trees.length := by
  fun_induction afterBlock trees with
  | case1 => exact Nat.le_refl _
  | case2 => exact Nat.le_succ _
  | case3 tree rest _ ih => exact Nat.le_succ_of_le ih

end ComponentMarkers.Source
