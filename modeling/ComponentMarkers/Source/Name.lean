import ComponentMarkers.Source.Syntax

/-!
# Dotted names, annotations and class types

Each reader here looks for one construct at the head of a row of trees and gives back what it read
and the trees after it.

A dotted name is what is written from its first word to its last; comments inside it belong to it.  Of a
class type the type arguments at its end are no part of the name, those further in are.
-/

namespace ComponentMarkers.Source

/-- The further segments of a dotted name: each a dot and a word. -/
def moreSegments : List Tree → List Tree × List Tree
  | dot :: segment :: rest =>
    if dot.isSymbol '.' && segment.word?.isSome then
      let (more, after) := moreSegments rest
      (dot :: segment :: more, after)
    else
      ([], dot :: segment :: rest)
  | trees => ([], trees)

/-- A dotted name at the head of the trees. -/
def dottedName? : List Tree → Option (String × List Tree)
  | [] => none
  | tree :: rest =>
    match tree.word? with
    | none => none
    | some word =>
      let (more, after) := moreSegments rest
      some (word ++ Tree.writtenAll more, after)

/-- The trees after a group in round brackets, if there is one at their head. -/
def afterArguments : List Tree → List Tree
  | [] => []
  | tree :: rest => if tree.isGroup .round then rest else tree :: rest

/-- An annotation at the head of the trees: its name is read, its arguments are passed over. -/
def annotation? : List Tree → Option (AnnotationNode × List Tree)
  | [] => none
  | tree :: rest =>
    if tree.isSymbol '@' then
      (dottedName? rest).map fun (name, after) => (⟨name⟩, afterArguments after)
    else
      none

theorem moreSegments_length (trees : List Tree) :
    (moreSegments trees).2.length ≤ trees.length := by
  fun_induction moreSegments trees with
  | case1 dot segment rest _ more after hrec ih =>
    rw [hrec] at ih
    exact Nat.le_add_right_of_le (Nat.le_add_right_of_le ih)
  | case2 => exact Nat.le_refl _
  | case3 => exact Nat.le_refl _

theorem dottedName?_length {trees after : List Tree} {name : String}
    (h : dottedName? trees = some (name, after)) : after.length < trees.length := by
  cases trees with
  | nil => simp [dottedName?] at h
  | cons tree rest =>
    simp only [dottedName?] at h
    split at h
    · simp at h
    · have := moreSegments_length rest
      simp only [Option.some.injEq, Prod.mk.injEq] at h
      rw [← h.2, List.length_cons]
      omega

theorem afterArguments_length (trees : List Tree) :
    (afterArguments trees).length ≤ trees.length := by
  unfold afterArguments
  split
  · exact Nat.le_refl _
  · split <;> simp

theorem annotation?_length {trees after : List Tree} {node : AnnotationNode}
    (h : annotation? trees = some (node, after)) : after.length < trees.length := by
  cases trees with
  | nil => simp [annotation?] at h
  | cons tree rest =>
    simp only [annotation?] at h
    split at h
    · obtain ⟨⟨found, tail⟩, hname, heq⟩ := Option.map_eq_some_iff.1 h
      have := dottedName?_length hname
      have := afterArguments_length tail
      simp only [Prod.mk.injEq] at heq
      rw [← heq.2, List.length_cons]
      omega
    · simp at h

/-- The words that modify a declaration wherever they stand before it. -/
def modifierWords : List String :=
  ["public", "protected", "private", "abstract", "static", "final", "strictfp", "default",
    "synchronized", "native", "transient", "volatile", "non-sealed"]

/-- The tree at the head is a modifier.  The word `sealed` is one where an annotation or a word that can
begin what is modified follows it, and a name elsewhere. -/
def isModifier : List Tree → Bool
  | [] => false
  | tree :: rest =>
    match tree.word? with
    | none => false
    | some "sealed" =>
      match rest with
      | [] => false
      | next :: _ => next.isSymbol '@' || next.word?.any fun word => word ≠ "instanceof"
    | some word => modifierWords.contains word

/-- The annotations among the modifiers at the head of the trees, and the trees after them. -/
def modifiers (trees : List Tree) : List AnnotationNode × List Tree :=
  match h : annotation? trees with
  | some (node, after) =>
    have := annotation?_length h
    let (more, rest) := modifiers after
    (node :: more, rest)
  | none =>
    match trees with
    | [] => ([], [])
    | tree :: rest => if isModifier (tree :: rest) then modifiers rest else ([], tree :: rest)
  termination_by trees.length

/-- The annotations at the head of the trees, and the trees after them. -/
def annotations (trees : List Tree) : List AnnotationNode × List Tree :=
  match h : annotation? trees with
  | some (node, after) =>
    have := annotation?_length h
    let (more, rest) := annotations after
    (node :: more, rest)
  | none => ([], trees)
  termination_by trees.length

/-- The trees from an opening angle bracket to the one that closes it, `level` being the number of
brackets open so far; none when they do not end before a body or the end of a statement. -/
def angleGroup? : (level : Nat) → List Tree → Option (List Tree × List Tree)
  | _, [] => none
  | level, tree :: rest =>
    if tree.isSymbol '<' then
      (angleGroup? (level + 1) rest).map fun (inner, after) => (tree :: inner, after)
    else if tree.isSymbol '>' then
      if level ≤ 1 then
        some ([tree], rest)
      else
        (angleGroup? (level - 1) rest).map fun (inner, after) => (tree :: inner, after)
    else if tree.isSymbol ';' || tree.isGroup .curly then
      none
    else
      (angleGroup? level rest).map fun (inner, after) => (tree :: inner, after)

/-- Type arguments or type parameters at the head of the trees. -/
def typeArguments? : List Tree → Option (List Tree × List Tree)
  | [] => none
  | tree :: rest => if tree.isSymbol '<' then angleGroup? 0 (tree :: rest) else none

/-- The trees after type arguments, if there are some at their head. -/
def afterTypeArguments (trees : List Tree) : List Tree :=
  match typeArguments? trees with
  | some (_, after) => after
  | none => trees

theorem angleGroup?_length {level : Nat} {trees inner after : List Tree}
    (h : angleGroup? level trees = some (inner, after)) : after.length < trees.length := by
  fun_induction angleGroup? level trees generalizing inner after
  case case1 | case5 => cases h
  case case3 =>
    cases h
    exact Nat.lt_succ_self _
  case case2 ih | case4 ih | case6 ih =>
    obtain ⟨⟨found, tail⟩, hrest, heq⟩ := Option.map_eq_some_iff.1 h
    obtain ⟨rfl, rfl⟩ := Prod.mk.inj heq
    exact Nat.lt_succ_of_lt (ih hrest)

theorem typeArguments?_length {trees inner after : List Tree}
    (h : typeArguments? trees = some (inner, after)) : after.length < trees.length := by
  cases trees with
  | nil => simp [typeArguments?] at h
  | cons tree rest =>
    simp only [typeArguments?] at h
    split at h
    · exact angleGroup?_length h
    · simp at h

theorem afterTypeArguments_length (trees : List Tree) :
    (afterTypeArguments trees).length ≤ trees.length := by
  unfold afterTypeArguments
  split
  · rename_i h
    exact Nat.le_of_lt (typeArguments?_length h)
  · exact Nat.le_refl _

theorem annotations_length (trees : List Tree) :
    (annotations trees).2.length ≤ trees.length := by
  fun_induction annotations trees with
  | case1 trees name after h _ names rest hrec ih =>
    have := annotation?_length h
    simp only [hrec] at ih
    simp only
    omega
  | case2 => exact Nat.le_refl _

theorem modifiers_length (trees : List Tree) :
    (modifiers trees).2.length ≤ trees.length := by
  fun_induction modifiers trees with
  | case1 trees name after h _ names rest hrec ih =>
    have := annotation?_length h
    simp only [hrec] at ih
    simp only
    omega
  | case2 => exact Nat.le_refl _
  | case3 tree rest _ _ ih =>
    rw [List.length_cons]
    omega
  | case4 => exact Nat.le_refl _

/-- The types that are written with one reserved word. -/
def primitiveTypes : List String :=
  ["byte", "short", "int", "long", "char", "float", "double", "boolean", "void"]

/-- A further name of a class type: a dot, annotations and a word.  They are given as written. -/
def nextTypeName? : List Tree → Option (List Tree × List Tree)
  | [] => none
  | dot :: rest =>
    if dot.isSymbol '.' then
      match (annotations rest).2 with
      | [] => none
      | name :: after =>
        if name.word?.isSome then
          some (dot :: rest.take (rest.length - after.length), after)
        else
          none
    else
      none

theorem nextTypeName?_length {trees name after : List Tree}
    (h : nextTypeName? trees = some (name, after)) : after.length < trees.length := by
  cases trees with
  | nil => simp [nextTypeName?] at h
  | cons dot rest =>
    have hrest := annotations_length rest
    simp only [nextTypeName?] at h
    split at h
    · split at h
      · simp at h
      · rename_i hnames
        rw [hnames] at hrest
        split at h
        · simp only [Option.some.injEq, Prod.mk.injEq] at h
          rw [← h.2]
          simp only [List.length_cons] at hrest ⊢
          omega
        · simp at h
    · simp at h

/-- What follows the first name of a class type: type arguments, and further names.  The first result
is what is written up to the last name of the type, without the type arguments at its end. -/
def classTypeTail (trees : List Tree) : List Tree × List Tree :=
  let after := afterTypeArguments trees
  match h : nextTypeName? after with
  | some (name, more) =>
    have : more.length < trees.length :=
      Nat.lt_of_lt_of_le (nextTypeName?_length h) (afterTypeArguments_length trees)
    let (tail, final) := classTypeTail more
    (trees.take (trees.length - after.length) ++ name ++ tail, final)
  | none => ([], after)
  termination_by trees.length

theorem classTypeTail_length (trees : List Tree) :
    (classTypeTail trees).2.length ≤ trees.length := by
  fun_induction classTypeTail trees with
  | case1 trees after name more h hlt tail final hrec ih =>
    simp only [hrec] at ih
    simp only
    omega
  | case2 trees => exact afterTypeArguments_length trees

/-- One pair of square brackets at the head of the trees, annotations before it passed over: the trees
after it. -/
def dimension? (trees : List Tree) : Option (List Tree) :=
  match (annotations trees).2 with
  | [] => none
  | tree :: rest => if tree.isGroup .square then some rest else none

theorem dimension?_length {trees after : List Tree} (h : dimension? trees = some after) :
    after.length < trees.length := by
  have hnames := annotations_length trees
  unfold dimension? at h
  split at h
  · simp at h
  · rename_i tree rest htrees
    rw [htrees, List.length_cons] at hnames
    split at h
    · cases h
      omega
    · simp at h

/-- The trees after the dimensions of an array type or of a declarator. -/
def afterDimensions (trees : List Tree) : List Tree :=
  match h : dimension? trees with
  | some rest =>
    have := dimension?_length h
    afterDimensions rest
  | none => trees
  termination_by trees.length

theorem afterDimensions_length (trees : List Tree) :
    (afterDimensions trees).length ≤ trees.length := by
  fun_induction afterDimensions trees with
  | case1 trees rest h _ ih =>
    have := dimension?_length h
    omega
  | case2 => exact Nat.le_refl _

/-- A type at the head of the trees, and the trees after it. -/
def typeReference? (trees : List Tree) : Option (TypeReference × List Tree) :=
  match (annotations trees).2 with
  | [] => none
  | tree :: rest =>
    match tree.word? with
    | none => none
    | some word =>
      if primitiveTypes.contains word then
        let final := afterDimensions rest
        some (if final.length < rest.length then .array else .primitive, final)
      else
        let (tail, after) := classTypeTail rest
        let final := afterDimensions after
        some (if final.length < after.length then .array else .named (word ++ Tree.writtenAll tail), final)

theorem typeReference?_length {trees after : List Tree} {type : TypeReference}
    (h : typeReference? trees = some (type, after)) : after.length < trees.length := by
  have hnames := annotations_length trees
  unfold typeReference? at h
  split at h
  · simp at h
  · rename_i tree rest htrees
    rw [htrees] at hnames
    split at h
    · simp at h
    · split at h
      · have := afterDimensions_length rest
        simp only [Option.some.injEq, Prod.mk.injEq] at h
        rw [← h.2]
        simp only [List.length_cons] at hnames
        omega
      · have := classTypeTail_length rest
        have := afterDimensions_length (classTypeTail rest).2
        simp only [List.length_cons] at hnames
        simp only [Option.some.injEq, Prod.mk.injEq] at h
        rw [← h.2]
        omega

end ComponentMarkers.Source
