import ComponentMarkers.Source.Initializer

/-!
# Members of a type

A body is read one member at a time.  What a type declares inside its own body is left for later: the
reader hands on the body's trees as they are.  Bodies of methods, constructors and initializers, and
the arguments and bodies of enum constants, are passed over.
-/

namespace ComponentMarkers.Source

/-- The kind of type that is declared at the head of the trees.  The word `record` may also be a
name: it declares a type where a name and type parameters or components follow. -/
def typeKind? : List Tree → Option ElementKind
  | keyword :: name :: rest =>
    if name.word?.isNone then
      none
    else
      match keyword.word? with
      | some "class" => some .classType
      | some "interface" => some .interface
      | some "enum" => some .enum
      | some "@interface" => some .annotationType
      | some "record" =>
        match rest with
        | next :: _ => if next.isSymbol '<' || next.isGroup .round then some .record else none
        | [] => none
      | _ => none
  | _ => none

/-- The body at or after the head of the trees, and the trees after it; none when the statement ends
before there is a body. -/
def body? : List Tree → Option (List Tree × List Tree)
  | [] => none
  | .group .curly _ inner _ :: rest => some (inner, rest)
  | tree :: rest => if tree.isSymbol ';' then none else body? rest

/-- The `extends` clause at the head of the trees. -/
def extendsClause? : List Tree → Option ExtendsClause
  | keyword :: type :: rest =>
    if keyword.isWord "extends" then
      if type.first.before.isEmpty then
        (typeReference? (type :: rest)).map fun (type, _) => .type type
      else
        some .comment
    else
      none
  | _ => none

/-- The declaration of a type at the head of the trees, its modifiers having been read. -/
def typeHead? (modifiers : List AnnotationNode) (trees : List Tree) : Option (TypeHead × List Tree) :=
  match typeKind? trees, trees with
  | some kind, _ :: name :: rest =>
    let clauses := afterTypeArguments rest
    (body? clauses).map fun (body, after) =>
      ({ kind := kind
         name := name.word?.getD ""
         modifiers := modifiers
         superclass := if kind = .classType then extendsClause? clauses else none
         body := body }, after)
  | _, _ => none

/-- The trees after the name of a field: its dimensions and its value are passed over. -/
def afterField (trees : List Tree) : List Tree :=
  afterInitializer (afterDimensions trees)

theorem afterField_length (trees : List Tree) : (afterField trees).length ≤ trees.length :=
  Nat.le_trans (afterInitializer_length _) (afterDimensions_length trees)

/-- The names that a declaration of fields introduces, and the trees after them. -/
def declarators : List Tree → List String × List Tree
  | [] => ([], [])
  | tree :: rest =>
    match tree.word? with
    | none => if tree.isSymbol ',' then declarators rest else ([], tree :: rest)
    | some name =>
      match _h : afterField rest with
      | [] => ([name], [])
      | mark :: more =>
        if mark.isSymbol ',' then
          let (names, after) := declarators more
          (name :: names, after)
        else
          ([name], mark :: more)
  termination_by trees => trees.length
  decreasing_by
    · exact Nat.lt_succ_self _
    · have := afterField_length rest
      simp only [_h, List.length_cons] at *
      omega

/-- The trees after a semicolon, if there is one at their head. -/
def afterEnd : List Tree → List Tree
  | [] => []
  | tree :: rest => if tree.isSymbol ';' then rest else tree :: rest

/-- The trees after some types with commas between them. -/
def afterTypes (trees : List Tree) : List Tree :=
  match h : typeReference? trees with
  | some (_, comma :: rest) =>
    have := typeReference?_length h
    if comma.isSymbol ',' then afterTypes rest else comma :: rest
  | some (_, []) => []
  | none => trees
  termination_by trees.length
  decreasing_by
    simp only [List.length_cons] at this
    omega

/-- The trees after a `throws` clause, if there is one at their head. -/
def afterThrows : List Tree → List Tree
  | [] => []
  | tree :: rest => if tree.isWord "throws" then afterTypes rest else tree :: rest

/-- A tree that ends a method: its body or a semicolon. -/
def endsMethod (tree : Tree) : Bool :=
  tree.isSymbol ';' || tree.isGroup .curly

/-- The annotation that is the value after the word `default`, as a list of at most one. -/
def defaultValue (trees : List Tree) : List AnnotationNode :=
  match annotation? trees with
  | some (node, after) => if startsReference (afterType after) then [] else [node]
  | none => []

/-- What follows the parameters of a method: the annotation that is its value, and the trees after the
method.  A method ends with its body or with a semicolon; a tree that does not belong before them is
passed over. -/
def methodEnd (trees : List Tree) : List AnnotationNode × List Tree :=
  match afterThrows (afterDimensions trees) with
  | [] => ([], [])
  | tree :: rest =>
    if tree.isWord "default" then
      (defaultValue rest, afterEnd (afterValue false rest))
    else if endsMethod tree then
      ([], rest)
    else
      match rest with
      | next :: after => ([], if endsMethod next then after else tree :: rest)
      | [] => ([], [tree])

/-- A constructor at the head of the trees. -/
def constructor? (modifiers : List AnnotationNode) : List Tree → Option (Member × List Tree)
  | name :: parameters :: rest =>
    if name.word?.isSome && parameters.isGroup .round then
      some (.constructor modifiers, afterBlock rest)
    else if name.word?.isSome && parameters.isGroup .curly then
      some (.constructor modifiers, rest)
    else
      none
  | _ => none

/-- The method or the fields at the head of the trees, which begin with their type. -/
def typedMembers? (modifiers own : List AnnotationNode) (trees : List Tree) :
    Option (List Member × List Tree) :=
  match typeReference? trees with
  | some (_, name :: rest) =>
    match name.word?, rest with
    | none, _ => some ([], name :: rest)
    | some method, parameters :: after =>
      if parameters.isGroup .round then
        let (value, after) := methodEnd after
        some ([.method modifiers (own ++ value) method], after)
      else
        let (names, after) := declarators (name :: rest)
        some ([.fields modifiers own names], afterEnd after)
    | some field, [] => some ([.fields modifiers own [field]], [])
  | some (_, []) => some ([], [])
  | none => none

/-- The member that the trees begin with, if they begin with one, and the trees after it.  What is no
member is passed over, tree by tree. -/
def nextMembers (trees : List Tree) : List Member × List Tree :=
  let (found, rest) := modifiers trees
  match typeHead? found rest with
  | some (head, after) => ([.type head], after)
  | none =>
    let (own, rest) := annotations (afterTypeArguments rest)
    match constructor? found rest with
    | some (member, after) => ([member], after)
    | none =>
      match typedMembers? found own rest with
      | some result => result
      | none => ([], rest.tail)

/-- The trees after the name of an enum constant: its arguments and its body are passed over. -/
def afterConstant (trees : List Tree) : List Tree :=
  match afterArguments trees with
  | [] => []
  | tree :: rest => if tree.isGroup .curly then rest else tree :: rest

theorem afterConstant_length (trees : List Tree) :
    (afterConstant trees).length ≤ trees.length := by
  have h := afterArguments_length trees
  unfold afterConstant
  split
  · exact Nat.zero_le _
  · rename_i tree rest heq
    rw [heq] at h
    simp only [List.length_cons] at h
    split
    · omega
    · simpa using h

/-- The constants that the body of an enum begins with, and the trees from the semicolon or tree
after the last one. -/
def constants (trees : List Tree) : List Member × List Tree :=
  match h : modifiers trees with
  | (found, name :: rest) =>
    match name.word? with
    | none =>
      if name.isSymbol ',' then
        have : rest.length < trees.length := by
          have hmodifiers := modifiers_length trees
          rw [h, List.length_cons] at hmodifiers
          omega
        constants rest
      else
        ([], name :: rest)
    | some constant =>
      match hafter : afterConstant rest with
      | [] => ([.constant found constant], [])
      | mark :: more =>
        if mark.isSymbol ',' then
          have : more.length < trees.length := by
            have hmodifiers := modifiers_length trees
            have := afterConstant_length rest
            rw [h, List.length_cons] at hmodifiers
            rw [hafter, List.length_cons] at this
            omega
          let (members, after) := constants more
          (.constant found constant :: members, after)
        else
          ([.constant found constant], mark :: more)
  | (_, []) => ([], [])
  termination_by trees.length

theorem body?_length {trees body after : List Tree} (h : body? trees = some (body, after)) :
    after.length < trees.length := by
  fun_induction body? trees with
  | case1 => cases h
  | case2 =>
    cases h
    exact Nat.lt_succ_self _
  | case3 => cases h
  | case4 tree rest _ _ ih =>
    have := ih h
    rw [List.length_cons]
    omega

theorem typeHead?_length {found : List AnnotationNode} {trees after : List Tree} {head : TypeHead}
    (h : typeHead? found trees = some (head, after)) : after.length < trees.length := by
  unfold typeHead? at h
  split at h
  · rename_i rest _
    obtain ⟨⟨body, tail⟩, hbody, heq⟩ := Option.map_eq_some_iff.1 h
    have := body?_length hbody
    have := afterTypeArguments_length rest
    simp only [Prod.mk.injEq] at heq
    rw [← heq.2]
    simp only [List.length_cons]
    omega
  · simp at h

theorem declarators_length (trees : List Tree) :
    (declarators trees).2.length ≤ trees.length := by
  fun_induction declarators trees with
  | case1 => exact Nat.le_refl _
  | case2 tree rest _ _ ih => exact Nat.le_succ_of_le ih
  | case3 => exact Nat.le_refl _
  | case4 => exact Nat.zero_le _
  | case5 tree rest name hname mark more h hmark names after hrec ih =>
    have := afterField_length rest
    rw [h] at this
    rw [hrec] at ih
    simp only [List.length_cons] at this ih ⊢
    omega
  | case6 tree rest name hname mark more h hmark =>
    have := afterField_length rest
    rw [h] at this
    simp only [List.length_cons] at this ⊢
    omega

theorem afterEnd_length (trees : List Tree) : (afterEnd trees).length ≤ trees.length := by
  unfold afterEnd
  split
  · exact Nat.le_refl _
  · split <;> simp

theorem afterTypes_length (trees : List Tree) : (afterTypes trees).length ≤ trees.length := by
  fun_induction afterTypes trees with
  | case1 trees name comma rest h hlt _ ih =>
    simp only [List.length_cons] at hlt
    omega
  | case2 trees name comma rest h hlt _ => exact Nat.le_of_lt hlt
  | case3 => exact Nat.zero_le _
  | case4 => exact Nat.le_refl _

theorem afterThrows_length (trees : List Tree) : (afterThrows trees).length ≤ trees.length := by
  unfold afterThrows
  split
  · exact Nat.le_refl _
  · rename_i tree rest
    have := afterTypes_length rest
    split <;> simp only [List.length_cons] <;> omega

theorem methodEnd_length (trees : List Tree) : (methodEnd trees).2.length ≤ trees.length := by
  have hlt := Nat.le_trans (afterThrows_length _) (afterDimensions_length trees)
  unfold methodEnd
  split
  · exact Nat.zero_le _
  · rename_i tree rest heq
    rw [heq, List.length_cons] at hlt
    have hvalue := Nat.le_trans (afterEnd_length _) (afterValue_length false rest)
    split
    · simp only
      omega
    · split
      · simp only
        omega
      · split
        · simp only [List.length_cons] at hlt
          split
          · simp only
            omega
          · simp only [List.length_cons]
            omega
        · exact hlt

theorem constructor?_length {found : List AnnotationNode} {trees after : List Tree} {member : Member}
    (h : constructor? found trees = some (member, after)) : after.length < trees.length := by
  unfold constructor? at h
  split at h
  · rename_i rest
    have := afterBlock_length rest
    simp only [List.length_cons]
    split at h
    · simp only [Option.some.injEq, Prod.mk.injEq] at h
      rw [← h.2]
      omega
    · split at h
      · simp only [Option.some.injEq, Prod.mk.injEq] at h
        rw [← h.2]
        omega
      · simp at h
  · simp at h

theorem typedMembers?_length {found own : List AnnotationNode} {trees after : List Tree}
    {members : List Member} (h : typedMembers? found own trees = some (members, after)) :
    after.length < trees.length := by
  unfold typedMembers? at h
  split at h
  · rename_i _ name _ htype
    have hlt := typeReference?_length htype
    rw [List.length_cons] at hlt
    split at h
    · cases h
      rwa [List.length_cons]
    · rename_i parameters tail _
      have := methodEnd_length tail
      split at h
      · simp only [Option.some.injEq, Prod.mk.injEq] at h
        rw [← h.2]
        simp only [List.length_cons] at hlt
        omega
      · have := declarators_length (name :: parameters :: tail)
        have := afterEnd_length (declarators (name :: parameters :: tail)).2
        simp only [Option.some.injEq, Prod.mk.injEq] at h
        rw [← h.2]
        simp only [List.length_cons] at *
        omega
    · cases h
      simp only [List.length_nil]
      omega
  · rename_i htype
    have := typeReference?_length htype
    cases h
    exact this
  · simp at h

/-- Reading members takes at least one tree. -/
theorem nextMembers_length {trees : List Tree} (h : trees ≠ []) :
    (nextMembers trees).2.length < trees.length := by
  have hpos : 0 < trees.length := List.length_pos_iff.2 h
  have hmodifiers := modifiers_length trees
  have htail := annotations_length (afterTypeArguments (modifiers trees).2)
  have harguments := afterTypeArguments_length (modifiers trees).2
  unfold nextMembers
  dsimp only
  split
  · rename_i hhead
    have := typeHead?_length hhead
    simp only
    omega
  · split
    · rename_i hmember
      have := constructor?_length hmember
      simp only
      omega
    · split
      · rename_i hmember
        have := typedMembers?_length hmember
        omega
      · simp only [List.length_tail]
        omega

/-- The members among the trees of a class body. -/
def members (trees : List Tree) : List Member :=
  if h : trees = [] then
    []
  else
    have := nextMembers_length h
    (nextMembers trees).1 ++ members (nextMembers trees).2
  termination_by trees.length

/-- The members in the body of a type.  The body of an enum begins with its constants. -/
def TypeHead.members (head : TypeHead) : List Member :=
  if head.kind = .enum then
    (constants head.body).1 ++ Source.members (constants head.body).2
  else
    Source.members head.body

end ComponentMarkers.Source
