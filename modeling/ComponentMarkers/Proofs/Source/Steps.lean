import ComponentMarkers.Source.Unit

/-!
# Steps of the readers

What the recursive readers do with the head of a row of trees.
-/

namespace ComponentMarkers.Source

section Trees

theorem exists_leaf_of_word? {tree : Tree} {word : String} (h : tree.word? = some word) :
    ∃ before, tree = .leaf ⟨before, .word word⟩ := by
  unfold Tree.word? at h
  split at h
  · obtain rfl := Option.some.inj h
    exact ⟨_, rfl⟩
  · cases h

theorem exists_leaf_of_isSymbol {tree : Tree} {char : Char} (h : tree.isSymbol char) :
    ∃ before, tree = .leaf ⟨before, .symbol char⟩ := by
  unfold Tree.isSymbol at h
  split at h
  · obtain rfl := eq_of_beq h
    exact ⟨_, rfl⟩
  · cases h

theorem isSymbol_eq_false {tree : Tree} {char other : Char} (h : tree.isSymbol char)
    (hne : char ≠ other) : tree.isSymbol other = false := by
  obtain ⟨before, rfl⟩ := exists_leaf_of_isSymbol h
  exact beq_eq_false_iff_ne.2 hne

theorem word?_of_isSymbol {tree : Tree} {char : Char} (h : tree.isSymbol char) :
    tree.word? = none := by
  obtain ⟨before, rfl⟩ := exists_leaf_of_isSymbol h
  rfl

theorem exists_group_of_isGroup {tree : Tree} {bracket : Bracket} (h : tree.isGroup bracket) :
    ∃ opening inner closing, tree = .group bracket opening inner closing := by
  cases tree with
  | leaf token => cases h
  | group kind opening inner closing =>
      obtain rfl := eq_of_beq h
      exact ⟨opening, inner, closing, rfl⟩

theorem word?_of_isGroup {tree : Tree} {bracket : Bracket} (h : tree.isGroup bracket) :
    tree.word? = none := by
  obtain ⟨opening, inner, closing, rfl⟩ := exists_group_of_isGroup h
  rfl

end Trees

section Names

theorem modifiers_of_annotation?
    {trees after : List Tree} {node : AnnotationNode} (h : annotation? trees = some (node, after)) :
    modifiers trees = (node :: (modifiers after).1, (modifiers after).2) := by
  rw [modifiers.eq_def]
  split
  · rename_i found rest hfound
    rw [h] at hfound
    obtain ⟨rfl, rfl⟩ := Prod.mk.inj (Option.some.inj hfound)
    rfl
  · rename_i hnone
    rw [h] at hnone
    cases hnone

theorem modifiers_of_cons
    {tree : Tree} {rest : List Tree} (h : annotation? (tree :: rest) = none) :
    modifiers (tree :: rest) =
      if isModifier (tree :: rest) then modifiers rest else ([], tree :: rest) := by
  rw [modifiers.eq_def]
  split
  · rename_i found
    rw [h] at found
    cases found
  · rfl

theorem modifiers_nil : modifiers [] = ([], []) := by
  rw [modifiers.eq_def]
  rfl

theorem annotations_eq (trees : List Tree) :
    annotations trees =
      match annotation? trees with
      | some (name, after) => (name :: (annotations after).1, (annotations after).2)
      | none => ([], trees) := by
  rw [annotations.eq_def]
  split
  · rename_i h
    dsimp only
    rw [h]
  · rename_i h
    rw [h]

theorem classTypeTail_eq (trees : List Tree) :
    classTypeTail trees =
      match nextTypeName? (afterTypeArguments trees) with
      | some (name, more) =>
        (trees.take (trees.length - (afterTypeArguments trees).length) ++ name ++
          (classTypeTail more).1, (classTypeTail more).2)
      | none => ([], afterTypeArguments trees) := by
  rw [classTypeTail.eq_def]
  dsimp only
  split
  · rename_i h
    rw [h]
  · rename_i h
    rw [h]

theorem afterDimensions_eq (trees : List Tree) :
    afterDimensions trees =
      match dimension? trees with
      | some after => afterDimensions after
      | none => trees := by
  rw [afterDimensions.eq_def]
  split
  · rename_i h
    dsimp only
    rw [h]
  · rename_i h
    rw [h]

end Names

section Members

theorem typeKind?_of_not_name {keyword name : Tree} (h : name.word? = none) (rest : List Tree) :
    typeKind? (keyword :: name :: rest) = none := by
  unfold typeKind?
  dsimp only
  rw [h]
  rfl

theorem typeKind?_of_not_word {keyword : Tree} (h : keyword.word? = none) (rest : List Tree) :
    typeKind? (keyword :: rest) = none := by
  cases rest with
  | nil => rfl
  | cons name rest =>
      unfold typeKind?
      dsimp only
      rw [h]
      exact ite_self none

theorem typeHead?_of_typeKind?
    {names : List AnnotationNode} {row : List Tree} (h : typeKind? row = none) :
    typeHead? names row = none := by
  unfold typeHead?
  rw [h]

theorem body?_of_not_curly {tree : Tree} (h : tree.isGroup .curly = false) (rest : List Tree) :
    body? (tree :: rest) = if tree.isSymbol ';' then none else body? rest := by
  rw [body?.eq_def]
  split
  · rename_i hnil
    cases hnil
  · rename_i hcons
    obtain ⟨rfl, -⟩ := List.cons.inj hcons
    cases h
  · rename_i hcons
    obtain ⟨rfl, rfl⟩ := List.cons.inj hcons
    rfl

/-- A value ends before a comma and before a semicolon. -/
theorem afterValue_of_end {mark : Tree} (h : mark.isSymbol ',' || mark.isSymbol ';') (ended : Bool)
    (rest : List Tree) : afterValue ended (mark :: rest) = mark :: rest := by
  rw [afterValue.eq_def]
  dsimp only
  rw [h, Bool.true_or, if_pos rfl]

theorem declarators_of_not_word {tree : Tree} (h : tree.word? = none) (rest : List Tree) :
    declarators (tree :: rest) =
      if tree.isSymbol ',' then declarators rest else ([], tree :: rest) := by
  rw [declarators.eq_def]
  dsimp only
  rw [h]

theorem declarators_of_word
    {tree : Tree} {name : String} (h : tree.word? = some name) (rest : List Tree) :
    declarators (tree :: rest) =
      match afterField rest with
      | [] => ([name], [])
      | mark :: more =>
        if mark.isSymbol ',' then (name :: (declarators more).1, (declarators more).2)
        else ([name], mark :: more) := by
  rw [declarators.eq_def]
  dsimp only
  rw [h]
  dsimp only
  split
  · rename_i hafter
    rw [hafter]
  · rename_i hafter
    rw [hafter]

theorem afterTypes_eq (trees : List Tree) :
    afterTypes trees =
      match typeReference? trees with
      | some (_, comma :: rest) => if comma.isSymbol ',' then afterTypes rest else comma :: rest
      | some (_, []) => []
      | none => trees := by
  rw [afterTypes.eq_def]
  split
  · rename_i h
    dsimp only
    rw [h]
  · rename_i h
    rw [h]
  · rename_i h
    rw [h]

theorem constants_eq (trees : List Tree) :
    constants trees =
      match modifiers trees with
      | (names, name :: rest) =>
        match name.word? with
        | none => if name.isSymbol ',' then constants rest else ([], name :: rest)
        | some constant =>
          match afterConstant rest with
          | [] => ([.constant names constant], [])
          | mark :: more =>
            if mark.isSymbol ',' then
              (.constant names constant :: (constants more).1, (constants more).2)
            else
              ([.constant names constant], mark :: more)
      | (_, []) => ([], []) := by
  rw [constants.eq_def]
  split
  · rename_i names name rest h
    dsimp only
    rw [h]
    dsimp only
    cases name.word? with
    | none => rfl
    | some constant =>
        dsimp only
        split
        · rename_i hafter
          rw [hafter]
        · rename_i hafter
          rw [hafter]
  · rename_i h
    rw [h]

theorem members_of_nextMembers
    {trees rest : List Tree} {found : List Member} (hne : trees ≠ [])
    (h : nextMembers trees = (found, rest)) : members trees = found ++ members rest := by
  rw [members.eq_def, dif_neg hne]
  dsimp only
  rw [h]

theorem members_nil : members [] = [] := by
  rw [members.eq_def, dif_pos rfl]

variable {names more : List AnnotationNode} {trees row rest after : List Tree}

/-- A type is tried first, and a constructor before what begins with its type. -/
theorem nextMembers_eq_getD (hmodifiers : modifiers trees = (names, row))
    (hannotations : annotations (afterTypeArguments row) = (more, after)) :
    nextMembers trees =
      (((typeHead? names row).map fun (head, rest) => ([.type head], rest)).or
        (((constructor? names after).map fun (member, rest) => ([member], rest)).or
          (typedMembers? names more after))).getD ([], after.tail) := by
  rw [nextMembers, hmodifiers]
  dsimp only
  cases typeHead? names row with
  | some found => rfl
  | none =>
      dsimp only
      rw [hannotations]
      dsimp only
      cases constructor? names after with
      | some found => rfl
      | none => cases typedMembers? names more after <;> rfl

theorem nextMembers_of_typeHead? {head : TypeHead} (hmodifiers : modifiers trees = (names, row))
    (h : typeHead? names row = some (head, rest)) : nextMembers trees = ([.type head], rest) := by
  rw [nextMembers_eq_getD hmodifiers rfl, h]
  rfl

/-- Behind type parameters and annotations a constructor is tried before what begins with its type. -/
theorem nextMembers_of_typeHead?_eq_none
    (hmodifiers : modifiers trees = (names, row)) (hhead : typeHead? names row = none)
    (hannotations : annotations (afterTypeArguments row) = (more, after)) :
    nextMembers trees =
      match constructor? names after with
      | some (member, rest) => ([member], rest)
      | none => (typedMembers? names more after).getD ([], after.tail) := by
  rw [nextMembers_eq_getD hmodifiers hannotations, hhead]
  cases constructor? names after with
  | some found => rfl
  | none => rfl

end Members

section Items

theorem items_nil : items [] = [] := by
  rw [items.eq_def]

theorem items_cons (tree : Tree) (rest : List Tree) :
    items (tree :: rest) =
      match item? (tree :: rest) with
      | some (item, after) => item :: items after
      | none =>
        if tree.isSymbol ';' || tree.isGroup .curly then items rest
        else items (afterStatement tree rest) := by
  rw [items.eq_def]
  dsimp only
  split
  · rename_i h
    rw [h]
  · rename_i h
    rw [h]

theorem items_of_item?
    {trees after : List Tree} {item : Item} (h : item? trees = some (item, after)) :
    items trees = item :: items after := by
  cases trees with
  | nil => exact absurd (item?_length h) (Nat.not_lt_zero _)
  | cons tree rest => rw [items_cons, h]

variable {names : List AnnotationNode} {trees row : List Tree}

/-- A package is tried before an import, and this before a type. -/
theorem item?_eq_or (hmodifiers : modifiers trees = (names, row)) :
    item? trees =
      (packageItem? names row).or
        ((importItem? row).or
          ((typeHead? names row).map fun (head, after) => (.type head, after))) := by
  rw [item?, hmodifiers]
  dsimp only
  cases packageItem? names row with
  | some found => rfl
  | none => cases importItem? row <;> rfl

theorem item?_of_packageItem? {result : Item × List Tree} (hmodifiers : modifiers trees = (names, row))
    (h : packageItem? names row = some result) : item? trees = some result := by
  rw [item?_eq_or hmodifiers, h, Option.some_or]

theorem item?_of_importItem? {result : Item × List Tree} (hmodifiers : modifiers trees = (names, row))
    (hpackage : packageItem? names row = none) (h : importItem? row = some result) :
    item? trees = some result := by
  rw [item?_eq_or hmodifiers, hpackage, h, Option.none_or, Option.some_or]

theorem packageItem?_of_not_word
    {keyword : Tree} (h : keyword.isWord "package" = false) (names : List AnnotationNode) (rest : List Tree) :
    packageItem? names (keyword :: rest) = none := by
  rw [packageItem?, h, if_neg Bool.false_ne_true]

theorem importItem?_of_not_word
    {keyword : Tree} (h : keyword.isWord "import" = false) (rest : List Tree) :
    importItem? (keyword :: rest) = none := by
  rw [importItem?, h, if_neg Bool.false_ne_true]

/-- What is no package and no import is a type, if it is anything. -/
theorem item?_eq_map_typeHead? (hmodifiers : modifiers trees = (names, row))
    (hpackage : packageItem? names row = none) (himport : importItem? row = none) :
    item? trees = (typeHead? names row).map fun (head, after) => (.type head, after) := by
  rw [item?_eq_or hmodifiers, hpackage, himport, Option.none_or, Option.none_or]

/-- The unit with one more declaration. -/
def addItem (levels : Nat) (unit : CompilationUnit) (item : Item) : CompilationUnit :=
  match item with
  | .package clause =>
    { unit with
      package := some clause.packageName
      packageAnnotations := annotationNames [] clause.annotations }
  | .import clause => { unit with imports := unit.imports ++ [clause.toImport] }
  | .type head => { unit with types := unit.types ++ [head.declaration levels] }

theorem unitOfItems_eq_foldl (path : Option Path) (levels : Nat) (items : List Item) :
    unitOfItems path levels items = items.foldl (addItem levels) ⟨path, none, [], [], []⟩ :=
  rfl

/-- The type that is declared, if it is one. -/
def Item.head? : Item → Option TypeHead
  | .type head => some head
  | _ => none

theorem types_unitOfItems (path : Option Path) (levels : Nat) (items : List Item) :
    (unitOfItems path levels items).types =
      (items.filterMap Item.head?).map (TypeHead.declaration levels) := by
  have hfold : ∀ (items : List Item) (unit : CompilationUnit),
      (items.foldl (addItem levels) unit).types =
        unit.types ++ (items.filterMap Item.head?).map (TypeHead.declaration levels) := by
    intro items
    induction items with
    | nil => exact fun unit => (List.append_nil _).symm
    | cons item rest ih =>
        intro unit
        rw [List.foldl_cons, ih]
        cases item with
        | type head => exact List.append_assoc _ _ _
        | _ => rfl
  exact hfold items _

/-- The class that the `extends` clause at the head of the trees names. -/
def extendedClass? (trees : List Tree) : Option String :=
  (extendsClause? trees).bind ExtendsClause.className?

/-- A member declares a type that is read on, or elements without members. -/
theorem Member.mem_declarations
    {ofType : TypeHead → Declaration} {member : Member} {declaration : Declaration}
    (h : declaration ∈ member.declarations ofType) :
    (∃ head, member = .type head ∧ declaration = ofType head) ∨ declaration.members = [] := by
  cases member with
  | type head => exact Or.inl ⟨head, rfl, List.mem_singleton.1 h⟩
  | fields =>
      obtain ⟨name, -, rfl⟩ := List.mem_map.1 h
      exact Or.inr rfl
  | _ =>
      obtain rfl := List.mem_singleton.1 h
      exact Or.inr rfl

theorem TypeHead.members_declaration_succ (levels : Nat) (head : TypeHead) :
    (head.declaration (levels + 1)).members =
      head.members.flatMap (Member.declarations (TypeHead.declaration levels)) :=
  rfl

/-- A declaration has of the type what is read of its head, however deep its members are read. -/
theorem TypeHead.declaration_eq (levels : Nat) (head : TypeHead) :
    head.declaration levels = head.withMembers (head.declaration levels).members := by
  cases levels <;> rfl

/-- The superclasses of the types at the top of a source are those that their heads name. -/
theorem map_superclass_types_readUnit (source : String) (path : Option Path) :
    (readUnit source path).types.map Declaration.superclass =
      ((items (nest (tokens source))).filterMap Item.head?).map fun head =>
        head.superclass.bind ExtendsClause.className? := by
  rw [readUnit, types_unitOfItems, List.map_map]
  apply List.map_congr_left
  intro head _
  rw [Function.comp_apply, head.declaration_eq]
  rfl

end Items

end ComponentMarkers.Source
