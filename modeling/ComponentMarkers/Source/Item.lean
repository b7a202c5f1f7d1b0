import ComponentMarkers.Source.Member

/-!
# Declarations at the top of a source

At the top of a source stand its package, its imports and its types, wherever among other statements.
Everything else is passed over up to a semicolon or a block.

A source that is not well formed still has declarations: what can be read is read, and a declaration may
begin where a statement before it was not ended.
-/

namespace ComponentMarkers.Source

/-- A declaration of a package at the head of the trees. -/
def packageItem? (found : List AnnotationNode) : List Tree → Option (Item × List Tree)
  | keyword :: rest =>
    if keyword.isWord "package" then
      (dottedName? rest).map fun (name, after) => (.package ⟨found, name⟩, afterEnd after)
    else
      none
  | [] => none

/-- The trees after the dot and star of an import on demand, none when there are none. -/
def afterStar? : List Tree → Option (List Tree)
  | dot :: star :: rest => if dot.isSymbol '.' && star.isSymbol '*' then some rest else none
  | _ => none

/-- An import at the head of the trees. -/
def importItem? : List Tree → Option (Item × List Tree)
  | keyword :: rest =>
    if keyword.isWord "import" then
      let isStatic := rest.head?.any fun tree => tree.isWord "static"
      (dottedName? (if isStatic then rest.tail else rest)).map fun (name, after) =>
        let star := afterStar? after
        (.import ⟨name, star.isSome, isStatic⟩, afterEnd (star.getD after))
    else
      none
  | [] => none

/-- The declaration at the head of the trees. -/
def item? (trees : List Tree) : Option (Item × List Tree) :=
  let (found, rest) := modifiers trees
  match packageItem? found rest with
  | some result => some result
  | none =>
    match importItem? rest with
    | some result => some result
    | none => (typeHead? found rest).map fun (head, after) => (.type head, after)

/-- A statement goes on after such a tree: what follows cannot be the begin of a declaration at the
top. -/
def goesOn (tree : Tree) : Bool :=
  tree.isGroup .round || tree.isWord "else" || tree.isWord "do" ||
    ['.', ':', '>', '@'].any fun symbol => tree.isSymbol symbol

/-- A package, an import or a type is declared at the head of the trees. -/
def startsItem : List Tree → Bool
  | keyword :: name :: rest =>
    (typeKind? (keyword :: name :: rest)).isSome ||
      ((keyword.isWord "package" || keyword.isWord "import") && name.word?.isSome)
  | _ => false

/-- The trees after the statement at the head of the trees, `previous` being the tree read last. -/
def afterStatement : (previous : Tree) → List Tree → List Tree
  | _, [] => []
  | previous, tree :: rest =>
    if tree.isSymbol ';' || tree.isGroup .curly then rest
    else if !goesOn previous && startsItem (tree :: rest) then tree :: rest
    else afterStatement tree rest

theorem packageItem?_length {found : List AnnotationNode} {trees after : List Tree} {item : Item}
    (h : packageItem? found trees = some (item, after)) : after.length < trees.length := by
  unfold packageItem? at h
  split at h
  · split at h
    · obtain ⟨⟨name, tail⟩, hname, heq⟩ := Option.map_eq_some_iff.1 h
      have := dottedName?_length hname
      have := afterEnd_length tail
      simp only [Prod.mk.injEq] at heq
      rw [← heq.2, List.length_cons]
      omega
    · simp at h
  · simp at h

theorem afterStar?_length {trees after : List Tree} (h : afterStar? trees = some after) :
    after.length < trees.length := by
  unfold afterStar? at h
  split at h
  · split at h
    · cases h
      simp only [List.length_cons]
      omega
    · simp at h
  · simp at h

theorem importItem?_length {trees after : List Tree} {item : Item}
    (h : importItem? trees = some (item, after)) : after.length < trees.length := by
  unfold importItem? at h
  split at h
  · rename_i rest
    split at h
    · obtain ⟨⟨name, tail⟩, hname, heq⟩ := Option.map_eq_some_iff.1 h
      have hlt := dottedName?_length hname
      have hstar : ((afterStar? tail).getD tail).length ≤ tail.length := by
        cases hcase : afterStar? tail with
        | none => exact Nat.le_refl _
        | some found => exact Nat.le_of_lt (afterStar?_length hcase)
      have := afterEnd_length ((afterStar? tail).getD tail)
      have hrest : rest.tail.length ≤ rest.length := by simp
      simp only [Prod.mk.injEq] at heq
      rw [← heq.2, List.length_cons]
      split at hlt <;> omega
    · simp at h
  · simp at h

theorem item?_length {trees after : List Tree} {item : Item}
    (h : item? trees = some (item, after)) : after.length < trees.length := by
  have hmodifiers := modifiers_length trees
  unfold item? at h
  dsimp only at h
  split at h
  · rename_i hitem
    cases h
    have := packageItem?_length hitem
    omega
  · split at h
    · rename_i hitem
      cases h
      have := importItem?_length hitem
      omega
    · obtain ⟨⟨head, tail⟩, hhead, heq⟩ := Option.map_eq_some_iff.1 h
      have := typeHead?_length hhead
      simp only [Prod.mk.injEq] at heq
      rw [← heq.2]
      omega

theorem afterStatement_length (previous : Tree) (trees : List Tree) :
    (afterStatement previous trees).length ≤ trees.length := by
  fun_induction afterStatement previous trees with
  | case1 => exact Nat.le_refl _
  | case2 => exact Nat.le_succ _
  | case3 => exact Nat.le_refl _
  | case4 previous tree rest _ _ ih =>
    rw [List.length_cons]
    omega

/-- The declarations at the top of a source. -/
def items : List Tree → List Item
  | [] => []
  | tree :: rest =>
    match h : item? (tree :: rest) with
    | some (item, after) =>
      have := item?_length h
      item :: items after
    | none =>
      if tree.isSymbol ';' || tree.isGroup .curly then
        items rest
      else
        have := afterStatement_length tree rest
        items (afterStatement tree rest)
  termination_by trees => trees.length
  decreasing_by
    all_goals
      simp only [List.length_cons] at *
      omega

end ComponentMarkers.Source
