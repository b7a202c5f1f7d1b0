import ComponentMarkers.Source.Nesting

/-!
# Paired brackets

Where every bracket is closed by one of its kind, nesting the tokens of a row of trees gives the trees
back.
-/

namespace ComponentMarkers.Source

namespace Tree

mutual

/-- The tokens of a tree. -/
def tokens : Tree → List Token
  | leaf token => [token]
  | group _ opening inner closing => opening :: tokensAmong inner ++ closing.toList

/-- The tokens of some trees. -/
def tokensAmong : List Tree → List Token
  | [] => []
  | tree :: rest => tree.tokens ++ tokensAmong rest

end

end Tree

mutual

/-- The brackets of the tree are paired. -/
inductive Tree.IsPaired : Tree → Prop where
  | leaf {token : Token} (hopening : Bracket.opening? token.lexeme = none)
      (hclosing : Bracket.closing? token.lexeme = none) : Tree.IsPaired (.leaf token)
  | group {bracket : Bracket} {opening closing : Token} {inner : List Tree}
      (hopening : Bracket.opening? opening.lexeme = some bracket) (hinner : ArePaired inner)
      (hnot : Bracket.opening? closing.lexeme = none)
      (hclosing : Bracket.closing? closing.lexeme = some bracket) :
      Tree.IsPaired (.group bracket opening inner (some closing))

/-- The brackets of all trees are paired. -/
inductive ArePaired : List Tree → Prop where
  | nil : ArePaired []
  | cons {tree : Tree} {rest : List Tree} (htree : tree.IsPaired) (hrest : ArePaired rest) :
      ArePaired (tree :: rest)

end

mutual

/-- Nesting the tokens of a tree gives the tree. -/
theorem Tree.IsPaired.nestFrom_tokens (current : List Tree) (frames : List OpenGroup)
    (rest : List Token) : {tree : Tree} → tree.IsPaired →
      nestFrom current frames (tree.tokens ++ rest) = nestFrom (tree :: current) frames rest
  | .leaf token, .leaf hopening hclosing => by
    rw [Tree.tokens, List.singleton_append, nestFrom, hopening, hclosing]
  | .group bracket opening inner _, .group hopening hinner hnot hclosing => by
    rw [Tree.tokens, List.cons_append, List.cons_append, List.append_assoc, nestFrom, hopening]
    dsimp only
    rw [hinner.nestFrom_tokensAmong, Option.toList_some, List.singleton_append, nestFrom, hnot,
      hclosing]
    dsimp only
    rw [List.any_cons, decide_eq_true rfl, Bool.true_or, if_pos rfl, closeThrough, if_pos rfl,
      OpenGroup.close, List.append_nil, List.reverse_reverse]

theorem ArePaired.nestFrom_tokensAmong (current : List Tree) (frames : List OpenGroup)
    (rest : List Token) : {trees : List Tree} → ArePaired trees →
      nestFrom current frames (Tree.tokensAmong trees ++ rest) =
        nestFrom (trees.reverse ++ current) frames rest
  | [], _ => by
    rw [Tree.tokensAmong]
    rfl
  | _ :: _, .cons htree hrest => by
    rw [Tree.tokensAmong, List.append_assoc, htree.nestFrom_tokens, hrest.nestFrom_tokensAmong,
      List.reverse_cons, List.append_assoc, List.singleton_append]

end

theorem ArePaired.nest_tokensAmong {trees : List Tree} (h : ArePaired trees) :
    nest (Tree.tokensAmong trees) = trees := by
  have hnest := h.nestFrom_tokensAmong [] [] []
  rw [List.append_nil, List.append_nil] at hnest
  rw [nest, hnest, nestFrom, closeAll, List.reverse_reverse]

/-- The brackets among the tokens pair up, `unclosed` being those that are open, innermost first. -/
def pairUp : (unclosed : List Bracket) → List Token → Bool
  | unclosed, [] => unclosed.isEmpty
  | unclosed, token :: rest =>
    match Bracket.opening? token.lexeme, Bracket.closing? token.lexeme with
    | some bracket, _ => pairUp (bracket :: unclosed) rest
    | none, some bracket => unclosed.head? = some bracket && pairUp unclosed.tail rest
    | none, none => pairUp unclosed rest

/-- The tokens close the innermost open bracket and then pair up with those around it; where none is open
there are no tokens. -/
def ClosesFirst : List Bracket → List Token → Prop
  | [], tokens => tokens = []
  | bracket :: outer, tokens => ∃ closing final, tokens = closing :: final ∧
    Bracket.opening? closing.lexeme = none ∧ Bracket.closing? closing.lexeme = some bracket ∧
      pairUp outer final

theorem exists_trees_of_pairUp
    {unclosed : List Bracket} {tokens : List Token} (h : pairUp unclosed tokens) :
    ∃ trees rest, tokens = Tree.tokensAmong trees ++ rest ∧ ArePaired trees ∧
      ClosesFirst unclosed rest := by
  induction hlength : tokens.length using Nat.strongRecOn generalizing unclosed tokens with
  | ind length ih =>
      subst hlength
      rcases tokens with _ | ⟨token, rest⟩
      · rw [pairUp, List.isEmpty_iff] at h
        subst h
        exact ⟨[], [], rfl, .nil, rfl⟩
      rw [pairUp] at h
      rcases hopening : Bracket.opening? token.lexeme with _ | bracket
      · rcases hclosing : Bracket.closing? token.lexeme with _ | bracket
        · rw [hopening, hclosing] at h
          obtain ⟨trees, final, rfl, hpaired, hfinal⟩ := ih _ (Nat.lt_succ_self _) h rfl
          exact ⟨.leaf token :: trees, final, rfl, .cons (.leaf hopening hclosing) hpaired, hfinal⟩
        · rw [hopening, hclosing, Bool.and_eq_true, decide_eq_true_eq] at h
          obtain ⟨outer, rfl⟩ := List.head?_eq_some_iff.1 h.1
          exact ⟨[], token :: rest, rfl, .nil, token, rest, rfl, hopening, hclosing, h.2⟩
      · -- What stands inside the group is read first, then what follows its closing bracket.
        rw [hopening] at h
        obtain ⟨inner, _, rfl, hinner, closing, final, rfl, hnot, hclosing, hafter⟩ :=
          ih _ (Nat.lt_succ_self _) h rfl
        have hshorter : final.length < (token :: (Tree.tokensAmong inner ++ closing :: final)).length := by
          rw [List.length_cons, List.length_append, List.length_cons]
          omega
        obtain ⟨trees, last, rfl, hpaired, hlast⟩ := ih _ hshorter hafter rfl
        refine ⟨.group bracket token inner (some closing) :: trees, last, ?_,
          .cons (.group hopening hinner hnot hclosing) hpaired, hlast⟩
        simp only [Tree.tokensAmong, Tree.tokens, Option.toList_some, List.cons_append,
          List.append_assoc, List.nil_append]

/-- Tokens whose brackets pair up are those of paired trees. -/
theorem exists_arePaired_of_pairUp {tokens : List Token} (h : pairUp [] tokens) :
    ∃ trees, ArePaired trees ∧ Tree.tokensAmong trees = tokens := by
  obtain ⟨trees, rest, rfl, hpaired, hrest⟩ := exists_trees_of_pairUp h
  obtain rfl : rest = [] := hrest
  exact ⟨trees, hpaired, (List.append_nil _).symm⟩

end ComponentMarkers.Source
