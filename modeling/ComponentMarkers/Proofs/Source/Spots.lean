import ComponentMarkers.Proofs.Source.Alike
import ComponentMarkers.Proofs.Source.Pairing

/-!
# Comments beside names

A comment is read in two constructs only: it becomes part of a dotted name when it stands between the
parts of one, and an `extends` clause that opens with one names no class.  A spot is what has to be known
of the tokens before a comment to tell whether it may be read: a dot, and how far an `extends` clause has
come.  Rows that differ at other spots only are alike.
-/

namespace ComponentMarkers.Source

open Source.Tree

/-- How far an `extends` clause has been read. -/
inductive Clause where
  /-- There is none. -/
  | outside
  /-- Its word stands before. -/
  | opening
  /-- The name may go on. -/
  | named
  /-- Type arguments are open, so many of them inside one another. -/
  | arguments (level : Nat)
  /-- There is an annotation inside the name. -/
  | annotated
  /-- Brackets are open that belong to type arguments or to an annotation of the name. -/
  | within
  deriving DecidableEq, Repr

namespace Clause

/-- The clause after a token, `afterDot` telling whether the token stands after a dot. -/
def next (afterDot : Bool) : Clause → Lexeme → Clause
  | within, _ => within
  | annotated, lexeme => if lexeme = .symbol ';' then outside else annotated
  | arguments level, lexeme =>
    if lexeme = .symbol '<' then arguments (level + 1)
    else if lexeme = .symbol '>' then (if level ≤ 1 then named else arguments (level - 1))
    else if lexeme = .symbol ';' then outside
    else arguments level
  | outside, lexeme => if lexeme = .word "extends" then opening else outside
  | _, lexeme =>
    if lexeme = .symbol '<' then arguments 1
    else if lexeme = .symbol '@' then (if afterDot then annotated else named)
    else if lexeme = .symbol ';' then outside
    else if lexeme = .word "extends" then opening
    else named

/-- The clause inside a group. -/
def inside (bracket : Bracket) : Clause → Clause
  | within => within
  | arguments _ => if bracket = .curly then outside else within
  | annotated => if bracket = .curly then outside else within
  | _ => outside

/-- The clause after a group.  A body ends it. -/
def past (bracket : Bracket) : Clause → Clause
  | within => within
  | clause => if bracket = .curly then outside else clause

/-- All that stands here is written in the name. -/
def holds : Clause → Bool
  | arguments _ => true
  | annotated => true
  | within => true
  | _ => false

end Clause

/-- What is known of the tokens before a place. -/
structure Spot where
  clause : Clause
  afterDot : Bool
  deriving DecidableEq, Repr

namespace Spot

/-- The begin of a source or of a group. -/
def start (clause : Clause) : Spot :=
  ⟨clause, false⟩

/-- A comment before such a token may be read. -/
def reads (spot : Spot) (lexeme : Lexeme) : Bool :=
  spot.afterDot || lexeme = .symbol '.' || spot.clause.holds || spot.clause = .opening ||
    (spot.clause = .named && lexeme = .symbol '<')

/-- The spot after a token. -/
def next (spot : Spot) (lexeme : Lexeme) : Spot :=
  ⟨spot.clause.next spot.afterDot lexeme, lexeme = .symbol '.'⟩

/-- The spot after a tree. -/
def after (spot : Spot) : Tree → Spot
  | .leaf token => spot.next token.lexeme
  | .group bracket _ _ _ => start (spot.clause.past bracket)

end Spot

section Rows

variable (reads : Spot → Lexeme → Bool)

/-- The tokens are the same, or differ in a comment that is not read. -/
def TokensAgree (spot : Spot) (token token' : Token) : Prop :=
  token.lexeme = token'.lexeme ∧ (reads spot token.lexeme → token = token')

mutual

/-- The trees are the same but for comments that are not read at their spots. -/
inductive Tree.Agree : Spot → Tree → Tree → Prop where
  | leaf {spot : Spot} {token token' : Token} (htoken : TokensAgree reads spot token token') :
      Tree.Agree spot (.leaf token) (.leaf token')
  | group {spot : Spot} {bracket : Bracket} {opening opening' closing closing' : Token}
      {inner inner' : List Tree} (hopening : TokensAgree reads spot opening opening')
      (hinner : RowsAgree (Spot.start (spot.clause.inside bracket)) inner inner')
      (hclosing : TokensAgree reads
        (inner.foldl Spot.after (Spot.start (spot.clause.inside bracket))) closing closing') :
      Tree.Agree spot (.group bracket opening inner (some closing))
        (.group bracket opening' inner' (some closing'))

/-- The rows are the same but for comments that are not read at their spots. -/
inductive RowsAgree : Spot → List Tree → List Tree → Prop where
  | nil {spot : Spot} : RowsAgree spot [] []
  | cons {spot : Spot} {tree tree' : Tree} {rest rest' : List Tree}
      (htree : Tree.Agree spot tree tree') (hrest : RowsAgree (spot.after tree) rest rest') :
      RowsAgree spot (tree :: rest) (tree' :: rest')

end

end Rows

section Shapes

variable {reads : Spot → Lexeme → Bool}

/-- What is read of any name. -/
def anyName : String → String :=
  fun _ => ""

/-- What is read of any superclass. -/
def anyClass : Option String → Option String :=
  fun _ => none

theorem Tree.Agree.first_eq {spot : Spot} {tree tree' : Tree} (h : tree.Agree reads spot tree') :
    TokensAgree reads spot tree.first tree'.first := by
  cases h with
  | leaf htoken => exact htoken
  | group hopening => exact hopening

theorem Tree.Agree.word?_eq {spot : Spot} {tree tree' : Tree} (h : tree.Agree reads spot tree') :
    tree'.word? = tree.word? := by
  cases h with
  | @leaf _ token token' htoken =>
      obtain ⟨before, lexeme⟩ := token
      obtain ⟨before', lexeme'⟩ := token'
      obtain rfl : lexeme = lexeme' := htoken.1
      cases lexeme <;> rfl
  | group => rfl

section Names

variable {f : String → String} {g : Option String → Option String}

/-- The names read of rows that agree are the same up to `f` and `g`. -/
def NamesAgree (reads : Spot → Lexeme → Bool) (f : String → String)
    (g : Option String → Option String) : Prop :=
  ∀ {spot : Spot} {trees trees' : List Tree}, RowsAgree reads spot trees trees' →
    (dottedName? trees).map (f ∘ dottedText ∘ Prod.fst) =
        (dottedName? trees').map (f ∘ dottedText ∘ Prod.fst) ∧
      g (extendedClass? trees) = g (extendedClass? trees')

mutual

theorem Tree.Agree.alike_of_namesAgree (hnames : NamesAgree reads f g) {spot : Spot} :
    {tree tree' : Tree} → Tree.Agree reads spot tree tree' → Tree.Alike f g tree tree'
  | _, _, @Tree.Agree.leaf _ _ ⟨before, lexeme⟩ ⟨before', lexeme'⟩ htoken => by
    obtain rfl : lexeme = lexeme' := htoken.1
    exact .leaf before before' lexeme
  | _, _, .group _ hinner _ => .group (hinner.alike_of_namesAgree hnames)

/-- Rows that agree are alike as far as the names in them are the same. -/
theorem RowsAgree.alike_of_namesAgree (hnames : NamesAgree reads f g) {spot : Spot} :
    {trees trees' : List Tree} → RowsAgree reads spot trees trees' → RowsAlike f g trees trees'
  | _, _, .nil => .nil
  | _, _, .cons htree hrest =>
    .cons (htree.alike_of_namesAgree hnames) (hrest.alike_of_namesAgree hnames)
      (hnames (.cons htree hrest)).1 (hnames (.cons htree hrest)).2

end

end Names

theorem namesAgree_any : NamesAgree reads anyName anyClass := by
  intro spot trees trees' h
  refine ⟨?_, rfl⟩
  cases h with
  | nil => rfl
  | @cons _ tree tree' rest rest' htree hrest =>
      rw [dottedName?, dottedName?, htree.word?_eq]
      cases tree.word? with
      | none => rfl
      | some word => rfl

/-- Whatever is read of comments, the trees have the same shape. -/
theorem Tree.Agree.alike {spot : Spot} {tree tree' : Tree} (h : tree.Agree reads spot tree') :
    tree.Alike anyName anyClass tree' :=
  h.alike_of_namesAgree namesAgree_any

/-- Whatever is read of comments, the rows have the same shape. -/
theorem RowsAgree.alike {spot : Spot} {trees trees' : List Tree}
    (h : RowsAgree reads spot trees trees') : RowsAlike anyName anyClass trees trees' :=
  h.alike_of_namesAgree namesAgree_any

end Shapes

section Names

/-- The tree neither ends a clause nor opens or closes type arguments. -/
def isQuiet (tree : Tree) : Bool :=
  !(tree.isGroup .curly || tree.isSymbol ';' || tree.isSymbol '<' || tree.isSymbol '>')

theorem isQuiet_iff {tree : Tree} :
    isQuiet tree ↔ tree.isGroup .curly = false ∧ tree.isSymbol ';' = false ∧
      tree.isSymbol '<' = false ∧ tree.isSymbol '>' = false := by
  rw [isQuiet, Bool.not_eq_true', Bool.or_eq_false_iff, Bool.or_eq_false_iff, Bool.or_eq_false_iff,
    and_assoc, and_assoc]

theorem ne_of_isSymbol_leaf {token : Token} {char : Char} (h : (Tree.leaf token).isSymbol char = false) :
    token.lexeme ≠ .symbol char := by
  obtain ⟨before, lexeme⟩ := token
  rintro rfl
  exact ne_of_beq_false h rfl

theorem ne_of_isGroup_group
    {bracket kind : Bracket} {opening : Token} {inner : List Tree} {closing : Option Token}
    (h : (Tree.group bracket opening inner closing).isGroup kind = false) : bracket ≠ kind :=
  ne_of_beq_false h

theorem isQuiet_of_word? {tree : Tree} (h : tree.word?.isSome) : isQuiet tree := by
  obtain ⟨word, hword⟩ := Option.isSome_iff_exists.1 h
  obtain ⟨before, rfl⟩ := exists_leaf_of_word? hword
  rfl

theorem isQuiet_of_isSymbol
    {tree : Tree} {char : Char} (h : tree.isSymbol char) (hchar : char = '.' ∨ char = '@') :
    isQuiet tree := by
  obtain ⟨before, rfl⟩ := exists_leaf_of_isSymbol h
  rcases hchar with rfl | rfl
  · rfl
  · rfl

theorem isQuiet_of_round {tree : Tree} (h : tree.isGroup .round) : isQuiet tree := by
  unfold Tree.isGroup at h
  split at h
  · obtain rfl := eq_of_beq h
    rfl
  · cases h

theorem moreSegments_append (trees : List Tree) :
    trees = (moreSegments trees).1 ++ (moreSegments trees).2 ∧
      ∀ tree ∈ (moreSegments trees).1, isQuiet tree := by
  fun_induction moreSegments trees with
  | case1 dot segment rest hsegment more after hmore ih =>
      rw [hmore] at ih
      rw [Bool.and_eq_true] at hsegment
      refine ⟨?_, List.forall_mem_cons.2 ⟨isQuiet_of_isSymbol hsegment.1 (by decide),
        List.forall_mem_cons.2 ⟨isQuiet_of_word? hsegment.2, ih.2⟩⟩⟩
      rw [List.cons_append, List.cons_append, ← ih.1]
  | case2 dot segment rest hsegment => exact ⟨rfl, List.forall_mem_nil _⟩
  | case3 trees => exact ⟨rfl, List.forall_mem_nil _⟩

theorem exists_append_of_annotation?
    {trees after : List Tree} {node : AnnotationNode} (h : annotation? trees = some (node, after)) :
    ∃ at' taken, trees = at' :: taken ++ after ∧ at'.isSymbol '@' ∧ ∀ tree ∈ taken, isQuiet tree := by
  rcases trees with _ | ⟨sign, rest⟩
  · cases h
  rw [annotation?] at h
  split at h
  · rename_i hsign
    obtain ⟨⟨found, tail⟩, hname, heq⟩ := Option.map_eq_some_iff.1 h
    obtain ⟨rfl, rfl⟩ := Prod.mk.inj heq
    rcases rest with _ | ⟨first, more⟩
    · cases hname
    rw [dottedName?] at hname
    split at hname
    · cases hname
    · rename_i word hword
      obtain ⟨-, rfl⟩ := Prod.mk.inj (Option.some.inj hname)
      obtain ⟨hmore, hquiet⟩ := moreSegments_append more
      have hfirst : isQuiet first := isQuiet_of_word? (Option.isSome_of_mem hword)
      generalize (moreSegments more).1 = segments at hmore hquiet
      generalize (moreSegments more).2 = last at hmore
      subst hmore
      rcases last with _ | ⟨arguments, final⟩
      · exact ⟨sign, first :: segments, rfl, hsign, List.forall_mem_cons.2 ⟨hfirst, hquiet⟩⟩
      rw [afterArguments]
      by_cases hround : arguments.isGroup .round
      · rw [if_pos hround]
        refine ⟨sign, first :: segments ++ [arguments], ?_, hsign, ?_⟩
        · simp only [List.cons_append, List.append_assoc, List.nil_append]
        · exact List.forall_mem_append.2 ⟨List.forall_mem_cons.2 ⟨hfirst, hquiet⟩,
            List.forall_mem_singleton.2 (isQuiet_of_round hround)⟩
      · rw [if_neg hround]
        exact ⟨sign, first :: segments, rfl, hsign, List.forall_mem_cons.2 ⟨hfirst, hquiet⟩⟩
  · cases h

/-- What annotations take off a row. -/
theorem exists_append_annotations (trees : List Tree) :
    ∃ taken, trees = taken ++ (annotations trees).2 ∧ (∀ tree ∈ taken, isQuiet tree) ∧
      ∀ tree ∈ taken.head?, tree.isSymbol '@' := by
  induction hlength : trees.length using Nat.strongRecOn generalizing trees with
  | ind length ih =>
      subst hlength
      rw [annotations_eq]
      rcases hannotation : annotation? trees with _ | ⟨name, after⟩
      · refine ⟨[], rfl, List.forall_mem_nil _, fun tree htree => ?_⟩
        cases htree
      · obtain ⟨taken, hafter, hquiet, -⟩ := ih _ (annotation?_length hannotation) after rfl
        obtain ⟨sign, first, htrees, hsign, hfirst⟩ := exists_append_of_annotation? hannotation
        refine ⟨sign :: first ++ taken, ?_, ?_, ?_⟩
        · rw [List.append_assoc, ← hafter, htrees]
        · exact List.forall_mem_append.2 ⟨List.forall_mem_cons.2
            ⟨isQuiet_of_isSymbol hsign (by decide), hfirst⟩, hquiet⟩
        · intro tree htree
          obtain rfl := Option.some.inj htree
          exact hsign

end Names

section Clauses

variable {spot : Spot}

theorem Spot.reads_of_holds (h : spot.clause.holds) (lexeme : Lexeme) : spot.reads lexeme := by
  rw [reads, h, Bool.or_true, Bool.true_or, Bool.true_or]

/-- The clause goes on after a tree that does not end it. -/
theorem Spot.after_ne_outside
    {tree : Tree} (h : spot.clause ≠ .outside) (hend : !(tree.isGroup .curly || tree.isSymbol ';')) :
    (spot.after tree).clause ≠ .outside := by
  obtain ⟨clause, afterDot⟩ := spot
  rw [Bool.not_eq_true', Bool.or_eq_false_iff] at hend
  rcases tree with token | ⟨bracket, opening, inner, closing⟩
  · have hlexeme := ne_of_isSymbol_leaf hend.2
    rw [after, next]
    cases clause with
    | outside => exact absurd rfl h
    | _ =>
        simp only [Clause.next, if_neg hlexeme]
        repeat' split
        all_goals exact Clause.noConfusion
  · have hbracket := ne_of_isGroup_group hend.1
    rw [after, start]
    cases clause with
    | outside => exact absurd rfl h
    | within => exact Clause.noConfusion
    | _ =>
        simp only [Clause.past, if_neg hbracket]
        exact Clause.noConfusion

/-- Where the name holds everything, it goes on in the same way after a quiet tree. -/
theorem Spot.after_clause_eq {tree : Tree} (h : spot.clause.holds) (hquiet : isQuiet tree) :
    (spot.after tree).clause = spot.clause := by
  obtain ⟨clause, afterDot⟩ := spot
  obtain ⟨hcurly, hend, hopen, hclose⟩ := isQuiet_iff.1 hquiet
  rcases tree with token | ⟨bracket, opening, inner, closing⟩
  · have hmark := ne_of_isSymbol_leaf hend
    have hless := ne_of_isSymbol_leaf hopen
    have hgreater := ne_of_isSymbol_leaf hclose
    rw [after, next]
    cases clause with
    | arguments level => simp only [Clause.next, if_neg hmark, if_neg hless, if_neg hgreater]
    | annotated => simp only [Clause.next, if_neg hmark]
    | within => rfl
    | _ => cases h
  · have hbracket := ne_of_isGroup_group hcurly
    rw [after, start]
    cases clause with
    | arguments level => simp only [Clause.past, if_neg hbracket]
    | annotated => simp only [Clause.past, if_neg hbracket]
    | within => rfl
    | _ => cases h

theorem Spot.after_within {tree : Tree} (h : spot.clause = .within) :
    (spot.after tree).clause = .within := by
  cases tree with
  | leaf token => rw [after, next, h, Clause.next]
  | group bracket => rw [after, start, h, Clause.past]

theorem Spot.foldl_after_within {trees : List Tree} (h : spot.clause = .within) :
    (trees.foldl Spot.after spot).clause = .within := by
  induction trees generalizing spot with
  | nil => exact h
  | cons tree rest ih => exact ih (spot.after_within h)

end Clauses

section Agreement

/-- A group inside which everything is read is the same if its trees are. -/
theorem group_eq_of_inside
    {spot : Spot} {bracket : Bracket} {opening opening' closing closing' : Token}
    {inner inner' : List Tree} (hspot : spot.clause.holds)
    (hinside : spot.clause.inside bracket = .within)
    (hopening : TokensAgree Spot.reads spot opening opening') (hinner : inner = inner')
    (hclosing : TokensAgree Spot.reads
      (inner.foldl Spot.after (Spot.start (spot.clause.inside bracket))) closing closing') :
    Tree.group bracket opening inner (some closing) =
      .group bracket opening' inner' (some closing') := by
  have hend : (inner.foldl Spot.after (Spot.start (spot.clause.inside bracket))).clause.holds := by
    rw [Spot.foldl_after_within hinside]
    rfl
  rw [hopening.2 (Spot.reads_of_holds hspot _), hinner, hclosing.2 (Spot.reads_of_holds hend _)]

mutual

theorem Tree.Agree.eq_of_within {spot : Spot} (hspot : spot.clause = .within) : {tree tree' : Tree} →
    Tree.Agree Spot.reads spot tree tree' → tree = tree'
  | _, _, .leaf htoken => by
    have hholds : spot.clause.holds := by rw [hspot]; rfl
    rw [htoken.2 (Spot.reads_of_holds hholds _)]
  | _, _, @Tree.Agree.group _ _ bracket _ _ _ _ _ _ hopening hinner hclosing => by
    have hholds : spot.clause.holds := by rw [hspot]; rfl
    have hinside : spot.clause.inside bracket = .within := by rw [hspot, Clause.inside]
    exact group_eq_of_inside hholds hinside hopening (hinner.eq_of_within hinside) hclosing

/-- Nothing differs where everything is read. -/
theorem RowsAgree.eq_of_within {spot : Spot} (hspot : spot.clause = .within) :
    {trees trees' : List Tree} → RowsAgree Spot.reads spot trees trees' → trees = trees'
  | _, _, .nil => rfl
  | _, _, .cons htree hrest => by
    rw [htree.eq_of_within hspot, hrest.eq_of_within (Spot.after_within hspot)]

end

variable {spot : Spot} {trees trees' : List Tree}

/-- Where the name holds everything, a tree is the same unless it is a body. -/
theorem Tree.Agree.eq_of_holds
    {tree tree' : Tree} (h : Tree.Agree Spot.reads spot tree tree') (hspot : spot.clause.holds)
    (hcurly : tree.isGroup .curly = false) : tree = tree' := by
  cases h with
  | leaf htoken => rw [htoken.2 (Spot.reads_of_holds hspot _)]
  | @group _ bracket _ _ _ _ _ _ hopening hinner hclosing =>
      have hbracket := ne_of_isGroup_group hcurly
      have hinside : spot.clause.inside bracket = .within := by
        cases hclause : spot.clause with
        | arguments level => rw [Clause.inside, if_neg hbracket]
        | annotated => rw [Clause.inside, if_neg hbracket]
        | within => rw [Clause.inside]
        | _ =>
            rw [hclause] at hspot
            cases hspot
      exact group_eq_of_inside hspot hinside hopening (hinner.eq_of_within hinside) hclosing

theorem RowsAgree.eq_of_holds
    {taken after row : List Tree} (h : RowsAgree Spot.reads spot (taken ++ after) row)
    (hspot : spot.clause.holds) (hquiet : ∀ tree ∈ taken, isQuiet tree) :
    ∃ after' last, row = taken ++ after' ∧ last.clause.holds ∧
      RowsAgree Spot.reads last after after' := by
  induction taken generalizing spot row with
  | nil => exact ⟨row, spot, rfl, hspot, h⟩
  | cons tree rest ih =>
      obtain ⟨hself, hrest⟩ := List.forall_mem_cons.1 hquiet
      cases h with
      | @cons _ _ tree' _ row' htree hrow =>
          obtain ⟨after', last, rfl, hlast, hafter⟩ :=
            ih hrow ((Spot.after_clause_eq hspot hself).symm ▸ hspot) hrest
          rw [htree.eq_of_holds hspot (isQuiet_iff.1 hself).1]
          exact ⟨after', last, rfl, hlast, hafter⟩

theorem RowsAgree.drop
    {reads : Spot → Lexeme → Bool} {taken after row : List Tree}
    (h : RowsAgree reads spot (taken ++ after) row) (hspot : spot.clause ≠ .outside)
    (hquiet : ∀ tree ∈ taken, isQuiet tree) :
    ∃ taken' after' last, row = taken' ++ after' ∧ taken'.length = taken.length ∧
      last.clause ≠ .outside ∧ RowsAgree reads last after after' := by
  induction taken generalizing spot row with
  | nil => exact ⟨[], row, spot, rfl, rfl, hspot, h⟩
  | cons tree rest ih =>
      obtain ⟨hself, hrest⟩ := List.forall_mem_cons.1 hquiet
      cases h with
      | @cons _ _ tree' _ row' htree hrow =>
          obtain ⟨hcurly, hmark, -⟩ := isQuiet_iff.1 hself
          have hend : !(tree.isGroup .curly || tree.isSymbol ';') := by
            rw [hcurly, hmark]
            rfl
          obtain ⟨taken', after', last, rfl, hlength, hlast, hafter⟩ :=
            ih hrow (Spot.after_ne_outside hspot hend) hrest
          exact ⟨tree' :: taken', after', last, rfl, congrArg (· + 1) hlength, hlast, hafter⟩

theorem Tree.Agree.eq_of_leaf
    {token : Token} {tree' : Tree} (h : Tree.Agree Spot.reads spot (.leaf token) tree')
    (hreads : spot.reads token.lexeme) : tree' = .leaf token := by
  cases h with
  | leaf htoken => rw [htoken.2 hreads]

theorem Spot.reads_dot (spot : Spot) : spot.reads (.symbol '.') := by
  rw [reads, decide_eq_true rfl, Bool.or_true, Bool.true_or, Bool.true_or, Bool.true_or]

theorem Spot.reads_after_dot (spot : Spot) (before : List String) (lexeme : Lexeme) :
    (spot.after (.leaf ⟨before, .symbol '.'⟩)).reads lexeme := by
  rw [after, next, reads]
  dsimp only
  rw [decide_eq_true rfl, Bool.true_or, Bool.true_or, Bool.true_or, Bool.true_or]

/-- The further segments of a dotted name are the same. -/
theorem RowsAgree.moreSegments_eq (h : RowsAgree Spot.reads spot trees trees') :
    (moreSegments trees').1 = (moreSegments trees).1 := by
  fun_induction moreSegments trees generalizing spot trees' with
  | case1 dot segment rest hsegment more after hmore ih =>
      rw [hmore] at ih
      obtain ⟨hdot, hword⟩ := Bool.and_eq_true_iff.1 hsegment
      obtain ⟨word, hsome⟩ := Option.isSome_iff_exists.1 hword
      obtain ⟨before, rfl⟩ := exists_leaf_of_isSymbol hdot
      obtain ⟨before', rfl⟩ := exists_leaf_of_word? hsome
      cases h with
      | cons hfirst hrow =>
          cases hrow with
          | cons hsecond hrest =>
              obtain rfl := hfirst.eq_of_leaf (Spot.reads_dot spot)
              obtain rfl := hsecond.eq_of_leaf (Spot.reads_after_dot spot before _)
              rw [moreSegments, if_pos hsegment]
              dsimp only
              rw [ih hrest]
  | case2 dot segment rest hsegment =>
      cases h with
      | cons hfirst hrow =>
          cases hrow with
          | cons hsecond hrest =>
              rw [moreSegments, hfirst.alike.isSymbol_eq, hsecond.alike.word?_eq, if_neg hsegment]
  | case3 trees hshort =>
      cases h with
      | nil => rfl
      | cons hfirst hrow =>
          cases hrow with
          | nil => rfl
          | cons => exact absurd rfl (hshort _ _ _)

/-- A dotted name is the same. -/
theorem RowsAgree.dottedName?_eq (h : RowsAgree Spot.reads spot trees trees') :
    (dottedName? trees).map Prod.fst = (dottedName? trees').map Prod.fst := by
  cases h with
  | nil => rfl
  | @cons _ tree tree' rest rest' htree hrest =>
      rw [dottedName?, dottedName?, htree.alike.word?_eq]
      cases tree.word? with
      | none => rfl
      | some word =>
          dsimp only
          rw [hrest.moreSegments_eq]
          rfl

end Agreement

end ComponentMarkers.Source
