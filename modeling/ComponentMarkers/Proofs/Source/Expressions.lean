import ComponentMarkers.Proofs.Source.Headers

/-!
# Expressions

The rows of trees that are expressions, with any trees in brackets.  An operator has no rank here: more
rows are expressions than a compiler takes.

An angle bracket is the hard part of passing over an expression.  A comma may stand between type
arguments, so the reader has to tell them from operators, and it looks at what follows the closing
bracket.  Only behind type arguments can it be a method reference, a class literal or a further name of
the type: no operand begins like that.  So the angle brackets of an expression that open no type
arguments are operators, whatever comes after the expression.
-/

namespace ComponentMarkers.Source

open Source.Tree

section Grammar

/-- A number, or a literal in quotes. -/
def isLiteral : Tree → Bool
  | .leaf ⟨_, .number _⟩ => true
  | .leaf ⟨_, .quoted _⟩ => true
  | _ => false

/-- The characters that operators are made of. -/
def operatorSigns : List Char :=
  ['+', '-', '*', '/', '%', '&', '|', '^', '<', '>', '=', '!', '~']

/-- An operator, sign by sign. -/
inductive IsOperator : List Tree → Prop
  | last {sign : Tree} {char : Char} (hsign : sign.isSymbol char) (hchar : char ∈ operatorSigns) :
      IsOperator [sign]
  | cons {sign : Tree} {char : Char} {rest : List Tree} (hsign : sign.isSymbol char)
      (hchar : char ∈ operatorSigns) (hrest : IsOperator rest) : IsOperator (sign :: rest)

/-- What an expression ends with: the type of an `instanceof`, which may go on, the dimensions of a new
array, which may go on, or neither. -/
inductive Ending where
  | type
  | dimensions
  | operand
  deriving DecidableEq

/-- What follows an expression is no part of what it ends with. -/
def Ending.IsBefore (rest : List Tree) : Ending → Prop
  | .type => EndsType rest
  | .dimensions => afterDimensions rest = rest
  | .operand => True

/-- The word `new` and what belongs to it. -/
inductive IsCreation : Ending → List Tree → Prop
  | object {keyword arguments : Tree} {before types between type body : List Tree}
      (hkeyword : keyword.isWord "new") (hbefore : AreAnnotations before) (htypes : MayBeArguments types)
      (hbetween : AreAnnotations between) (htype : IsTypeName type)
      (harguments : arguments.isGroup .round)
      (hbody : body = [] ∨ ∃ group, group.isGroup .curly ∧ body = [group]) :
      IsCreation .operand (keyword :: (before ++ (types ++ (between ++ (type ++ arguments :: body)))))
  | array {keyword square : Tree} {before type between dimensions : List Tree}
      (hkeyword : keyword.isWord "new") (hbefore : AreAnnotations before) (htype : IsTypeName type)
      (hbetween : AreAnnotations between) (hsquare : square.isGroup .square)
      (hdimensions : AreDimensions dimensions) :
      IsCreation .dimensions (keyword :: (before ++ (type ++ (between ++ square :: dimensions))))
  | initialized {array : List Tree} {block : Tree} (harray : IsCreation .dimensions array)
      (hblock : block.isGroup .curly) : IsCreation .operand (array ++ [block])

/-- What follows the word `instanceof`: a type, with a name or the parts of a record or without. -/
inductive IsPattern : Ending → List Tree → Prop
  | type {modifiers type : List Tree} (hmodifiers : AreModifiers modifierWords modifiers)
      (htype : IsType type) (hhead : BeginsPlainly type) :
      IsPattern .type (modifiers ++ type)
  | named {pattern : List Tree} {name : Tree} (hpattern : IsPattern .type pattern)
      (hname : IsNameWord name) : IsPattern .operand (pattern ++ [name])
  | record {pattern : List Tree} {parts : Tree} (hpattern : IsPattern .type pattern)
      (hparts : parts.isGroup .round) : IsPattern .operand (pattern ++ [parts])

/-- An operand, and what it ends with. -/
inductive IsOperand : Ending → List Tree → Prop
  | literal {tree : Tree} (htree : isLiteral tree) : IsOperand .operand [tree]
  | decimal {dot tree : Tree} (hdot : dot.isSymbol '.') (htree : isLiteral tree) :
      IsOperand .operand [dot, tree]
  | name {tree : Tree} (htree : IsNameWord tree) : IsOperand .operand [tree]
  | parentheses {group : Tree} (hgroup : group.isGroup .round) : IsOperand .operand [group]
  | switch {keyword selector block : Tree} (hkeyword : keyword.isWord "switch")
      (hselector : selector.isGroup .round) (hblock : block.isGroup .curly) :
      IsOperand .operand [keyword, selector, block]
  | creation {ending : Ending} {row : List Tree} (hrow : IsCreation ending row) : IsOperand ending row
  | reference {annotations type types : List Tree} {first second name : Tree}
      (hannotations : AreAnnotations annotations) (htype : IsType type)
      (hfirst : first.isSymbol ':') (hsecond : second.isSymbol ':') (htypes : MayBeArguments types)
      (hname : IsNameWord name ∨ name.isWord "new") :
      IsOperand .operand (annotations ++ (type ++ first :: second :: (types ++ [name])))
  | classLiteral {type : List Tree} {dot name : Tree} (htype : IsType type)
      (hplain : ∀ tree ∈ type, tree.isSymbol '@' = false) (hdot : dot.isSymbol '.')
      (hname : name.isWord "class") : IsOperand .operand (type ++ [dot, name])

/-- What goes on with an operand that ends with the first, and what it ends with then. -/
inductive IsSuffix : Ending → Ending → List Tree → Prop
  | call {group : Tree} (hgroup : group.isGroup .round) : IsSuffix .operand .operand [group]
  | index {group : Tree} (hgroup : group.isGroup .square) : IsSuffix .operand .operand [group]
  | member {last : Ending} {types : List Tree} {dot name : Tree} (hlast : last ≠ .type)
      (hdot : dot.isSymbol '.') (htypes : MayBeArguments types) (hname : IsNameWord name) :
      IsSuffix last .operand (dot :: (types ++ [name]))
  | template {last : Ending} {dot tree : Tree} (hlast : last ≠ .type) (hdot : dot.isSymbol '.')
      (htree : isLiteral tree) : IsSuffix last .operand [dot, tree]
  | creation {last ending : Ending} {row : List Tree} {dot : Tree} (hlast : last ≠ .type)
      (hdot : dot.isSymbol '.') (hrow : IsCreation ending row) : IsSuffix last ending (dot :: row)
  | reference {last : Ending} {types : List Tree} {first second name : Tree}
      (hfirst : first.isSymbol ':') (hsecond : second.isSymbol ':') (htypes : MayBeArguments types)
      (hname : IsNameWord name ∨ name.isWord "new") :
      IsSuffix last .operand (first :: second :: (types ++ [name]))
  | increment {last : Ending} {first second : Tree} {char : Char} (hchar : char ∈ ['+', '-'])
      (hfirst : first.isSymbol char) (hsecond : second.isSymbol char) :
      IsSuffix last .operand [first, second]
  | instanceOf {last ending : Ending} {pattern : List Tree} {keyword : Tree}
      (hkeyword : keyword.isWord "instanceof") (hpattern : IsPattern ending pattern) :
      IsSuffix last ending (keyword :: pattern)

/-- The parameters of a lambda expression and the arrow after them. -/
inductive IsLambdaHead : List Tree → Prop
  | mk {parameters minus greater : Tree}
      (hparameters : IsNameWord parameters ∨ parameters.isGroup .round)
      (hminus : minus.isSymbol '-') (hgreater : greater.isSymbol '>') :
      IsLambdaHead [parameters, minus, greater]

/-- An expression, and what it ends with. -/
inductive IsExpression : Ending → List Tree → Prop
  | operand {ending : Ending} {row : List Tree} (hrow : IsOperand ending row) : IsExpression ending row
  | suffix {last ending : Ending} {value row : List Tree} (hvalue : IsExpression last value)
      (hrow : IsSuffix last ending row) : IsExpression ending (value ++ row)
  | cast {group : Tree} {ending : Ending} {value : List Tree} (hgroup : group.isGroup .round)
      (hvalue : IsExpression ending value) : IsExpression ending (group :: value)
  | unary {sign : Tree} {char : Char} {ending : Ending} {value : List Tree}
      (hsign : sign.isSymbol char) (hchar : char ∈ ['+', '-', '!', '~'])
      (hvalue : IsExpression ending value) : IsExpression ending (sign :: value)
  | binary {last ending : Ending} {left operator right : List Tree} (hleft : IsExpression last left)
      (hoperator : IsOperator operator)
      (hlast : last = .type → ∀ sign ∈ operator.head?, sign.isSymbol '<' = false)
      (hright : IsExpression ending right) : IsExpression ending (left ++ (operator ++ right))
  | conditional {first second ending : Ending} {condition left right : List Tree} {question colon : Tree}
      (hcondition : IsExpression first condition) (hquestion : question.isSymbol '?')
      (hleft : IsExpression second left) (hcolon : colon.isSymbol ':')
      (hright : IsExpression ending right) :
      IsExpression ending (condition ++ question :: (left ++ colon :: right))
  | lambda {head : List Tree} {ending : Ending} {body : List Tree} (hhead : IsLambdaHead head)
      (hbody : IsExpression ending body) : IsExpression ending (head ++ body)
  | lambdaBlock {head : List Tree} {body : Tree} (hhead : IsLambdaHead head)
      (hbody : body.isGroup .curly) : IsExpression .operand (head ++ [body])

end Grammar

section Steps

variable {tree : Tree} {rest : List Tree}

/-- The value goes on with the tree. -/
theorem afterValue_cons
    {ended : Bool} (hcomma : tree.isSymbol ',' = false) (hend : tree.isSymbol ';' = false)
    (hword : ended → startsAnew tree = false) :
    afterValue ended (tree :: rest) = afterValue (endsOperand ended tree) (afterPart tree rest) := by
  have hgoes : (tree.isSymbol ',' || tree.isSymbol ';' || (ended && startsAnew tree)) = false := by
    rw [hcomma, hend, Bool.false_or, Bool.false_or]
    cases ended with
    | false => rfl
    | true => exact hword rfl
  rw [afterValue.eq_def]
  dsimp only
  rw [if_neg (Bool.not_eq_true _ ▸ hgoes)]

/-- Nothing but the tree itself is passed over. -/
structure StandsAlone (tree : Tree) : Prop where
  not_new : tree.isWord "new" = false
  not_instanceof : tree.isWord "instanceof" = false
  not_dot : tree.isSymbol '.' = false
  not_colon : tree.isSymbol ':' = false
  not_at : tree.isSymbol '@' = false

theorem startsReference_cons (hcolon : tree.isSymbol ':' = false) (rest : List Tree) :
    startsReference (tree :: rest) = false := by
  cases rest with
  | nil => rfl
  | cons next more =>
      rw [startsReference, hcolon]
      rfl

theorem referenceAnnotation?_of_not_at (hat : tree.isSymbol '@' = false) (rest : List Tree) :
    referenceAnnotation? (tree :: rest) = none := by
  rw [referenceAnnotation?, annotation?_of_not_at hat]

theorem StandsAlone.afterPart_eq (h : StandsAlone tree)
    (harguments : referenceArguments? (tree :: rest) = none) : afterPart tree rest = rest := by
  rw [afterPart, h.not_new, h.not_instanceof, startsReference_cons h.not_colon, h.not_dot,
    h.not_colon, harguments, referenceAnnotation?_of_not_at h.not_at]
  rfl

theorem referenceArguments?_of_not_angle (hangle : tree.isSymbol '<' = false) (rest : List Tree) :
    referenceArguments? (tree :: rest) = none := by
  rw [referenceArguments?, typeArguments?, hangle]
  rfl

theorem StandsAlone.afterValue_cons
    (h : StandsAlone tree) (hangle : tree.isSymbol '<' = false) (hcomma : tree.isSymbol ',' = false)
    (hend : tree.isSymbol ';' = false) {ended : Bool} (hword : ended → startsAnew tree = false)
    (rest : List Tree) :
    afterValue ended (tree :: rest) = afterValue (endsOperand ended tree) rest := by
  rw [Source.afterValue_cons hcomma hend hword,
    h.afterPart_eq (referenceArguments?_of_not_angle hangle rest)]

theorem afterValue_nameWord (h : IsNameWord tree) (rest : List Tree) :
    afterValue false (tree :: rest) = afterValue true rest := by
  obtain ⟨text, hword, htext⟩ := h
  obtain ⟨before, rfl⟩ := exists_leaf_of_word? hword
  simp only [operatorWords, List.mem_cons, List.not_mem_nil, or_false, not_or] at htext
  have halone : StandsAlone (.leaf ⟨before, .word text⟩) :=
    ⟨beq_eq_false_iff_ne.2 (mt Option.some.inj htext.1),
      beq_eq_false_iff_ne.2 (mt Option.some.inj htext.2), rfl, rfl, rfl⟩
  have hends : endsOperand false (.leaf ⟨before, .word text⟩) = true := decide_eq_true htext.2
  rw [halone.afterValue_cons rfl rfl rfl (fun h => absurd h Bool.false_ne_true), hends]

theorem afterValue_literal (h : isLiteral tree) (ended : Bool) (rest : List Tree) :
    afterValue ended (tree :: rest) = afterValue true rest := by
  unfold isLiteral at h
  split at h
  · exact StandsAlone.afterValue_cons ⟨rfl, rfl, rfl, rfl, rfl⟩ rfl rfl rfl (fun _ => rfl) rest
  · exact StandsAlone.afterValue_cons ⟨rfl, rfl, rfl, rfl, rfl⟩ rfl rfl rfl (fun _ => rfl) rest
  · cases h

theorem afterValue_group {bracket : Bracket} (h : tree.isGroup bracket) (ended : Bool)
    (rest : List Tree) :
    afterValue ended (tree :: rest) =
      afterValue (if bracket = .curly then true else ended) rest := by
  obtain ⟨opening, inner, closing, rfl⟩ := exists_group_of_isGroup h
  rw [StandsAlone.afterValue_cons ⟨rfl, rfl, rfl, rfl, rfl⟩ rfl rfl rfl (fun _ => rfl)]
  cases bracket <;> rfl

theorem afterValue_dot (h : tree.isSymbol '.') (ended : Bool) (rest : List Tree) :
    afterValue ended (tree :: rest) = afterValue false (afterTypeArguments rest) := by
  obtain ⟨before, rfl⟩ := exists_leaf_of_isSymbol h
  have hpart : afterPart (.leaf ⟨before, .symbol '.'⟩) rest = afterTypeArguments rest := by
    rw [afterPart, startsReference_cons rfl]
    rfl
  rw [afterValue_cons rfl rfl (fun _ => rfl), hpart]
  rfl

theorem afterValue_colon
    (h : tree.isSymbol ':') (hrest : ∀ next ∈ rest.head?, next.isSymbol ':' = false) (ended : Bool) :
    afterValue ended (tree :: rest) = afterValue false (afterTypeArguments rest) := by
  obtain ⟨before, rfl⟩ := exists_leaf_of_isSymbol h
  have hreference : startsReference (.leaf ⟨before, .symbol ':'⟩ :: rest) = false := by
    cases rest with
    | nil => rfl
    | cons next more =>
        rw [startsReference, hrest next rfl]
        rfl
  have hpart : afterPart (.leaf ⟨before, .symbol ':'⟩) rest = afterTypeArguments rest := by
    rw [afterPart, hreference]
    rfl
  rw [afterValue_cons rfl rfl (fun _ => rfl), hpart]
  rfl

theorem afterValue_colons
    {next : Tree} (h : tree.isSymbol ':') (hnext : next.isSymbol ':') (ended : Bool)
    (rest : List Tree) :
    afterValue ended (tree :: next :: rest) = afterValue false (afterColons rest) := by
  obtain ⟨before, rfl⟩ := exists_leaf_of_isSymbol h
  have hreference : startsReference (.leaf ⟨before, .symbol ':'⟩ :: next :: rest) = true := by
    rw [startsReference, hnext]
    rfl
  have hpart : afterPart (.leaf ⟨before, .symbol ':'⟩) (next :: rest) = afterColons rest := by
    rw [afterPart, hreference]
    rfl
  rw [afterValue_cons rfl rfl (fun _ => rfl), hpart]
  rfl

end Steps

section Angles

variable {tree : Tree} {row rest : List Tree}

/-- No type goes on with the row, and no method reference. -/
structure EndsTypeUse (rest : List Tree) : Prop extends EndsType rest where
  not_colon : ∀ tree ∈ rest.head?, tree.isSymbol ':' = false

theorem EndsClassType.endsTypeUse (h : EndsClassType tree) (hcolon : tree.isSymbol ':' = false)
    (rest : List Tree) : EndsTypeUse (tree :: rest) :=
  ⟨h.endsType rest, fun _ hfirst => Option.some.inj hfirst ▸ hcolon⟩

theorem endsClassType_of_isGroup {bracket : Bracket} (h : tree.isGroup bracket)
    (hbracket : bracket ≠ .square) : EndsClassType tree := by
  obtain ⟨opening, inner, closing, rfl⟩ := exists_group_of_isGroup h
  exact ⟨rfl, rfl, rfl, beq_eq_false_iff_ne.2 hbracket⟩

theorem endsClassType_of_word?_isSome (h : tree.word?.isSome) : EndsClassType tree := by
  obtain ⟨text, htext⟩ := Option.isSome_iff_exists.1 h
  obtain ⟨before, rfl⟩ := exists_leaf_of_word? htext
  exact ⟨rfl, rfl, rfl, rfl⟩

theorem EndsTypeUse.of_isGroup {bracket : Bracket} (h : tree.isGroup bracket)
    (hbracket : bracket ≠ .square) (rest : List Tree) : EndsTypeUse (tree :: rest) := by
  refine (endsClassType_of_isGroup h hbracket).endsTypeUse ?_ rest
  obtain ⟨opening, inner, closing, rfl⟩ := exists_group_of_isGroup h
  rfl

theorem EndsTypeUse.of_word?_isSome (h : tree.word?.isSome) (rest : List Tree) :
    EndsTypeUse (tree :: rest) := by
  refine (endsClassType_of_word?_isSome h).endsTypeUse ?_ rest
  obtain ⟨text, htext⟩ := Option.isSome_iff_exists.1 h
  obtain ⟨before, rfl⟩ := exists_leaf_of_word? htext
  rfl

theorem EndsTypeUse.of_isSymbol
    {char : Char} (h : tree.isSymbol char) (hchar : char ∉ ['<', '.', '@', ':']) (rest : List Tree) :
    EndsTypeUse (tree :: rest) := by
  simp only [List.mem_cons, List.not_mem_nil, or_false, not_or] at hchar
  obtain ⟨hangle, hdot, hat, hcolon⟩ := hchar
  have hsquare : tree.isGroup .square = false := by
    obtain ⟨before, rfl⟩ := exists_leaf_of_isSymbol h
    rfl
  exact EndsClassType.endsTypeUse ⟨isSymbol_eq_false h hangle, isSymbol_eq_false h hdot,
    isSymbol_eq_false h hat, hsquare⟩ (isSymbol_eq_false h hcolon) rest

theorem EndsTypeUse.goesOnType_eq (h : EndsTypeUse rest) : goesOnType rest = false := by
  have hreference : startsReference rest = false := by
    cases rest with
    | nil => rfl
    | cons tree more => exact startsReference_cons (h.not_colon tree rfl) more
  rw [goesOnType, h.dimensions, hreference, h.name]
  rfl

/-- Where angle brackets are open before the row, those in it that close them are operators. -/
def ClosesNoType (rest : List Tree) : Prop :=
  ∀ level inner after, angleGroup? (level + 1) rest = some (inner, after) → goesOnType after = false

theorem PassesAngles.closesNoType (h : PassesAngles row) (hrest : ClosesNoType rest) :
    ClosesNoType (row ++ rest) := by
  intro level inner after hgroup
  rw [h level rest] at hgroup
  obtain ⟨⟨found, tail⟩, hfound, heq⟩ := Option.map_eq_some_iff.1 hgroup
  obtain ⟨-, rfl⟩ := Prod.mk.inj heq
  exact hrest level found tail hfound

theorem ClosesNoType.cons
    (hrest : ClosesNoType rest) (hclosing : tree.isSymbol '>' → goesOnType rest = false) :
    ClosesNoType (tree :: rest) := by
  intro level inner after hgroup
  rw [angleGroup?] at hgroup
  split at hgroup
  · obtain ⟨⟨found, tail⟩, hfound, heq⟩ := Option.map_eq_some_iff.1 hgroup
    obtain ⟨-, rfl⟩ := Prod.mk.inj heq
    exact hrest (level + 1) found tail hfound
  · split at hgroup
    · rename_i hclose
      split at hgroup
      · obtain ⟨-, rfl⟩ := Prod.mk.inj (Option.some.inj hgroup)
        exact hclosing hclose
      · rename_i hlevel
        obtain ⟨lower, rfl⟩ : ∃ lower, level = lower + 1 :=
          Nat.exists_eq_add_one_of_ne_zero (by omega)
        obtain ⟨⟨found, tail⟩, hfound, heq⟩ := Option.map_eq_some_iff.1 hgroup
        obtain ⟨-, rfl⟩ := Prod.mk.inj heq
        exact hrest lower found tail hfound
    · split at hgroup
      · cases hgroup
      · obtain ⟨⟨found, tail⟩, hfound, heq⟩ := Option.map_eq_some_iff.1 hgroup
        obtain ⟨-, rfl⟩ := Prod.mk.inj heq
        exact hrest level found tail hfound

/-- Brackets that a semicolon or a body ends are not closed. -/
theorem closesNoType_of_end (h : tree.isSymbol ';' || tree.isGroup .curly) (rest : List Tree) :
    ClosesNoType (tree :: rest) := by
  intro level inner after hgroup
  have hangles : tree.isSymbol '<' = false ∧ tree.isSymbol '>' = false := by
    rcases Bool.or_eq_true_iff.1 h with h | h
    · obtain ⟨before, rfl⟩ := exists_leaf_of_isSymbol h
      exact ⟨rfl, rfl⟩
    · obtain ⟨opening, found, closing, rfl⟩ := exists_group_of_isGroup h
      exact ⟨rfl, rfl⟩
  rw [angleGroup?, hangles.1, hangles.2, if_neg Bool.false_ne_true, if_neg Bool.false_ne_true,
    if_pos h] at hgroup
  cases hgroup

/-- An angle bracket that is an operator opens nothing. -/
theorem ClosesNoType.referenceArguments?_eq (h : ClosesNoType rest) (tree : Tree) :
    referenceArguments? (tree :: rest) = none := by
  rw [referenceArguments?, typeArguments?]
  by_cases hangle : tree.isSymbol '<'
  · rw [if_pos hangle, angleGroup?, if_pos hangle]
    cases hgroup : angleGroup? 1 rest with
    | none => rfl
    | some found =>
        rw [Option.map_some]
        dsimp only
        rw [h 0 found.1 found.2 hgroup]
        rfl
  · rw [if_neg hangle]

theorem afterValue_operatorSign
    {char : Char} (hsign : tree.isSymbol char) (hchar : char ∈ '?' :: operatorSigns)
    (hrest : ClosesNoType rest) (ended : Bool) :
    afterValue ended (tree :: rest) = afterValue false rest := by
  have hsigns : ∀ char ∈ '?' :: operatorSigns,
      char ≠ ',' ∧ char ≠ ';' ∧ char ≠ '.' ∧ char ≠ ':' ∧ char ≠ '@' := by
    simp [operatorSigns]
  obtain ⟨hcomma, hend, hdot, hcolon, hat⟩ := hsigns char hchar
  have hword : tree.word? = none ∧ endsOperand ended tree = false := by
    obtain ⟨before, rfl⟩ := exists_leaf_of_isSymbol hsign
    exact ⟨rfl, rfl⟩
  have halone : StandsAlone tree := by
    refine ⟨?_, ?_, isSymbol_eq_false hsign hdot, isSymbol_eq_false hsign hcolon,
      isSymbol_eq_false hsign hat⟩
    · rw [Tree.isWord, hword.1]
      rfl
    · rw [Tree.isWord, hword.1]
      rfl
  have hanew : startsAnew tree = false := by
    rw [startsAnew, hword.1]
    rfl
  rw [afterValue_cons (isSymbol_eq_false hsign hcomma) (isSymbol_eq_false hsign hend) (fun _ => hanew),
    halone.afterPart_eq (hrest.referenceArguments?_eq _), hword.2]

end Angles

section Begins

variable {ending : Ending} {row : List Tree}

theorem word?_isSome_of_isWord {tree : Tree} {text : String} (h : tree.isWord text) :
    tree.word?.isSome :=
  Option.isSome_of_eq_some (eq_of_beq h)

theorem endsTypeUse_literal {tree : Tree} (h : isLiteral tree) (rest : List Tree) :
    EndsTypeUse (tree :: rest) := by
  unfold isLiteral at h
  split at h
  · exact EndsClassType.endsTypeUse ⟨rfl, rfl, rfl, rfl⟩ rfl rest
  · exact EndsClassType.endsTypeUse ⟨rfl, rfl, rfl, rfl⟩ rfl rest
  · cases h

theorem endsTypeUse_decimal {dot tree : Tree} (hdot : dot.isSymbol '.') (htree : isLiteral tree)
    (rest : List Tree) : EndsTypeUse (dot :: tree :: rest) := by
  have hliteral : tree.isSymbol '@' = false ∧ tree.word? = none := by
    unfold isLiteral at htree
    split at htree
    · exact ⟨rfl, rfl⟩
    · exact ⟨rfl, rfl⟩
    · cases htree
  obtain ⟨before, rfl⟩ := exists_leaf_of_isSymbol hdot
  have hname : nextTypeName? (.leaf ⟨before, .symbol '.'⟩ :: tree :: rest) = none := by
    rw [nextTypeName?, annotations_of_not_at hliteral.1]
    dsimp only
    rw [hliteral.2]
    rfl
  refine ⟨⟨⟨afterTypeArguments_of_not_angle rfl _, hname⟩, afterDimensions_of_not rfl rfl _⟩, ?_⟩
  intro first hfirst
  obtain rfl := Option.some.inj hfirst
  rfl

theorem endsTypeUse_annotated
    {annotations type : List Tree} (hannotations : AreAnnotations annotations) (htype : IsType type)
    (rest : List Tree) : EndsTypeUse (annotations ++ (type ++ rest)) := by
  obtain ⟨word, more, rfl, hword⟩ := htype.exists_eq_cons
  cases hannotations with
  | nil => exact EndsTypeUse.of_word?_isSome hword _
  | @cons first others hrow hrest =>
      obtain ⟨sign, name, hsame, hsign⟩ := hrow.exists_eq_cons
      obtain ⟨names, hnames⟩ := (AreAnnotations.cons hrow hrest).exists_annotations
      have hread := hnames word (more ++ rest) (endsAnnotations_of_word? hword)
      have hsquare : word.isGroup .square = false := (endsClassType_of_word?_isSome hword).not_square
      have hnone : dimension? (first ++ others ++ word :: (more ++ rest)) = none := by
        rw [dimension?, hread]
        dsimp only
        rw [hsquare]
        rfl
      have hdimensions : afterDimensions (first ++ others ++ word :: (more ++ rest)) =
          first ++ others ++ word :: (more ++ rest) := by
        rw [afterDimensions_eq, hnone]
      subst hsame
      obtain ⟨before, rfl⟩ := exists_leaf_of_isSymbol hsign
      refine ⟨⟨endsTypeTail_cons rfl rfl _, hdimensions⟩, ?_⟩
      intro tree htree
      obtain rfl := Option.some.inj htree
      rfl

theorem IsCreation.exists_eq_cons (h : IsCreation ending row) :
    ∃ keyword more, row = keyword :: more ∧ keyword.isWord "new" := by
  induction h with
  | object hkeyword => exact ⟨_, _, rfl, hkeyword⟩
  | array hkeyword => exact ⟨_, _, rfl, hkeyword⟩
  | initialized _ _ ih =>
      obtain ⟨keyword, more, rfl, hkeyword⟩ := ih
      exact ⟨keyword, _, rfl, hkeyword⟩

theorem IsOperand.endsTypeUse (h : IsOperand ending row) (rest : List Tree) :
    EndsTypeUse (row ++ rest) := by
  cases h with
  | literal htree => exact endsTypeUse_literal htree rest
  | decimal hdot htree => exact endsTypeUse_decimal hdot htree rest
  | name htree => exact EndsTypeUse.of_word?_isSome htree.word?_isSome rest
  | parentheses hgroup => exact EndsTypeUse.of_isGroup hgroup (by decide) rest
  | «switch» hkeyword => exact EndsTypeUse.of_word?_isSome (word?_isSome_of_isWord hkeyword) _
  | creation hrow =>
      obtain ⟨keyword, more, rfl, hkeyword⟩ := hrow.exists_eq_cons
      exact EndsTypeUse.of_word?_isSome (word?_isSome_of_isWord hkeyword) _
  | reference hannotations htype =>
      rw [List.append_assoc, List.append_assoc]
      exact endsTypeUse_annotated hannotations htype _
  | classLiteral htype =>
      obtain ⟨word, more, rfl, hword⟩ := htype.exists_eq_cons
      exact EndsTypeUse.of_word?_isSome hword _

theorem IsLambdaHead.endsTypeUse (h : IsLambdaHead row) (rest : List Tree) :
    EndsTypeUse (row ++ rest) := by
  obtain @⟨parameters, minus, greater, hparameters, -, -⟩ := h
  rcases hparameters with hword | hround
  · exact EndsTypeUse.of_word?_isSome hword.word?_isSome _
  · exact EndsTypeUse.of_isGroup hround (by decide) _

/-- No type and no method reference goes on with an expression. -/
theorem IsExpression.endsTypeUse (h : IsExpression ending row) (rest : List Tree) :
    EndsTypeUse (row ++ rest) := by
  induction h generalizing rest with
  | operand hrow => exact hrow.endsTypeUse rest
  | suffix _ _ ih => exact List.append_assoc _ _ rest ▸ ih _
  | cast hgroup => exact EndsTypeUse.of_isGroup hgroup (by decide) _
  | unary hsign hchar =>
      have hsigns : ∀ char ∈ ['+', '-', '!', '~'], char ∉ ['<', '.', '@', ':'] := by simp
      exact EndsTypeUse.of_isSymbol hsign (hsigns _ hchar) _
  | binary _ _ _ _ ih => exact List.append_assoc _ _ rest ▸ ih _
  | conditional _ _ _ _ _ ih => exact List.append_assoc _ _ rest ▸ ih _
  | lambda hhead => exact List.append_assoc _ _ rest ▸ hhead.endsTypeUse _
  | lambdaBlock hhead => exact List.append_assoc _ _ rest ▸ hhead.endsTypeUse _

end Begins

section Closing

variable {ending : Ending} {row rest : List Tree}

theorem goesOnType_operatorSign
    {sign : Tree} {char : Char} (hsign : sign.isSymbol char) (hchar : char ∈ operatorSigns)
    (rest : List Tree) : goesOnType (sign :: rest) = false := by
  have hsigns : ∀ char ∈ operatorSigns, char ≠ '.' ∧ char ≠ ':' ∧ char ≠ '@' := by
    simp [operatorSigns]
  obtain ⟨hdot, hcolon, hat⟩ := hsigns char hchar
  have hsquare : sign.isGroup .square = false := by
    obtain ⟨before, rfl⟩ := exists_leaf_of_isSymbol hsign
    rfl
  rw [goesOnType, afterDimensions_of_not (isSymbol_eq_false hsign hat) hsquare,
    startsReference_cons (isSymbol_eq_false hsign hcolon), nextTypeName?, isSymbol_eq_false hsign hdot]
  rfl

theorem IsOperator.closesNoType
    (h : IsOperator row) (hrest : ClosesNoType rest) (hgoes : goesOnType rest = false) :
    ClosesNoType (row ++ rest) := by
  induction h with
  | last _ _ => exact hrest.cons fun _ => hgoes
  | cons _ _ hmore ih =>
      refine ih.cons fun _ => ?_
      cases hmore with
      | last hsign hchar => exact goesOnType_operatorSign hsign hchar _
      | cons hsign hchar _ => exact goesOnType_operatorSign hsign hchar _

theorem ClosesNoType.group {tree : Tree} {bracket : Bracket} (h : tree.isGroup bracket)
    (hrest : ClosesNoType rest) : ClosesNoType (tree :: rest) := by
  refine hrest.cons fun hclosing => ?_
  obtain ⟨opening, inner, closing, rfl⟩ := exists_group_of_isGroup h
  cases hclosing

theorem IsCreation.closesNoType (h : IsCreation ending row) (hrest : ClosesNoType rest) :
    ClosesNoType (row ++ rest) := by
  induction h generalizing rest with
  | @object keyword arguments before types between type body hkeyword hbefore htypes hbetween htype
      harguments hbody =>
      have hword := passesAngles_word (word?_isSome_of_isWord hkeyword)
      have hafter : ClosesNoType (body ++ rest) := by
        rcases hbody with rfl | ⟨group, hgroup, rfl⟩
        · exact hrest
        · exact ClosesNoType.group hgroup hrest
      simp only [List.cons_append, List.append_assoc]
      exact PassesAngles.closesNoType hword (hbefore.passesAngles.closesNoType
        (htypes.passesAngles.closesNoType (hbetween.passesAngles.closesNoType
          (htype.passesAngles.closesNoType (ClosesNoType.group harguments hafter)))))
  | array hkeyword hbefore htype hbetween hsquare hdimensions =>
      have hword := passesAngles_word (word?_isSome_of_isWord hkeyword)
      simp only [List.cons_append, List.append_assoc]
      exact PassesAngles.closesNoType hword (hbefore.passesAngles.closesNoType
        (htype.passesAngles.closesNoType (hbetween.passesAngles.closesNoType
          (ClosesNoType.group hsquare (hdimensions.passesAngles.closesNoType hrest)))))
  | initialized _ hblock ih =>
      rw [List.append_assoc]
      exact ih (ClosesNoType.group hblock hrest)

theorem IsPattern.closesNoType (h : IsPattern ending row) (hrest : ClosesNoType rest) :
    ClosesNoType (row ++ rest) := by
  induction h generalizing rest with
  | type hmodifiers htype _ =>
      exact (hmodifiers.passesAngles.append htype.passesAngles).closesNoType hrest
  | named _ hname ih =>
      rw [List.append_assoc]
      exact ih ((passesAngles_word hname.word?_isSome).closesNoType hrest)
  | record _ hparts ih =>
      rw [List.append_assoc]
      exact ih (ClosesNoType.group hparts hrest)

theorem ClosesNoType.word {tree : Tree} (h : tree.word?.isSome) (hrest : ClosesNoType rest) :
    ClosesNoType (tree :: rest) :=
  (passesAngles_word h).closesNoType hrest

theorem ClosesNoType.sign {tree : Tree} {char : Char} (h : tree.isSymbol char) (hchar : char ≠ '>')
    (hrest : ClosesNoType rest) : ClosesNoType (tree :: rest) :=
  hrest.cons fun hclosing => absurd hclosing (Bool.eq_false_iff.1 (isSymbol_eq_false h hchar))

theorem ClosesNoType.literal {tree : Tree} (h : isLiteral tree) (hrest : ClosesNoType rest) :
    ClosesNoType (tree :: rest) := by
  refine hrest.cons fun hclosing => ?_
  obtain ⟨before, rfl⟩ := exists_leaf_of_isSymbol hclosing
  cases h

/-- The two colons of a method reference, and what it names. -/
theorem closesNoType_reference
    {first second name : Tree} {types : List Tree} (hfirst : first.isSymbol ':')
    (hsecond : second.isSymbol ':') (htypes : MayBeArguments types)
    (hname : IsNameWord name ∨ name.isWord "new") (hrest : ClosesNoType rest) :
    ClosesNoType (first :: second :: (types ++ name :: rest)) := by
  have hword : name.word?.isSome := by
    rcases hname with hname | hname
    · exact hname.word?_isSome
    · exact word?_isSome_of_isWord hname
  exact ClosesNoType.sign hfirst (by decide) (ClosesNoType.sign hsecond (by decide)
    (htypes.passesAngles.closesNoType (ClosesNoType.word hword hrest)))

theorem IsOperand.closesNoType (h : IsOperand ending row) (hrest : ClosesNoType rest) :
    ClosesNoType (row ++ rest) := by
  cases h with
  | literal htree => exact ClosesNoType.literal htree hrest
  | decimal hdot htree => exact ClosesNoType.sign hdot (by decide) (ClosesNoType.literal htree hrest)
  | name htree => exact ClosesNoType.word htree.word?_isSome hrest
  | parentheses hgroup => exact ClosesNoType.group hgroup hrest
  | «switch» hkeyword hselector hblock =>
      exact ClosesNoType.word (word?_isSome_of_isWord hkeyword)
        (ClosesNoType.group hselector (ClosesNoType.group hblock hrest))
  | creation hrow => exact hrow.closesNoType hrest
  | reference hannotations htype hfirst hsecond htypes hname =>
      simp only [List.append_assoc, List.cons_append]
      exact hannotations.passesAngles.closesNoType (htype.passesAngles.closesNoType
        (closesNoType_reference hfirst hsecond htypes hname hrest))
  | classLiteral htype _ hdot hname =>
      rw [List.append_assoc]
      exact htype.passesAngles.closesNoType (ClosesNoType.sign hdot (by decide)
        (ClosesNoType.word (word?_isSome_of_isWord hname) hrest))

theorem IsSuffix.closesNoType {last : Ending} (h : IsSuffix last ending row)
    (hrest : ClosesNoType rest) : ClosesNoType (row ++ rest) := by
  cases h with
  | call hgroup => exact ClosesNoType.group hgroup hrest
  | index hgroup => exact ClosesNoType.group hgroup hrest
  | member _ hdot htypes hname =>
      rw [List.cons_append, List.append_assoc]
      exact ClosesNoType.sign hdot (by decide)
        (htypes.passesAngles.closesNoType (ClosesNoType.word hname.word?_isSome hrest))
  | template _ hdot htree => exact ClosesNoType.sign hdot (by decide) (ClosesNoType.literal htree hrest)
  | creation _ hdot hrow => exact ClosesNoType.sign hdot (by decide) (hrow.closesNoType hrest)
  | reference hfirst hsecond htypes hname =>
      rw [List.cons_append, List.cons_append, List.append_assoc]
      exact closesNoType_reference hfirst hsecond htypes hname hrest
  | increment hchar hfirst hsecond =>
      have hne : ∀ char ∈ ['+', '-'], char ≠ '>' := by simp
      exact ClosesNoType.sign hfirst (hne _ hchar) (ClosesNoType.sign hsecond (hne _ hchar) hrest)
  | instanceOf hkeyword hpattern =>
      exact ClosesNoType.word (word?_isSome_of_isWord hkeyword) (hpattern.closesNoType hrest)

theorem IsLambdaHead.closesNoType (h : IsLambdaHead row) (hrest : ClosesNoType rest)
    (hgoes : goesOnType rest = false) : ClosesNoType (row ++ rest) := by
  obtain @⟨parameters, minus, greater, hparameters, hminus, hgreater⟩ := h
  have harrow : ClosesNoType (minus :: greater :: rest) :=
    ClosesNoType.sign hminus (by decide) (hrest.cons fun _ => hgoes)
  rcases hparameters with hword | hround
  · exact ClosesNoType.word hword.word?_isSome harrow
  · exact ClosesNoType.group hround harrow

/-- The closing angle brackets of an expression that open none of its own are operators. -/
theorem IsExpression.closesNoType (h : IsExpression ending row) (hrest : ClosesNoType rest) :
    ClosesNoType (row ++ rest) := by
  induction h generalizing rest with
  | operand hrow => exact hrow.closesNoType hrest
  | suffix _ hrow ih => exact List.append_assoc _ _ rest ▸ ih (hrow.closesNoType hrest)
  | cast hgroup _ ih => exact ClosesNoType.group hgroup (ih hrest)
  | unary hsign hchar _ ih =>
      have hne : ∀ char ∈ ['+', '-', '!', '~'], char ≠ '>' := by simp
      exact ClosesNoType.sign hsign (hne _ hchar) (ih hrest)
  | binary _ hoperator _ hright ihleft ihright =>
      have hgoes := (hright.endsTypeUse rest).goesOnType_eq
      simp only [List.append_assoc]
      exact ihleft (hoperator.closesNoType (ihright hrest) hgoes)
  | conditional _ hquestion _ hcolon _ ihcondition ihleft ihright =>
      simp only [List.append_assoc, List.cons_append]
      exact ihcondition (ClosesNoType.sign hquestion (by decide)
        (ihleft (ClosesNoType.sign hcolon (by decide) (ihright hrest))))
  | lambda hhead hbody ih =>
      have hgoes := (hbody.endsTypeUse rest).goesOnType_eq
      exact List.append_assoc _ _ rest ▸ hhead.closesNoType (ih hrest) hgoes
  | lambdaBlock hhead hbody =>
      have hgoes := (EndsTypeUse.of_isGroup hbody (by decide) rest).goesOnType_eq
      exact List.append_assoc _ _ rest ▸ hhead.closesNoType (ClosesNoType.group hbody hrest) hgoes

end Closing

end ComponentMarkers.Source
