import ComponentMarkers.Proofs.Source.Members

/-!
# Types, constants and statements in rows of trees

What holds bodies beside the members that end with one: a type, whose body is read in its turn, a
constant of an enum, and a statement at the top of a source, of which nothing is read.  Packages and
imports have no body; their rows are here since they stand among the statements.
-/

namespace ComponentMarkers.Source

open Source.Tree

section Types

variable {row rest : List Tree} {kind : ElementKind}

/-- The words that introduce a type, each with the kind of the type. -/
def typeKeywords : List (String × ElementKind) :=
  [("class", .classType), ("interface", .interface), ("enum", .enum),
    ("@interface", .annotationType), ("record", .record)]

/-- What the clauses of a type begin with: a class that is extended, or anything else. -/
inductive BeginsClauses : List Tree → Prop
  | plain {row : List Tree}
      (hrow : ∀ tree ∈ row.head?, tree.isSymbol '<' = false ∧ tree.isWord "extends" = false) :
      BeginsClauses row
  | extended {keyword : Tree} {annotations type rest : List Tree} (hkeyword : keyword.isWord "extends")
      (hannotations : AreAnnotations annotations) (htype : IsType type)
      (hrest : ∀ tree ∈ rest.head?, EndsClassType tree) :
      BeginsClauses (keyword :: (annotations ++ (type ++ rest)))

/-- A type of the given kind up to its body. -/
inductive IsTypeHead (kind : ElementKind) : List Tree → Prop
  | mk {modifiers parameters clauses : List Tree} {keyword name : Tree} {text : String}
      (hmodifiers : AreModifiers ("sealed" :: modifierWords) modifiers)
      (hkeyword : keyword.word? = some text) (htext : (text, kind) ∈ typeKeywords)
      (hname : name.word?.isSome) (hparameters : MayBeArguments parameters)
      (hrecord : kind = .record →
        ∃ tree ∈ (parameters ++ clauses).head?, tree.isSymbol '<' || tree.isGroup .round)
      (hclauses : ∀ tree ∈ clauses, isClausePart tree) (hbegin : BeginsClauses clauses) :
      IsTypeHead kind (modifiers ++ keyword :: name :: (parameters ++ clauses))

theorem typeKind?_of_mem
    {keyword name : Tree} {text : String} (hkeyword : keyword.word? = some text)
    (htext : (text, kind) ∈ typeKeywords) (hname : name.word?.isSome)
    (hrecord : kind = .record → ∃ tree ∈ rest.head?, tree.isSymbol '<' || tree.isGroup .round) :
    typeKind? (keyword :: name :: rest) = some kind := by
  have hnone : name.word?.isNone = false := by
    rw [Option.isNone_eq_false_iff]
    exact hname
  unfold typeKind?
  dsimp only
  rw [hkeyword, hnone, if_neg Bool.false_ne_true]
  simp only [typeKeywords, List.mem_cons, Prod.mk.injEq, List.not_mem_nil, or_false] at htext
  rcases htext with ⟨rfl, rfl⟩ | ⟨rfl, rfl⟩ | ⟨rfl, rfl⟩ | ⟨rfl, rfl⟩ | ⟨rfl, rfl⟩
  · rfl
  · rfl
  · rfl
  · rfl
  · obtain ⟨tree, htree, hnext⟩ := hrecord rfl
    cases rest with
    | nil => cases htree
    | cons next more =>
        obtain rfl := Option.some.inj htree
        exact if_pos hnext

theorem endsClassType_of_curly (opening : Token) (inner : List Tree) (closing : Option Token) :
    EndsClassType (.group .curly opening inner closing) :=
  ⟨rfl, rfl, rfl, rfl⟩

theorem BeginsClauses.afterTypeArguments
    (h : BeginsClauses row) {body : Tree} (hbody : EndsClassType body) (rest : List Tree) :
    Source.afterTypeArguments (row ++ body :: rest) = row ++ body :: rest := by
  cases h with
  | @plain row hrow =>
      cases row with
      | nil => exact afterTypeArguments_of_not_angle hbody.not_angle rest
      | cons tree more => exact afterTypeArguments_of_not_angle (hrow tree rfl).1 _
  | extended hkeyword => exact afterTypeArguments_of_word (word?_isSome_of_isWord hkeyword) _

/-- The class that is extended is named before the body. -/
theorem BeginsClauses.exists_extendsClause? (h : BeginsClauses row) :
    ∃ clause, ∀ body rest, EndsClassType body → body.word? = none →
      extendsClause? (row ++ body :: rest) = clause := by
  cases h with
  | plain hrow =>
      refine ⟨none, fun body rest _ hbody => ?_⟩
      have hhead : ∀ keyword more, keyword.isWord "extends" = false →
          extendsClause? (keyword :: more) = none := by
        intro keyword more hkeyword
        cases more with
        | nil => rfl
        | cons next others =>
            rw [extendsClause?, hkeyword]
            rfl
      cases row with
      | nil =>
          refine hhead body rest ?_
          rw [Tree.isWord, hbody]
          rfl
      | cons tree more => exact hhead tree _ (hrow tree rfl).2
  | @extended keyword annotations type more hkeyword hannotations htype hmore =>
      obtain ⟨read, hread⟩ := htype.exists_typeReference? hannotations
      obtain ⟨first, others, hfirst⟩ : ∃ first others, annotations ++ type = first :: others := by
        obtain ⟨word, tail, rfl, -⟩ := htype.exists_eq_cons
        exact List.exists_cons_of_ne_nil (List.append_ne_nil_of_right_ne_nil _ (List.cons_ne_nil _ _))
      refine ⟨some (if first.first.before.isEmpty then .type read else .comment),
        fun body rest hbody _ => ?_⟩
      have hends : EndsType (more ++ body :: rest) := by
        cases more with
        | nil => exact hbody.endsType rest
        | cons tree tail => exact (hmore tree rfl).endsType _
      have htrees : annotations ++ (type ++ (more ++ body :: rest)) =
          first :: (others ++ (more ++ body :: rest)) := by
        rw [← List.append_assoc, hfirst, List.cons_append]
      have htype := hread _ hends
      rw [htrees] at htype
      have hrow : keyword :: (annotations ++ (type ++ more)) ++ body :: rest =
          keyword :: first :: (others ++ (more ++ body :: rest)) := by
        rw [← htrees]
        simp only [List.cons_append, List.append_assoc]
      rw [hrow, extendsClause?, if_pos hkeyword, htype]
      split
      · rfl
      · rfl

/-- A type is read from the trees before its body, as a member and at the top of a source. -/
theorem IsTypeHead.exists_reads (h : IsTypeHead kind row) :
    ∃ name names superclass, ∀ opening inner closing rest,
      nextMembers (row ++ .group .curly opening inner closing :: rest) =
          ([.type ⟨kind, name, names, superclass, inner⟩], rest) ∧
        item? (row ++ .group .curly opening inner closing :: rest) =
          some (.type ⟨kind, name, names, superclass, inner⟩, rest) := by
  obtain @⟨_, parameters, clauses, keyword, name, text, hmodifiers, hkeyword, htext, hname,
    hparameters, hrecord, hclauses, hbegin⟩ := h
  obtain ⟨names, hnames⟩ := hmodifiers.exists_modifiers fun _ hmem => hmem
  obtain ⟨superclass, hsuper⟩ := hbegin.exists_extendsClause?
  refine ⟨name.word?.getD "", names, if kind = .classType then superclass else none,
    fun opening inner closing rest => ?_⟩
  let body : Tree := .group .curly opening inner closing
  have hwords : ∀ entry ∈ typeKeywords, entry.1 ∉ modifierWords ∧ entry.1 ∉ operatorWords ∧
      entry.1 ∉ ["sealed", "package", "import"] := by
    decide
  obtain ⟨hmodifier, hoperator, hother⟩ := hwords _ htext
  simp only [List.mem_cons, List.not_mem_nil, or_false, not_or] at hother
  obtain ⟨hsealed, hpackage, himport⟩ := hother
  have hends : EndsModifiers ("sealed" :: modifierWords) keyword
      (name :: (parameters ++ clauses ++ body :: rest)) :=
    ⟨endsAnnotations_of_word? (Option.isSome_of_eq_some hkeyword),
      isModifier_eq_false hkeyword hmodifier fun hsame => absurd hsame hsealed,
      fun _ => IsNameWord.ne_instanceof ⟨text, hkeyword, hoperator⟩⟩
  have hkind : typeKind? (keyword :: name :: (parameters ++ clauses ++ body :: rest)) = some kind := by
    refine typeKind?_of_mem hkeyword htext hname fun hsame => ?_
    obtain ⟨tree, htree, hnext⟩ := hrecord hsame
    refine ⟨tree, ?_, hnext⟩
    rw [List.head?_append, htree]
    rfl
  have hafter : afterTypeArguments (parameters ++ clauses ++ body :: rest) =
      clauses ++ body :: rest := by
    rw [List.append_assoc]
    exact afterTypeArguments_append hparameters
      (hbegin.afterTypeArguments (endsClassType_of_curly opening inner closing) rest)
  have hhead : typeHead? names (keyword :: name :: (parameters ++ clauses ++ body :: rest)) =
      some (⟨kind, name.word?.getD "", names, if kind = .classType then superclass else none, inner⟩,
        rest) := by
    unfold typeHead?
    rw [hkind]
    dsimp only
    rw [hafter, body?_of_isClausePart hclauses, hsuper body rest
      (endsClassType_of_curly opening inner closing) rfl]
    rfl
  have hmodifiers := hnames _ _ hends
  have hnot : ∀ word, text ≠ word → keyword.isWord word = false := by
    intro word hne
    rw [Tree.isWord, hkeyword]
    exact beq_eq_false_iff_ne.2 (mt Option.some.inj hne)
  rw [List.append_assoc, List.cons_append, List.cons_append]
  refine ⟨nextMembers_of_typeHead? hmodifiers hhead, ?_⟩
  rw [item?_eq_map_typeHead? hmodifiers (packageItem?_of_not_word (hnot _ hpackage) _ _)
    (importItem?_of_not_word (hnot _ himport) _), hhead]
  rfl

end Types

section Constants

variable {row rest : List Tree}

/-- A constant of an enum up to its name. -/
inductive IsConstantHead : List Tree → Prop
  | mk {modifiers : List Tree} {name : Tree}
      (hmodifiers : AreModifiers ("sealed" :: modifierWords) modifiers) (hname : IsDeclaredName name) :
      IsConstantHead (modifiers ++ [name])

/-- The arguments and the body of a constant, each of them there or not. -/
inductive IsConstantEnd : List Tree → Prop
  | mk {arguments body : List Tree}
      (harguments : arguments = [] ∨ ∃ group, group.isGroup .round ∧ arguments = [group])
      (hbody : body = [] ∨ ∃ group, group.isGroup .curly ∧ body = [group]) :
      IsConstantEnd (arguments ++ body)

/-- After a constant comes a comma, a semicolon or nothing. -/
def EndsConstant (rest : List Tree) : Prop :=
  ∀ tree ∈ rest.head?, tree.isSymbol ',' || tree.isSymbol ';'

theorem not_word_of_end {mark : Tree} (h : mark.isSymbol ',' || mark.isSymbol ';') :
    mark.isSymbol '@' = false ∧ mark.word? = none := by
  rcases Bool.or_eq_true_iff.1 h with h | h
  · exact ⟨isSymbol_eq_false h (by decide), word?_of_isSymbol h⟩
  · exact ⟨isSymbol_eq_false h (by decide), word?_of_isSymbol h⟩

theorem not_group_of_end
    {mark : Tree} (h : mark.isSymbol ',' || mark.isSymbol ';') (bracket : Bracket) :
    mark.isGroup bracket = false := by
  rcases Bool.or_eq_true_iff.1 h with h | h
  · obtain ⟨before, rfl⟩ := exists_leaf_of_isSymbol h
    rfl
  · obtain ⟨before, rfl⟩ := exists_leaf_of_isSymbol h
    rfl

/-- The arguments and the body of a constant are passed over. -/
theorem IsConstantEnd.afterConstant (h : IsConstantEnd row) (hrest : EndsConstant rest) :
    Source.afterConstant (row ++ rest) = rest := by
  obtain @⟨arguments, body, harguments, hbody⟩ := h
  have hnone : afterArguments rest = rest ∧ Source.afterConstant rest = rest := by
    cases rest with
    | nil => exact ⟨rfl, rfl⟩
    | cons mark more =>
        have hgroup := not_group_of_end (hrest mark rfl)
        have harguments : afterArguments (mark :: more) = mark :: more := by
          rw [afterArguments, hgroup]
          rfl
        refine ⟨harguments, ?_⟩
        rw [Source.afterConstant, harguments]
        dsimp only
        rw [hgroup]
        rfl
  have hafter : afterArguments (arguments ++ (body ++ rest)) = body ++ rest := by
    rcases harguments with rfl | ⟨group, hgroup, rfl⟩
    · rcases hbody with rfl | ⟨group, hgroup, rfl⟩
      · exact hnone.1
      · obtain ⟨opening, inner, closing, rfl⟩ := exists_group_of_isGroup hgroup
        rfl
    · rw [List.singleton_append, afterArguments, if_pos hgroup]
  rw [List.append_assoc, Source.afterConstant, hafter]
  rcases hbody with rfl | ⟨group, hgroup, rfl⟩
  · have hsame := hnone.2
    rw [Source.afterConstant, hnone.1] at hsame
    exact hsame
  · rw [List.singleton_append]
    dsimp only
    rw [if_pos hgroup]

theorem constants_nil : constants [] = ([], []) := by
  rw [constants_eq, modifiers_nil]

theorem constants_of_comma {mark : Tree} (h : mark.isSymbol ',') (rest : List Tree) :
    constants (mark :: rest) = constants rest := by
  obtain ⟨before, rfl⟩ := exists_leaf_of_isSymbol h
  have hmodifiers : modifiers (.leaf ⟨before, .symbol ','⟩ :: rest) =
      ([], .leaf ⟨before, .symbol ','⟩ :: rest) := modifiers_of_cons rfl
  rw [constants_eq, hmodifiers]
  rfl

theorem constants_of_semicolon {mark : Tree} (h : mark.isSymbol ';') (rest : List Tree) :
    constants (mark :: rest) = ([], mark :: rest) := by
  obtain ⟨before, rfl⟩ := exists_leaf_of_isSymbol h
  have hmodifiers : modifiers (.leaf ⟨before, .symbol ';'⟩ :: rest) =
      ([], .leaf ⟨before, .symbol ';'⟩ :: rest) := modifiers_of_cons rfl
  rw [constants_eq, hmodifiers]
  rfl

/-- A constant is read from the trees before its arguments. -/
theorem IsConstantHead.exists_constants (h : IsConstantHead row) :
    ∃ name names, ∀ ending rest, IsConstantEnd ending → EndsConstant rest →
      constants (row ++ (ending ++ rest)) =
        (.constant names name :: (constants rest).1, (constants rest).2) := by
  obtain @⟨_, name, hmodifiers, hname⟩ := h
  obtain ⟨names, hnames⟩ := hmodifiers.exists_modifiers fun _ hmem => hmem
  have hname' := hname
  obtain ⟨text, htext, -⟩ := hname'
  refine ⟨text, names, fun ending rest hending hrest => ?_⟩
  have hends : EndsModifiers ("sealed" :: modifierWords) name (ending ++ rest) := by
    refine hname.endsModifiers fun tree htree => ?_
    obtain ⟨harguments, hbody⟩ := hending
    rcases harguments with rfl | ⟨group, hgroup, rfl⟩
    · rcases hbody with rfl | ⟨group, hgroup, rfl⟩
      · exact not_word_of_end (hrest tree htree)
      · obtain rfl := Option.some.inj htree
        exact not_word_of_isGroup hgroup
    · obtain rfl := Option.some.inj htree
      exact not_word_of_isGroup hgroup
  rw [List.append_assoc, List.singleton_append, constants_eq, hnames _ _ hends]
  dsimp only
  rw [htext]
  dsimp only
  rw [hending.afterConstant hrest]
  cases rest with
  | nil => rw [constants_nil]
  | cons mark more =>
      dsimp only
      by_cases hcomma : mark.isSymbol ','
      · rw [if_pos hcomma, constants_of_comma hcomma]
      · have hsemicolon := (Bool.or_eq_true_iff.1 (hrest mark rfl)).resolve_left hcomma
        rw [if_neg hcomma, constants_of_semicolon hsemicolon]

end Constants

section Statements

variable {row rest : List Tree} {mark : Tree}

/-- A statement at the top that declares nothing, up to its end.  Where a declaration seems to begin in
it the statement goes on. -/
structure IsStatement (row : List Tree) : Prop where
  parts : ∀ tree ∈ row, isClausePart tree
  declares_nothing : startsItem (modifiers row).2 = false
  goes_on : ∀ before previous after, row = before ++ previous :: after → startsItem after →
    goesOn previous

/-- No name goes on with the tree, and no annotation. -/
structure EndsStatement (mark : Tree) : Prop where
  isEnd : mark.isSymbol ';' || mark.isGroup .curly
  not_word : mark.word? = none
  not_at : mark.isSymbol '@' = false
  not_dot : mark.isSymbol '.' = false
  not_angle : mark.isSymbol '<' = false
  not_round : mark.isGroup .round = false

theorem endsStatement (h : mark.isSymbol ';' || mark.isGroup .curly) : EndsStatement mark := by
  rcases Bool.or_eq_true_iff.1 h with hmark | hbody
  · obtain ⟨before, rfl⟩ := exists_leaf_of_isSymbol hmark
    exact ⟨h, rfl, rfl, rfl, rfl, rfl⟩
  · obtain ⟨opening, inner, closing, rfl⟩ := exists_group_of_isGroup hbody
    exact ⟨h, rfl, rfl, rfl, rfl, rfl⟩

theorem EndsStatement.isWord (h : EndsStatement mark) (text : String) : mark.isWord text = false := by
  rw [Tree.isWord, h.not_word]
  rfl

theorem EndsStatement.moreSegments_append (h : EndsStatement mark) (row rest : List Tree) :
    moreSegments (row ++ mark :: rest) =
      ((moreSegments row).1, (moreSegments row).2 ++ mark :: rest) := by
  fun_induction moreSegments row with
  | case1 dot segment more hmore _ _ hread ih =>
      rw [List.cons_append, List.cons_append, moreSegments, if_pos hmore, ih, hread]
  | case2 dot segment more hmore =>
      rw [List.cons_append, List.cons_append, moreSegments, if_neg hmore]
  | case3 row hshort =>
      refine moreSegments_of_not_startsSegment ?_
      cases row with
      | nil =>
          cases rest with
          | nil => rfl
          | cons next others => simp only [List.nil_append, startsSegment, h.not_dot, Bool.false_and]
      | cons dot more =>
          cases more with
          | nil => simp [startsSegment, h.not_word]
          | cons segment others => exact absurd rfl (hshort dot segment others)

theorem EndsStatement.dottedName?_append (h : EndsStatement mark) (row rest : List Tree) :
    dottedName? (row ++ mark :: rest) =
      (dottedName? row).map fun (name, after) => (name, after ++ mark :: rest) := by
  cases row with
  | nil =>
      have hnone : dottedName? (mark :: rest) = none := by rw [dottedName?, h.not_word]
      exact hnone
  | cons tree more =>
      rw [List.cons_append, dottedName?, dottedName?, h.moreSegments_append]
      cases tree.word? with
      | none => rfl
      | some word => rfl

theorem EndsStatement.annotation?_append (h : EndsStatement mark) (row rest : List Tree) :
    annotation? (row ++ mark :: rest) =
      ( annotation? row).map fun (node, after) => (node, after ++ mark :: rest) := by
  have harguments : ∀ after : List Tree,
      afterArguments (after ++ mark :: rest) = afterArguments after ++ mark :: rest := by
    intro after
    cases after with
    | nil =>
        have hnone : afterArguments (mark :: rest) = mark :: rest := by
          rw [afterArguments, h.not_round]
          rfl
        exact hnone
    | cons tree more =>
        rw [List.cons_append, afterArguments, afterArguments]
        split
        · rfl
        · rfl
  cases row with
  | nil =>
      rw [List.nil_append, annotation?_of_not_at h.not_at]
      rfl
  | cons tree more =>
      rw [List.cons_append, annotation?, annotation?, h.dottedName?_append]
      split
      · rw [Option.map_map, Option.map_map]
        congr 1
        funext found
        exact congrArg (Prod.mk (AnnotationNode.mk found.1)) (harguments found.2)
      · rfl

theorem EndsStatement.isModifier_eq (h : EndsStatement mark) (rest : List Tree) :
    isModifier (mark :: rest) = false := by
  rw [isModifier.eq_def]
  dsimp only
  rw [h.not_word]

theorem EndsStatement.isModifier_append (h : EndsStatement mark) (row rest : List Tree) :
    isModifier (row ++ mark :: rest) = isModifier row := by
  cases row with
  | nil => exact h.isModifier_eq rest
  | cons tree more =>
      rw [List.cons_append, isModifier.eq_def, isModifier.eq_def (tree :: more)]
      dsimp only
      cases more with
      | nil =>
          rw [List.nil_append]
          dsimp only
          rw [h.not_at, h.not_word]
          rfl
      | cons next others => rfl

/-- Modifiers are read to the end of the statement at most. -/
theorem EndsStatement.modifiers_append (h : EndsStatement mark) (row rest : List Tree) :
    modifiers (row ++ mark :: rest) = ((modifiers row).1, (modifiers row).2 ++ mark :: rest) := by
  fun_induction modifiers row with
  | case1 row name after hread _ names others hmore ih =>
      have happend := h.annotation?_append row rest
      rw [hread, Option.map_some] at happend
      rw [modifiers_of_annotation? happend, ih, hmore]
  | case2 hread =>
      have hnone := annotation?_of_not_at h.not_at rest
      rw [List.nil_append, modifiers_of_cons hnone, h.isModifier_eq]
      rfl
  | case3 tree more hread hmodifier ih =>
      have happend := h.annotation?_append (tree :: more) rest
      rw [hread, Option.map_none] at happend
      rw [List.cons_append] at happend ⊢
      rw [modifiers_of_cons happend, ← List.cons_append, h.isModifier_append, if_pos hmodifier, ih]
  | case4 tree more hread hmodifier =>
      have happend := h.annotation?_append (tree :: more) rest
      rw [hread, Option.map_none] at happend
      rw [List.cons_append] at happend ⊢
      rw [modifiers_of_cons happend, ← List.cons_append, h.isModifier_append, if_neg hmodifier]

theorem EndsStatement.typeKind?_append (h : EndsStatement mark) (row rest : List Tree) :
    typeKind? (row ++ mark :: rest) = typeKind? row := by
  cases row with
  | nil => exact typeKind?_of_not_word h.not_word rest
  | cons keyword more =>
      cases more with
      | nil => exact typeKind?_of_not_name h.not_word rest
      | cons name others =>
          cases others with
          | cons next others => rfl
          | nil =>
              have hnext : (mark.isSymbol '<' || mark.isGroup .round) = false := by
                rw [h.not_angle, h.not_round]
                rfl
              simp only [List.cons_append, List.nil_append, typeKind?, hnext]
              rfl

theorem EndsStatement.startsItem_append (h : EndsStatement mark) (row rest : List Tree) :
    startsItem (row ++ mark :: rest) = startsItem row := by
  cases row with
  | nil =>
      cases rest with
      | nil => rfl
      | cons next others =>
          simp only [List.nil_append, startsItem, typeKind?_of_not_word h.not_word, h.isWord]
          rfl
  | cons keyword more =>
      cases more with
      | nil => simp [startsItem, typeKind?_of_not_name h.not_word, h.not_word]
      | cons name others =>
          have hkind := h.typeKind?_append (keyword :: name :: others) rest
          simp only [List.cons_append] at hkind
          simp only [List.cons_append, startsItem, hkind]

/-- Where no declaration begins, no name comes after a package's or an import's keyword. -/
theorem EndsStatement.dottedName?_eq_none
    (h : EndsStatement mark) {keyword : Tree} {others : List Tree}
    (hkeyword : keyword.isWord "package" || keyword.isWord "import")
    (hrow : startsItem (keyword :: others) = false) (rest : List Tree) :
    dottedName? (others ++ mark :: rest) = none ∧
      ((others ++ mark :: rest).head?.any fun tree => tree.isWord "static") = false := by
  cases others with
  | nil =>
      have hnone : dottedName? (mark :: rest) = none := by rw [dottedName?, h.not_word]
      exact ⟨hnone, h.isWord _⟩
  | cons name tail =>
      rw [startsItem, Bool.or_eq_false_iff, hkeyword, Bool.true_and] at hrow
      have hname : name.word? = none :=
        Option.isNone_iff_eq_none.1 (Option.isSome_eq_false_iff.1 hrow.2)
      have hnone : dottedName? (name :: (tail ++ mark :: rest)) = none := by
        rw [dottedName?, hname]
      refine ⟨hnone, ?_⟩
      rw [List.cons_append, List.head?_cons, Option.any_some, Tree.isWord, hname]
      rfl

theorem EndsStatement.packageItem?_eq_none
    (h : EndsStatement mark) (hrow : startsItem row = false) (names : List AnnotationNode)
    (rest : List Tree) : packageItem? names (row ++ mark :: rest) = none := by
  cases row with
  | nil => exact packageItem?_of_not_word (h.isWord _) names rest
  | cons keyword others =>
      rw [List.cons_append, packageItem?]
      split
      · rename_i hkeyword
        have hdotted := h.dottedName?_eq_none (by rw [hkeyword, Bool.true_or]) hrow rest
        rw [hdotted.1, Option.map_none]
      · rfl

theorem EndsStatement.importItem?_eq_none
    (h : EndsStatement mark) (hrow : startsItem row = false) (rest : List Tree) :
    importItem? (row ++ mark :: rest) = none := by
  cases row with
  | nil => exact importItem?_of_not_word (h.isWord _) rest
  | cons keyword others =>
      rw [List.cons_append, importItem?]
      split
      · rename_i hkeyword
        have hdotted := h.dottedName?_eq_none (by rw [hkeyword, Bool.or_true]) hrow rest
        dsimp only
        rw [hdotted.2, if_neg Bool.false_ne_true, hdotted.1, Option.map_none]
      · rfl

theorem typeKind?_of_startsItem_eq_false (hrow : startsItem row = false) : typeKind? row = none := by
  cases row with
  | nil => rfl
  | cons keyword others =>
      cases others with
      | nil => rfl
      | cons name tail =>
          rw [startsItem, Bool.or_eq_false_iff] at hrow
          exact Option.isNone_iff_eq_none.1 (Option.isSome_eq_false_iff.1 hrow.1)

/-- Where no declaration begins after the modifiers, none is read. -/
theorem EndsStatement.item?_eq_none
    (h : EndsStatement mark) (hrow : startsItem (modifiers row).2 = false) (rest : List Tree) :
    item? (row ++ mark :: rest) = none := by
  have htype := (h.typeKind?_append (modifiers row).2 rest).trans
    (typeKind?_of_startsItem_eq_false hrow)
  rw [item?_eq_map_typeHead? (h.modifiers_append row rest) (h.packageItem?_eq_none hrow _ rest)
    (h.importItem?_eq_none hrow rest), typeHead?_of_typeKind? htype, Option.map_none]

theorem afterStatement_append
    (hmark : mark.isSymbol ';' || mark.isGroup .curly) (previous : Tree) (rest : List Tree)
    (hparts : ∀ tree ∈ row, isClausePart tree)
    (hgoes : ∀ before last after, previous :: row = before ++ last :: after → startsItem after →
      goesOn last) : afterStatement previous (row ++ mark :: rest) = rest := by
  induction row generalizing previous with
  | nil => rw [List.nil_append, afterStatement, if_pos hmark]
  | cons tree others ih =>
      obtain ⟨hself, hothers⟩ := List.forall_mem_cons.1 hparts
      rw [isClausePart, Bool.not_eq_true', Bool.or_comm] at hself
      have hstart : (!goesOn previous && startsItem (tree :: (others ++ mark :: rest))) = false := by
        rw [← List.cons_append, (endsStatement hmark).startsItem_append]
        cases hstarts : startsItem (tree :: others) with
        | false => exact Bool.and_false _
        | true => rw [hgoes [] previous (tree :: others) rfl hstarts]; rfl
      rw [List.cons_append, afterStatement, hself, if_neg Bool.false_ne_true, hstart,
        if_neg Bool.false_ne_true]
      refine ih tree hothers fun before last after hrow => ?_
      exact hgoes (previous :: before) last after (by rw [hrow, List.cons_append])

/-- A statement is passed over to its end. -/
theorem IsStatement.items (h : IsStatement row) (hmark : mark.isSymbol ';' || mark.isGroup .curly)
    (rest : List Tree) : Source.items (row ++ mark :: rest) = Source.items rest := by
  have hnone := (endsStatement hmark).item?_eq_none h.declares_nothing rest
  cases row with
  | nil =>
      rw [List.nil_append] at hnone ⊢
      rw [items_cons, hnone]
      dsimp only
      rw [if_pos hmark]
  | cons tree others =>
      obtain ⟨hself, hothers⟩ := List.forall_mem_cons.1 h.parts
      rw [isClausePart, Bool.not_eq_true', Bool.or_comm] at hself
      have hafter := afterStatement_append hmark tree rest hothers h.goes_on
      rw [List.cons_append] at hnone ⊢
      rw [items_cons, hnone]
      dsimp only
      rw [hself, if_neg Bool.false_ne_true, hafter]

end Statements

section Headings

variable {row rest : List Tree}

/-- The dot and star of an import on demand, or nothing. -/
inductive IsStar : List Tree → Prop
  | nothing : IsStar []
  | star {dot star : Tree} (hdot : dot.isSymbol '.') (hstar : star.isSymbol '*') : IsStar [dot, star]

/-- The declaration of a package, or an import. -/
inductive IsHeading : List Tree → Prop
  | package {modifiers name : List Tree} {keyword mark : Tree}
      (hmodifiers : AreModifiers modifierWords modifiers) (hkeyword : keyword.isWord "package")
      (hname : IsDottedName name) (hmark : mark.isSymbol ';') :
      IsHeading (modifiers ++ keyword :: (name ++ [mark]))
  | import {keyword mark : Tree} {modifier name star : List Tree} (hkeyword : keyword.isWord "import")
      (hmodifier : modifier = [] ∨ ∃ word, word.isWord "static" ∧ modifier = [word])
      (hname : IsDottedName name) (hplain : ∀ word ∈ name.head?, word.isWord "static" = false)
      (hstar : IsStar star) (hmark : mark.isSymbol ';') :
      IsHeading (keyword :: (modifier ++ (name ++ (star ++ [mark]))))

theorem endsModifiers_of_isWord
    {keyword : Tree} {text : String} (hkeyword : keyword.isWord text)
    (htext : text ∉ "sealed" :: modifierWords) (hoperator : text ∉ operatorWords)
    {words : List String} (rest : List Tree) : EndsModifiers words keyword rest := by
  rw [List.mem_cons, not_or] at htext
  exact ⟨endsAnnotations_of_word? (word?_isSome_of_isWord hkeyword),
    isModifier_eq_false (eq_of_beq hkeyword) htext.2 fun hsame => absurd hsame htext.1,
    fun _ => IsNameWord.ne_instanceof ⟨text, eq_of_beq hkeyword, hoperator⟩⟩

/-- A package and an import are read alone. -/
theorem IsHeading.exists_item? (h : IsHeading row) :
    ∃ item, item.head? = none ∧ ∀ rest, item? (row ++ rest) = some (item, rest) := by
  cases h with
  | @package _ name keyword mark hmodifiers hkeyword hname hmark =>
      obtain ⟨names, hnames⟩ := hmodifiers.exists_modifiers fun _ hmem => List.mem_cons_of_mem _ hmem
      obtain ⟨text, hread⟩ := hname.exists_dottedName?
      refine ⟨.package ⟨names, text⟩, rfl, fun rest => ?_⟩
      have hsegment : startsSegment (mark :: rest) = false := by
        obtain ⟨before, rfl⟩ := exists_leaf_of_isSymbol hmark
        cases rest <;> rfl
      simp only [List.append_assoc, List.cons_append, List.nil_append]
      apply item?_of_packageItem?
        (hnames _ _ (endsModifiers_of_isWord hkeyword (by decide) (by decide) _))
      rw [packageItem?, if_pos hkeyword, hread _ hsegment, Option.map_some]
      dsimp only
      rw [afterEnd, if_pos hmark]
  | @«import» keyword mark modifier name star hkeyword hmodifier hname hplain hstar hmark =>
      obtain ⟨text, hread⟩ := hname.exists_dottedName?
      refine ⟨.import ⟨text, !star.isEmpty, !modifier.isEmpty⟩, rfl, fun rest => ?_⟩
      have hpackage : keyword.isWord "package" = false := by
        rw [Tree.isWord, show keyword.word? = some "import" from eq_of_beq hkeyword]
        rfl
      have hends : EndsModifiers modifierWords keyword
          (modifier ++ (name ++ (star ++ mark :: rest))) :=
        endsModifiers_of_isWord hkeyword (by decide) (by decide) _
      have hmodifiers : modifiers (keyword :: (modifier ++ (name ++ (star ++ mark :: rest)))) =
          ([], keyword :: (modifier ++ (name ++ (star ++ mark :: rest)))) := by
        have hnone := annotation?_of_not_at hends.not_at (modifier ++ (name ++ (star ++ mark :: rest)))
        rw [modifiers_of_cons hnone, hends.not_modifier]
        rfl
      obtain @⟨word, segments, hword, hsegments⟩ := hname
      have hstatic : ((modifier ++ (word :: segments ++ (star ++ mark :: rest))).head?.any
            fun tree => tree.isWord "static") = !modifier.isEmpty ∧
          (if !modifier.isEmpty then (modifier ++ (word :: segments ++ (star ++ mark :: rest))).tail
            else modifier ++ (word :: segments ++ (star ++ mark :: rest))) =
              word :: segments ++ (star ++ mark :: rest) := by
        rcases hmodifier with rfl | ⟨static, hstatic, rfl⟩
        · exact ⟨hplain word rfl, rfl⟩
        · exact ⟨hstatic, rfl⟩
      obtain ⟨before, rfl⟩ := exists_leaf_of_isSymbol hmark
      have hending : startsSegment (star ++ .leaf ⟨before, .symbol ';'⟩ :: rest) = false ∧
          (afterStar? (star ++ .leaf ⟨before, .symbol ';'⟩ :: rest)).isSome = !star.isEmpty ∧
          afterEnd ((afterStar? (star ++ .leaf ⟨before, .symbol ';'⟩ :: rest)).getD
            (star ++ .leaf ⟨before, .symbol ';'⟩ :: rest)) = rest := by
        cases hstar with
        | nothing => cases rest <;> exact ⟨rfl, rfl, rfl⟩
        | star hdot hstar =>
            obtain ⟨blank, rfl⟩ := exists_leaf_of_isSymbol hdot
            obtain ⟨other, rfl⟩ := exists_leaf_of_isSymbol hstar
            exact ⟨rfl, rfl, rfl⟩
      simp only [List.append_assoc, List.cons_append, List.nil_append] at hmodifiers hstatic hread ⊢
      apply item?_of_importItem? hmodifiers (packageItem?_of_not_word hpackage _ _)
      rw [importItem?, if_pos hkeyword]
      dsimp only
      rw [hstatic.1, hstatic.2, hread _ hending.1, Option.map_some]
      dsimp only
      rw [hending.2.1, hending.2.2]

end Headings

end ComponentMarkers.Source
