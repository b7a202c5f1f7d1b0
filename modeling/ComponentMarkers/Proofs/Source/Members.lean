import ComponentMarkers.Proofs.Source.Bodies
import ComponentMarkers.Proofs.Source.Values

/-!
# Members in rows of trees

The rows of trees that are members of a type, with any trees in brackets.  A member is read whole, and
what is read of it comes from the trees before its body or its value, but for the default of an
element.
-/

namespace ComponentMarkers.Source

open Source.Tree

section Rows

variable {row rest : List Tree}

/-- The word names what is declared. -/
def IsDeclaredName (tree : Tree) : Prop :=
  ∃ text, tree.word? = some text ∧ text ∉ operatorWords ∧ text ∉ modifierWords

/-- What stands before the name of a field or method: modifiers, type parameters perhaps, and a type. -/
inductive IsTyped : List Tree → Prop
  | plain {modifiers type : List Tree} (hmodifiers : AreModifiers ("sealed" :: modifierWords) modifiers)
      (htype : IsType type) (hhead : BeginsPlainly type) : IsTyped (modifiers ++ type)
  | generic {modifiers parameters annotations type : List Tree}
      (hmodifiers : AreModifiers modifierWords modifiers) (hparameters : AreArguments parameters)
      (hannotations : AreAnnotations annotations) (htype : IsType type) :
      IsTyped (modifiers ++ (parameters ++ (annotations ++ type)))

/-- Types with commas between them. -/
inductive AreTypes : List Tree → Prop
  | last {annotations type : List Tree} (hannotations : AreAnnotations annotations)
      (htype : IsType type) : AreTypes (annotations ++ type)
  | cons {annotations type rest : List Tree} {comma : Tree} (hannotations : AreAnnotations annotations)
      (htype : IsType type) (hcomma : comma.isSymbol ',') (hrest : AreTypes rest) :
      AreTypes (annotations ++ (type ++ comma :: rest))

/-- A `throws` clause, or nothing. -/
inductive IsThrowsClause : List Tree → Prop
  | nothing : IsThrowsClause []
  | types {keyword : Tree} {row : List Tree} (hkeyword : keyword.isWord "throws")
      (htypes : AreTypes row) : IsThrowsClause (keyword :: row)

/-- A method up to its parameters and the dimensions after them. -/
inductive IsMethodHead : List Tree → Prop
  | mk {typed dimensions : List Tree} {name parameters : Tree} (htyped : IsTyped typed)
      (hname : IsNameWord name) (hparameters : parameters.isGroup .round)
      (hdimensions : AreDimensions dimensions) :
      IsMethodHead (typed ++ name :: parameters :: dimensions)

/-- A constructor up to its body.  That of a record may go without parameters. -/
inductive IsConstructorHead : List Tree → Prop
  | plain {modifiers throws : List Tree} {name parameters : Tree}
      (hmodifiers : AreModifiers ("sealed" :: modifierWords) modifiers) (hname : IsDeclaredName name)
      (hparameters : parameters.isGroup .round) (hthrows : ∀ tree ∈ throws, isClausePart tree) :
      IsConstructorHead (modifiers ++ name :: parameters :: throws)
  | generic {modifiers types throws : List Tree} {name parameters : Tree}
      (hmodifiers : AreModifiers modifierWords modifiers) (htypes : AreArguments types)
      (hname : IsDeclaredName name) (hparameters : parameters.isGroup .round)
      (hthrows : ∀ tree ∈ throws, isClausePart tree) :
      IsConstructorHead (modifiers ++ (types ++ name :: parameters :: throws))
  | compact {modifiers : List Tree} {name : Tree}
      (hmodifiers : AreModifiers ("sealed" :: modifierWords) modifiers) (hname : IsDeclaredName name) :
      IsConstructorHead (modifiers ++ [name])

/-- What may stand before a body among members: the head of a method or of a constructor, or the
modifiers of an initializer. -/
inductive IsBodyHead : List Tree → Prop
  | method {head throws : List Tree} (hhead : IsMethodHead head) (hthrows : IsThrowsClause throws) :
      IsBodyHead (head ++ throws)
  | constructor {row : List Tree} (hrow : IsConstructorHead row) : IsBodyHead row
  | initializer {row : List Tree} (hrow : AreModifiers modifierWords row) : IsBodyHead row

end Rows

section Readers

variable {names : List AnnotationNode} {row rest : List Tree}

theorem typeKind?_of_word {keyword : Tree} {text : String} (hword : keyword.word? = some text)
    (htext : text ∉ ["class", "interface", "enum", "@interface", "record"]) (rest : List Tree) :
    typeKind? (keyword :: rest) = none := by
  cases rest with
  | nil => rfl
  | cons name rest =>
      simp only [List.mem_cons, List.not_mem_nil, or_false, not_or] at htext
      unfold typeKind?
      dsimp only
      rw [hword]
      split
      · rfl
      · split
        all_goals simp_all

theorem BeginsPlainly.typeKind?_append (h : BeginsPlainly row) (rest : List Tree) :
    typeKind? (row ++ rest) = none := by
  cases h with
  | word htree htext =>
      refine typeKind?_of_word htree ?_ _
      simp only [declarationWords, List.mem_cons, List.mem_append, not_or] at htext ⊢
      obtain ⟨hrecord, -, -, hclass, hinterface, henum, hannotation, hnone⟩ := htext
      exact ⟨hclass, hinterface, henum, hannotation, hrecord, hnone⟩
  | qualified _ _ hdot =>
      obtain ⟨before, rfl⟩ := exists_leaf_of_isSymbol hdot
      exact typeKind?_of_not_name rfl _

theorem afterBlock_of_isClausePart (h : ∀ tree ∈ row, isClausePart tree) {body : Tree}
    (hbody : body.isGroup .curly) (rest : List Tree) : afterBlock (row ++ body :: rest) = rest := by
  induction row with
  | nil =>
      rw [List.nil_append, afterBlock, hbody, Bool.or_true, if_pos rfl]
  | cons tree others ih =>
      obtain ⟨hself, hothers⟩ := List.forall_mem_cons.1 h
      rw [isClausePart, Bool.not_eq_true', Bool.or_comm] at hself
      rw [List.cons_append, afterBlock, hself, if_neg Bool.false_ne_true]
      exact ih hothers

end Readers

section Typed

variable {names : List AnnotationNode} {row rest : List Tree}

/-- Neither parameters nor a body stand at the head of the row. -/
def LacksGroup (row : List Tree) : Prop :=
  ∀ tree ∈ row.head?, tree.isGroup .round = false ∧ tree.isGroup .curly = false

theorem LacksGroup.append {others : List Tree} (h : LacksGroup row) (hothers : LacksGroup others) :
    LacksGroup (row ++ others) := by
  cases row with
  | nil => exact hothers
  | cons tree more => exact h

theorem lacksGroup_sign {sign : Tree} {char : Char} (h : sign.isSymbol char) (rest : List Tree) :
    LacksGroup (sign :: rest) := by
  intro tree htree
  obtain rfl := Option.some.inj htree
  obtain ⟨before, rfl⟩ := exists_leaf_of_isSymbol h
  exact ⟨rfl, rfl⟩

theorem lacksGroup_word {word : Tree} (h : word.word?.isSome) (rest : List Tree) :
    LacksGroup (word :: rest) := by
  intro tree htree
  obtain rfl := Option.some.inj htree
  obtain ⟨text, htext⟩ := Option.isSome_iff_exists.1 h
  obtain ⟨before, rfl⟩ := exists_leaf_of_word? htext
  exact ⟨rfl, rfl⟩

theorem AreDimensions.lacksGroup (h : AreDimensions row) : LacksGroup row := by
  cases h with
  | nil =>
      intro tree htree
      cases htree
  | cons hannotations hsquare _ =>
      cases hannotations with
      | nil =>
          intro tree htree
          obtain rfl := Option.some.inj htree
          obtain ⟨opening, inner, closing, rfl⟩ := exists_group_of_isGroup hsquare
          exact ⟨rfl, rfl⟩
      | cons hrow _ =>
          obtain ⟨sign, more, rfl, hsign⟩ := hrow.exists_eq_cons
          exact lacksGroup_sign hsign _

theorem MayBeArguments.lacksGroup (h : MayBeArguments row) : LacksGroup row := by
  rcases h with rfl | h
  · intro tree htree
    cases htree
  · obtain ⟨hopening, -, -⟩ := h
    exact lacksGroup_sign hopening _

theorem IsTypeTail.lacksGroup (h : IsTypeTail row) : LacksGroup row := by
  cases h with
  | last harguments => exact harguments.lacksGroup
  | more harguments hdot _ _ _ => exact harguments.lacksGroup.append (lacksGroup_sign hdot _)

/-- A type begins with a word, and nothing in brackets comes next. -/
theorem IsType.exists_lacksGroup (h : IsType row) :
    ∃ word more, row = word :: more ∧ IsNameWord word ∧ LacksGroup more := by
  obtain ⟨hname, hdimensions⟩ := h
  cases hname with
  | @primitive word text hword htext =>
      have hnot : ∀ text ∈ primitiveTypes, text ∉ operatorWords := by decide
      exact ⟨word, _, rfl, ⟨text, hword, hnot text htext⟩, hdimensions.lacksGroup⟩
  | reference hword htail =>
      exact ⟨_, _, rfl, hword.isNameWord, htail.lacksGroup.append hdimensions.lacksGroup⟩

theorem constructor?_of_lacksGroup (h : LacksGroup rest) (name : Tree) :
    constructor? names (name :: rest) = none := by
  cases rest with
  | nil => rfl
  | cons next more =>
      obtain ⟨hround, hcurly⟩ := h next rfl
      rw [constructor?, hround, hcurly, Bool.and_false]
      rfl

theorem IsNameWord.ne_instanceof {tree : Tree} (h : IsNameWord tree) :
    tree.word?.any fun word => word ≠ "instanceof" := by
  obtain ⟨text, htext, hnot⟩ := h
  rw [htext]
  refine decide_eq_true fun hsame => hnot ?_
  rw [hsame]
  decide

/-- Modifiers end before type parameters. -/
theorem endsModifiers_of_angle {opening : Tree} (h : opening.isSymbol '<') (rest : List Tree) :
    EndsModifiers modifierWords opening rest := by
  obtain ⟨before, rfl⟩ := exists_leaf_of_isSymbol h
  exact ⟨⟨rfl, rfl, rfl⟩, rfl, fun hsealed => absurd hsealed (by decide)⟩

/-- What is declared after a type depends on the trees after the type. -/
theorem IsTyped.exists_nextMembers (h : IsTyped row) :
    ∃ names own, ∀ (name : Tree) (rest : List Tree) (result : List Member × List Tree),
      name.word?.isSome →
      (∀ trees found, typeReference? trees = some (found, name :: rest) →
        typedMembers? names own trees = some result) →
      nextMembers (row ++ name :: rest) = result := by
  cases h with
  | plain hmodifiers htype hhead =>
      obtain ⟨names, hnames⟩ := hmodifiers.exists_modifiers fun _ hmem => hmem
      obtain ⟨read, hread⟩ := htype.exists_typeReference? .nil
      obtain ⟨word, more, rfl, hword, hmore⟩ := htype.exists_lacksGroup
      refine ⟨names, [], fun name rest result hname hresult => ?_⟩
      have hends : EndsModifiers ("sealed" :: modifierWords) word (more ++ name :: rest) :=
        ⟨endsAnnotations_of_word? hword.word?_isSome, hhead.isModifier_append _,
          fun _ => hword.ne_instanceof⟩
      have hhead : typeHead? names (word :: (more ++ name :: rest)) = none :=
        typeHead?_of_typeKind? (hhead.typeKind?_append _)
      have hconstructor : constructor? names (word :: (more ++ name :: rest)) = none :=
        constructor?_of_lacksGroup (hmore.append (lacksGroup_word hname rest)) word
      have htype : typedMembers? names [] (word :: (more ++ name :: rest)) = some result :=
        hresult _ read (hread _ ((endsClassType_of_word?_isSome hname).endsType rest))
      rw [List.append_assoc, List.cons_append, nextMembers_of_typeHead?_eq_none (hnames _ _ hends) hhead
        (annotations_afterTypeArguments_of_word hword.word?_isSome _), hconstructor]
      dsimp only
      rw [htype]
      rfl
  | @generic _ _ before _ hmodifiers hparameters hannotations htype =>
      obtain ⟨names, hnames⟩ := hmodifiers.exists_modifiers fun _ hmem => List.mem_cons_of_mem _ hmem
      obtain ⟨others, hothers⟩ := hannotations.exists_annotations
      obtain ⟨read, hread⟩ := htype.exists_typeReference? .nil
      obtain ⟨word, more, rfl, hword, hmore⟩ := htype.exists_lacksGroup
      obtain @⟨opening, closing, inner, hopening, hinner, hclosing⟩ := hparameters
      refine ⟨names, others, fun name rest result hname hresult => ?_⟩
      have harguments := (AreArguments.mk hopening hinner hclosing).afterTypeArguments
        (before ++ word :: more ++ name :: rest)
      have hconstructor : constructor? names (word :: (more ++ name :: rest)) = none :=
        constructor?_of_lacksGroup (hmore.append (lacksGroup_word hname rest)) word
      have htype : typedMembers? names others (word :: (more ++ name :: rest)) = some result :=
        hresult _ read (hread _ ((endsClassType_of_word?_isSome hname).endsType rest))
      have hannotations := hothers word (more ++ name :: rest)
        (endsAnnotations_of_word? hword.word?_isSome)
      have hmodifiers := hnames opening _ (endsModifiers_of_angle hopening
        (inner ++ [closing] ++ (before ++ word :: more ++ name :: rest)))
      simp only [List.append_assoc, List.cons_append, List.nil_append]
        at hmodifiers harguments hannotations ⊢
      rw [← harguments] at hannotations
      rw [nextMembers_of_typeHead?_eq_none hmodifiers
        (typeHead?_of_typeKind? (typeKind?_of_not_word (word?_of_isSymbol hopening) _)) hannotations,
        hconstructor]
      dsimp only
      rw [htype]
      rfl

end Typed

section Methods

variable {row rest : List Tree}

theorem endsType_of_endsMethod {tree : Tree} (h : endsMethod tree) (rest : List Tree) :
    EndsType (tree :: rest) := by
  rcases Bool.or_eq_true_iff.1 h with hmark | hbody
  · exact endsType_of_isSymbol hmark (by decide) rest
  · exact (endsClassType_of_isGroup hbody (by decide)).endsType rest

theorem AreTypes.afterTypes
    (h : AreTypes row) {tree : Tree} (htree : EndsType (tree :: rest))
    (hcomma : tree.isSymbol ',' = false) : Source.afterTypes (row ++ tree :: rest) = tree :: rest := by
  induction h with
  | last hannotations htype =>
      obtain ⟨name, hread⟩ := htype.exists_typeReference? hannotations
      rw [List.append_assoc, afterTypes_eq, hread _ htree]
      dsimp only
      rw [hcomma]
      rfl
  | cons hannotations htype hsign _ ih =>
      obtain ⟨name, hread⟩ := htype.exists_typeReference? hannotations
      simp only [List.append_assoc, List.cons_append]
      rw [afterTypes_eq, hread _ (endsType_of_isSymbol hsign (by decide) _)]
      dsimp only
      rw [if_pos hsign, ih]

/-- A `throws` clause is passed over up to what ends the method. -/
theorem IsThrowsClause.methodEnd
    (h : IsThrowsClause row) {dimensions : List Tree} (hdimensions : AreDimensions dimensions)
    {tree : Tree} (htree : endsMethod tree) (rest : List Tree) :
    Source.methodEnd (dimensions ++ (row ++ tree :: rest)) = ([], rest) := by
  have hends := endsType_of_endsMethod htree rest
  have hword : tree.word? = none := by
    rcases Bool.or_eq_true_iff.1 htree with hmark | hbody
    · exact word?_of_isSymbol hmark
    · exact word?_of_isGroup hbody
  have hnot : ∀ text, tree.isWord text = false := by
    intro text
    rw [Tree.isWord, hword]
    rfl
  have hafter : afterThrows (Source.afterDimensions (dimensions ++ (row ++ tree :: rest))) =
      tree :: rest := by
    cases h with
    | nothing =>
        rw [List.nil_append, hdimensions.afterDimensions hends.dimensions, afterThrows, hnot]
        rfl
    | @types keyword types hkeyword htypes =>
        have hcomma : tree.isSymbol ',' = false := by
          rcases Bool.or_eq_true_iff.1 htree with hmark | hbody
          · exact isSymbol_eq_false hmark (by decide)
          · obtain ⟨opening, inner, closing, rfl⟩ := exists_group_of_isGroup hbody
            rfl
        have hclause := (endsClassType_of_word?_isSome (word?_isSome_of_isWord hkeyword)).endsType
          (types ++ tree :: rest)
        rw [List.cons_append, hdimensions.afterDimensions hclause.dimensions, afterThrows,
          if_pos hkeyword, htypes.afterTypes hends hcomma]
  rw [Source.methodEnd, hafter]
  dsimp only
  rw [hnot, if_neg Bool.false_ne_true, if_pos htree]

/-- The default of an element is passed over up to the semicolon after it. -/
theorem IsDefault.methodEnd
    (h : IsDefault row) {dimensions : List Tree} (hdimensions : AreDimensions dimensions)
    {keyword mark : Tree} (hkeyword : keyword.isWord "default") (hmark : mark.isSymbol ';')
    (rest : List Tree) :
    Source.methodEnd (dimensions ++ keyword :: (row ++ mark :: rest)) =
      (defaultValue row, rest) := by
  have hends := (endsClassType_of_word?_isSome (word?_isSome_of_isWord hkeyword)).endsType
    (row ++ mark :: rest)
  have hthrows : keyword.isWord "throws" = false := by
    have hword : keyword.word? = some "default" := eq_of_beq hkeyword
    rw [Tree.isWord, hword]
    rfl
  have hafter : afterThrows (Source.afterDimensions (dimensions ++ keyword :: (row ++ mark :: rest))) =
      keyword :: (row ++ mark :: rest) := by
    rw [hdimensions.afterDimensions hends.dimensions, afterThrows, hthrows]
    rfl
  rw [Source.methodEnd, hafter]
  dsimp only
  rw [if_pos hkeyword, h.defaultValue_append hmark, h.afterValue hmark, afterEnd, if_pos hmark]

/-- The name of a method comes from its head, and so do its annotations, save a default that is one. -/
theorem IsMethodHead.exists_nextMembers (h : IsMethodHead row) :
    ∃ name names own,
      (∀ throws tree rest, IsThrowsClause throws → endsMethod tree →
        nextMembers (row ++ (throws ++ tree :: rest)) = ([.method names own name], rest)) ∧
      ∀ keyword value mark rest, keyword.isWord "default" → IsDefault value → mark.isSymbol ';' →
        nextMembers (row ++ keyword :: (value ++ mark :: rest)) =
          ([.method names (own ++ defaultValue value) name], rest) := by
  obtain @⟨typed, dimensions, name, parameters, htyped, hname, hparameters, hdimensions⟩ := h
  obtain ⟨text, htext, -⟩ := hname
  obtain ⟨names, own, hread⟩ := htyped.exists_nextMembers
  have hmethod : ∀ rest, nextMembers (typed ++ name :: parameters :: (dimensions ++ rest)) =
      ([.method names (own ++ (methodEnd (dimensions ++ rest)).1) text],
        (methodEnd (dimensions ++ rest)).2) := by
    intro rest
    refine hread name _ _ (Option.isSome_of_eq_some htext) fun trees found htype => ?_
    rw [typedMembers?, htype]
    dsimp only
    rw [htext]
    dsimp only
    rw [if_pos hparameters]
  refine ⟨text, names, own, fun throws tree rest hthrows htree => ?_,
    fun keyword value mark rest hkeyword hvalue hmark => ?_⟩
  · rw [List.append_assoc, List.cons_append, List.cons_append, hmethod,
      hthrows.methodEnd hdimensions htree, List.append_nil]
  · rw [List.append_assoc, List.cons_append, List.cons_append, hmethod,
      hvalue.methodEnd hdimensions hkeyword hmark]

/-- Fields that are declared together have the annotations before their type. -/
theorem IsTyped.exists_fields (h : IsTyped row) :
    ∃ names own, ∀ heads fields mark rest, AreDeclarators heads fields → mark.isSymbol ';' →
      nextMembers (row ++ (fields ++ mark :: rest)) =
        ([.fields names own (heads.map fun head => head.1.word?.getD "")], rest) := by
  obtain ⟨names, own, hread⟩ := h.exists_nextMembers
  refine ⟨names, own, fun heads fields mark rest hfields hmark => ?_⟩
  have hdeclarators := hfields.declarators hmark rest
  have hvalue : ∀ value, IsInitializer value → ∀ sign char more, sign.isSymbol char →
      LacksGroup (value ++ sign :: more) := by
    intro value hvalue sign char more hsign
    cases hvalue with
    | nothing => exact lacksGroup_sign hsign more
    | value hequals _ => exact lacksGroup_sign hequals _
  obtain ⟨name, tail, hcons, hname, htail⟩ : ∃ name tail, fields = name :: tail ∧
      IsNameWord name ∧ LacksGroup (tail ++ mark :: rest) := by
    cases hfields with
    | last hname hdimensions hinitial =>
        refine ⟨_, _, rfl, hname, ?_⟩
        rw [List.append_assoc]
        exact hdimensions.lacksGroup.append (hvalue _ hinitial mark ';' rest hmark)
    | @cons _ comma _ _ _ _ hname hdimensions hinitial hcomma _ =>
        refine ⟨_, _, rfl, hname, ?_⟩
        simp only [List.append_assoc, List.cons_append]
        exact hdimensions.lacksGroup.append (hvalue _ hinitial comma ',' _ hcomma)
  subst hcons
  obtain ⟨text, htext, -⟩ := hname
  obtain ⟨next, more, hnext⟩ : ∃ next more, tail ++ mark :: rest = next :: more :=
    List.exists_cons_of_ne_nil (List.append_ne_nil_of_right_ne_nil _ (List.cons_ne_nil _ _))
  rw [hnext] at htail
  rw [List.cons_append, hnext] at hdeclarators
  rw [List.cons_append, hnext]
  refine hread name _ _ (Option.isSome_of_eq_some htext) fun trees found htype => ?_
  rw [typedMembers?, htype]
  dsimp only
  rw [htext]
  dsimp only
  rw [(htail next rfl).1, if_neg Bool.false_ne_true, hdeclarators]
  dsimp only
  rw [afterEnd, if_pos hmark]

end Methods

section Constructors

variable {names : List AnnotationNode} {row rest : List Tree}

theorem nextMembers_of_constructor?
    {trees body : List Tree} {member : Member} (hmodifiers : modifiers trees = (names, body))
    (htype : typeKind? body = none) {after : List Tree}
    (hannotations : annotations (afterTypeArguments body) = ([], after))
    (h : constructor? names after = some (member, rest)) : nextMembers trees = ([member], rest) := by
  rw [nextMembers_of_typeHead?_eq_none hmodifiers (typeHead?_of_typeKind? htype) hannotations, h]

theorem IsDeclaredName.endsModifiers
    {words : List String} {name : Tree} (h : IsDeclaredName name)
    (hrest : ∀ tree ∈ rest.head?, tree.isSymbol '@' = false ∧ tree.word? = none) :
    EndsModifiers words name rest := by
  obtain ⟨text, htext, hoperator, hmodifier⟩ := h
  exact ⟨endsAnnotations_of_word? (Option.isSome_of_eq_some htext),
    isModifier_eq_false htext hmodifier fun _ => hrest,
    fun _ => IsNameWord.ne_instanceof ⟨text, htext, hoperator⟩⟩

theorem IsDeclaredName.word?_isSome {name : Tree} (h : IsDeclaredName name) : name.word?.isSome := by
  obtain ⟨text, htext, -⟩ := h
  exact Option.isSome_of_eq_some htext

theorem not_word_of_isGroup {tree : Tree} {bracket : Bracket} (h : tree.isGroup bracket) :
    tree.isSymbol '@' = false ∧ tree.word? = none := by
  obtain ⟨opening, inner, closing, rfl⟩ := exists_group_of_isGroup h
  exact ⟨rfl, rfl⟩

/-- A constructor is read up to its body. -/
theorem constructor?_of_round
    {name parameters body : Tree} {throws : List Tree} (hname : name.word?.isSome)
    (hparameters : parameters.isGroup .round) (hthrows : ∀ tree ∈ throws, isClausePart tree)
    (hbody : body.isGroup .curly) (names : List AnnotationNode) (rest : List Tree) :
    constructor? names (name :: parameters :: (throws ++ body :: rest)) =
      some (.constructor names, rest) := by
  rw [constructor?, hname, hparameters, afterBlock_of_isClausePart hthrows hbody]
  rfl

/-- The annotations of a constructor come from its head. -/
theorem IsConstructorHead.exists_nextMembers (h : IsConstructorHead row) :
    ∃ names, ∀ body rest, body.isGroup .curly →
      nextMembers (row ++ body :: rest) = ([.constructor names], rest) := by
  have hplain : ∀ (name : Tree) (rest : List Tree), IsDeclaredName name →
      annotations (afterTypeArguments (name :: rest)) = ([], name :: rest) :=
    fun name rest hname => annotations_afterTypeArguments_of_word hname.word?_isSome rest
  cases h with
  | @plain _ throws name parameters hmodifiers hname hparameters hthrows =>
      obtain ⟨names, hnames⟩ := hmodifiers.exists_modifiers fun _ hmem => hmem
      refine ⟨names, fun body rest hbody => ?_⟩
      have hround := not_word_of_isGroup hparameters
      have hends : EndsModifiers ("sealed" :: modifierWords) name
          (parameters :: (throws ++ body :: rest)) := by
        refine hname.endsModifiers fun tree htree => ?_
        obtain rfl := Option.some.inj htree
        exact hround
      rw [List.append_assoc]
      exact nextMembers_of_constructor? (hnames _ _ hends) (typeKind?_of_not_name hround.2 _)
        (hplain _ _ hname) (constructor?_of_round hname.word?_isSome hparameters hthrows hbody names rest)
  | @generic _ _ throws name parameters hmodifiers htypes hname hparameters hthrows =>
      obtain ⟨names, hnames⟩ := hmodifiers.exists_modifiers fun _ hmem => List.mem_cons_of_mem _ hmem
      obtain @⟨opening, closing, inner, hopening, hinner, hclosing⟩ := htypes
      refine ⟨names, fun body rest hbody => ?_⟩
      have hannotations : annotations (afterTypeArguments (opening :: (inner ++ [closing] ++
          name :: parameters :: (throws ++ body :: rest)))) =
            ([], name :: parameters :: (throws ++ body :: rest)) := by
        have harguments := (AreArguments.mk hopening hinner hclosing).afterTypeArguments
          (name :: parameters :: (throws ++ body :: rest))
        rw [List.cons_append] at harguments
        rw [harguments]
        exact annotations_of_not_at (endsAnnotations_of_word? hname.word?_isSome).not_at _
      have hmodifiers := hnames opening _ (endsModifiers_of_angle hopening
        (inner ++ [closing] ++ name :: parameters :: (throws ++ body :: rest)))
      simp only [List.append_assoc, List.cons_append, List.nil_append] at hmodifiers hannotations ⊢
      exact nextMembers_of_constructor? hmodifiers (typeKind?_of_not_word (word?_of_isSymbol hopening) _)
        hannotations (constructor?_of_round hname.word?_isSome hparameters hthrows hbody names rest)
  | @compact _ name hmodifiers hname =>
      obtain ⟨names, hnames⟩ := hmodifiers.exists_modifiers fun _ hmem => hmem
      refine ⟨names, fun body rest hbody => ?_⟩
      have hcurly := not_word_of_isGroup hbody
      have hends : EndsModifiers ("sealed" :: modifierWords) name (body :: rest) := by
        refine hname.endsModifiers fun tree htree => ?_
        obtain rfl := Option.some.inj htree
        exact hcurly
      have hconstructor : constructor? names (name :: body :: rest) =
          some (.constructor names, rest) := by
        have hround : body.isGroup .round = false := by
          obtain ⟨opening, inner, closing, rfl⟩ := exists_group_of_isGroup hbody
          rfl
        rw [constructor?, hname.word?_isSome, hround, hbody]
        rfl
      rw [List.append_assoc, List.singleton_append]
      exact nextMembers_of_constructor? (hnames _ _ hends) (typeKind?_of_not_name hcurly.2 _)
        (hplain _ _ hname) hconstructor

theorem AreModifiers.nextMembers
    (h : AreModifiers modifierWords row) {body : Tree} (hbody : body.isGroup .curly)
    (rest : List Tree) : Source.nextMembers (row ++ body :: rest) = ([], rest) := by
  obtain ⟨names, hnames⟩ := h.exists_modifiers fun _ hmem => List.mem_cons_of_mem _ hmem
  obtain ⟨opening, inner, closing, rfl⟩ := exists_group_of_isGroup hbody
  have hends : EndsModifiers modifierWords (.group .curly opening inner closing) rest :=
    ⟨⟨rfl, rfl, rfl⟩, rfl, fun hsealed => absurd hsealed (by decide)⟩
  exact nextMembers_of_not_word (hnames _ _ hends) rfl rfl rfl

/-- A member with a body is read from the trees before its body, and it is no type. -/
theorem IsBodyHead.exists_nextMembers (h : IsBodyHead row) :
    ∃ found, (∀ head, .type head ∉ found) ∧ ∀ body rest, body.isGroup .curly →
      nextMembers (row ++ body :: rest) = (found, rest) := by
  cases h with
  | method hhead hthrows =>
      obtain ⟨name, names, own, hread, -⟩ := hhead.exists_nextMembers
      refine ⟨[.method names own name], by simp, fun body rest hbody => ?_⟩
      rw [List.append_assoc]
      exact hread _ body rest hthrows (Bool.or_eq_true_iff.2 (Or.inr hbody))
  | constructor hrow =>
      obtain ⟨names, hread⟩ := hrow.exists_nextMembers
      exact ⟨[.constructor names], by simp, hread⟩
  | initializer hrow => exact ⟨[], by simp, fun body rest hbody => hrow.nextMembers hbody rest⟩

end Constructors

end ComponentMarkers.Source
