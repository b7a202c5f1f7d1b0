import ComponentMarkers.Proofs.Source.Expressions

/-!
# Where expressions end

The reader passes over an expression to its end, whatever it holds and whatever follows it.  Each kind of
operand takes one step or a few; the steps of an expression are those of its parts.
-/

namespace ComponentMarkers.Source

open Source.Tree

section Parts

variable {ending : Ending} {row rest : List Tree}

theorem AreAnnotations.append {others : List Tree} (h : AreAnnotations row)
    (hothers : AreAnnotations others) : AreAnnotations (row ++ others) := by
  induction h with
  | nil => exact hothers
  | cons hrow _ ih =>
      rw [List.append_assoc]
      exact .cons hrow ih

theorem afterTypeArguments_of_word {tree : Tree} (h : tree.word?.isSome) (rest : List Tree) :
    afterTypeArguments (tree :: rest) = tree :: rest :=
  afterTypeArguments_of_not_angle (endsClassType_of_word?_isSome h).not_angle rest

theorem annotations_afterTypeArguments_of_word {tree : Tree} (h : tree.word?.isSome)
    (rest : List Tree) : annotations (afterTypeArguments (tree :: rest)) = ([], tree :: rest) :=
  annotations_afterTypeArguments_of_not (endsAnnotations_of_word? h).not_at
    (endsClassType_of_word?_isSome h).not_angle rest

/-- Annotations and type arguments before a class to be made are passed over, up to annotations that
belong to its type. -/
theorem exists_annotations_of_creation
    {before types between : List Tree} (hbefore : AreAnnotations before)
    (htypes : MayBeArguments types) (hbetween : AreAnnotations between) {word : Tree}
    (hword : word.word?.isSome) (rest : List Tree) :
    ∃ left, AreAnnotations left ∧
      afterTypeArguments (annotations (before ++ (types ++ (between ++ word :: rest)))).2 =
        left ++ word :: rest := by
  rcases htypes with rfl | htypes
  · obtain ⟨names, hnames⟩ := (hbefore.append hbetween).exists_annotations
    have hread := hnames word rest (endsAnnotations_of_word? hword)
    refine ⟨[], .nil, ?_⟩
    rw [List.append_assoc] at hread
    rw [List.nil_append, hread]
    exact afterTypeArguments_of_word hword rest
  · refine ⟨between, hbetween, ?_⟩
    obtain ⟨names, hnames⟩ := hbefore.exists_annotations
    obtain @⟨opening, closing, inner, hopening, hinner, hclosing⟩ := htypes
    have hends : EndsAnnotations opening := by
      obtain ⟨blank, rfl⟩ := exists_leaf_of_isSymbol hopening
      exact ⟨rfl, rfl, rfl⟩
    rw [List.cons_append, hnames _ _ hends, ← List.cons_append]
    exact (AreArguments.mk hopening hinner hclosing).afterTypeArguments _

theorem afterType_eq
    {annotations name dimensions : List Tree} (hannotations : AreAnnotations annotations)
    (hname : IsTypeName name) (hdimensions : AreDimensions dimensions)
    (htail : EndsTypeTail (dimensions ++ rest)) (hrest : afterDimensions rest = rest) :
    afterType (annotations ++ (name ++ (dimensions ++ rest))) = rest := by
  obtain ⟨read, hread⟩ := hname.exists_typeReference? hannotations hdimensions
  rw [afterType, hread rest htail hrest]

theorem afterValue_new {tree : Tree} (h : tree.isWord "new") (rest : List Tree) :
    afterValue false (tree :: rest) =
      afterValue true (afterType (afterTypeArguments (annotations rest).2)) := by
  obtain ⟨before, rfl⟩ := exists_leaf_of_word? (eq_of_beq h)
  have hpart : afterPart (.leaf ⟨before, .word "new"⟩) rest =
      afterType (afterTypeArguments (annotations rest).2) := by
    rw [afterPart, if_pos h]
  rw [afterValue_cons rfl rfl (fun h => absurd h Bool.false_ne_true), hpart]
  rfl

/-- What is made is passed over, with its arguments and its body. -/
theorem IsCreation.exists_afterValue (h : IsCreation ending row) (hrest : ending.IsBefore rest) :
    ∃ ended, afterValue false (row ++ rest) = afterValue ended rest := by
  induction h generalizing rest with
  | @object keyword arguments before types between type body hkeyword hbefore htypes hbetween htype
      harguments hbody =>
      obtain ⟨word, more, rfl, hword⟩ := htype.exists_eq_cons
      obtain ⟨left, hleft, hread⟩ := exists_annotations_of_creation hbefore htypes hbetween hword
        (more ++ arguments :: (body ++ rest))
      have hround := (endsClassType_of_isGroup harguments (by decide)).endsType (body ++ rest)
      have htail := afterType_eq hleft htype .nil hround.toEndsTypeTail hround.dimensions
      have hbody : ∃ ended, afterValue true (arguments :: (body ++ rest)) = afterValue ended rest := by
        rw [afterValue_group harguments]
        rcases hbody with rfl | ⟨group, hgroup, rfl⟩
        · exact ⟨_, rfl⟩
        · rw [List.singleton_append, afterValue_group hgroup]
          exact ⟨_, rfl⟩
      simp only [List.cons_append, List.append_assoc] at htail ⊢
      rw [afterValue_new hkeyword, hread]
      rw [List.nil_append] at htail
      rw [htail]
      exact hbody
  | @array keyword square before type between dimensions hkeyword hbefore htype hbetween hsquare
      hdimensions =>
      obtain ⟨word, more, rfl, hword⟩ := htype.exists_eq_cons
      obtain ⟨left, hleft, hread⟩ := exists_annotations_of_creation hbefore (Or.inl rfl) .nil hword
        (more ++ (between ++ square :: (dimensions ++ rest)))
      have hall := AreDimensions.cons hbetween hsquare hdimensions
      have htail : EndsTypeTail (between ++ square :: dimensions ++ rest) :=
        hall.endsTypeTail_of_ne_nil (List.append_ne_nil_of_right_ne_nil _ (List.cons_ne_nil _ _))
      have hafter := afterType_eq hleft htype hall htail hrest
      simp only [List.cons_append, List.append_assoc, List.nil_append] at hread hafter ⊢
      rw [afterValue_new hkeyword, hread, hafter]
      exact ⟨true, rfl⟩
  | initialized _ hblock ih =>
      have hdimensions := ((endsClassType_of_isGroup hblock (by decide)).endsType rest).dimensions
      obtain ⟨ended, hread⟩ := ih hdimensions
      rw [List.append_assoc, List.singleton_append, hread, afterValue_group hblock]
      exact ⟨_, rfl⟩

theorem afterValue_instanceof {tree : Tree} (h : tree.isWord "instanceof") (ended : Bool)
    (rest : List Tree) :
    afterValue ended (tree :: rest) = afterValue false (afterType (modifiers rest).2) := by
  obtain ⟨before, rfl⟩ := exists_leaf_of_word? (eq_of_beq h)
  have hpart : afterPart (.leaf ⟨before, .word "instanceof"⟩) rest = afterType (modifiers rest).2 := by
    have hnew : isWord "new" (.leaf ⟨before, .word "instanceof"⟩) = false := rfl
    rw [afterPart, hnew, if_neg Bool.false_ne_true, if_pos h]
  rw [afterValue_cons rfl rfl (fun _ => rfl), hpart]
  rfl

/-- The type that an object is compared with is passed over. -/
theorem IsPattern.exists_afterValue {keyword : Tree} (hkeyword : keyword.isWord "instanceof")
    (h : IsPattern ending row) (hrest : ending.IsBefore rest) (before : Bool) :
    ∃ ended, afterValue before (keyword :: (row ++ rest)) = afterValue ended rest ∧
      (ending = .type → ended = false) := by
  induction h generalizing rest with
  | @type modifiers type hmodifiers htype hhead =>
      obtain ⟨word, more, rfl, hword⟩ := htype.exists_eq_cons
      have hends : EndsModifiers modifierWords word (more ++ rest) :=
        ⟨endsAnnotations_of_word? hword, hhead.isModifier_append rest,
          fun hsealed => absurd hsealed (by decide)⟩
      obtain ⟨names, hnames⟩ := hmodifiers.exists_modifiers fun _ hmem => List.mem_cons_of_mem _ hmem
      obtain ⟨name, hread⟩ := htype.exists_typeReference? .nil
      have htype := hread rest hrest
      rw [List.nil_append] at htype
      rw [afterValue_instanceof hkeyword, List.append_assoc, List.cons_append, hnames _ _ hends,
        afterType, ← List.cons_append, htype]
      exact ⟨false, rfl, fun _ => rfl⟩
  | named _ hname ih =>
      obtain ⟨ended, hread, hfalse⟩ :=
        ih ((endsClassType_of_word?_isSome hname.word?_isSome).endsType rest)
      rw [List.append_assoc, List.singleton_append, hread, hfalse rfl, afterValue_nameWord hname]
      exact ⟨true, rfl, fun h => by cases h⟩
  | record _ hparts ih =>
      obtain ⟨ended, hread, hfalse⟩ := ih ((endsClassType_of_isGroup hparts (by decide)).endsType rest)
      rw [List.append_assoc, List.singleton_append, hread, afterValue_group hparts]
      exact ⟨_, rfl, fun h => by cases h⟩

/-- What a method reference names is passed over. -/
theorem exists_afterValue_colons
    {types : List Tree} {name : Tree} (htypes : MayBeArguments types)
    (hname : IsNameWord name ∨ name.isWord "new") (rest : List Tree) :
    ∃ ended, afterValue false (afterColons (types ++ name :: rest)) = afterValue ended rest := by
  have hword : name.word?.isSome := by
    rcases hname with hname | hname
    · exact hname.word?_isSome
    · exact word?_isSome_of_isWord hname
  rw [afterColons, afterTypeArguments_append htypes (afterTypeArguments_of_word hword rest)]
  dsimp only
  rcases hname with hname | hname
  · obtain ⟨text, htext, hnot⟩ := hname
    have hnew : name.isWord "new" = false := by
      rw [Tree.isWord, htext]
      refine beq_eq_false_iff_ne.2 fun hsame => hnot ?_
      rw [Option.some.inj hsame]
      decide
    rw [hnew, if_neg Bool.false_ne_true, afterValue_nameWord ⟨text, htext, hnot⟩]
    exact ⟨true, rfl⟩
  · rw [if_pos hname]
    exact ⟨false, rfl⟩

end Parts

section TypeOperands

variable {row rest : List Tree}

/-- Type arguments are passed over where a type goes on after them. -/
theorem AreArguments.afterValue (h : AreArguments row) (hrest : goesOnType rest) (ended : Bool) :
    Source.afterValue ended (row ++ rest) = Source.afterValue false rest := by
  have hread : referenceArguments? (row ++ rest) = some rest := by
    rw [referenceArguments?, h.exists_typeArguments?]
    dsimp only
    rw [if_pos hrest]
  obtain @⟨opening, closing, inner, hopening, hinner, hclosing⟩ := h
  obtain ⟨before, rfl⟩ := exists_leaf_of_isSymbol hopening
  have hpart : afterPart (.leaf ⟨before, .symbol '<'⟩) (inner ++ [closing] ++ rest) = rest := by
    rw [List.cons_append] at hread
    rw [afterPart, startsReference_cons rfl, hread]
    rfl
  rw [List.cons_append, afterValue_cons rfl rfl (fun _ => rfl), hpart]
  rfl

theorem MayBeArguments.exists_afterValue (h : MayBeArguments row) (hrest : goesOnType rest)
    (ended : Bool) : ∃ last, afterValue ended (row ++ rest) = afterValue last rest := by
  rcases h with rfl | h
  · exact ⟨ended, rfl⟩
  · exact ⟨false, h.afterValue hrest ended⟩

theorem afterValue_at {sign : Tree} (hsign : sign.isSymbol '@') (ended : Bool) (rest : List Tree) :
    afterValue ended (sign :: rest) =
      afterValue false ((referenceAnnotation? (sign :: rest)).getD rest) := by
  obtain ⟨before, rfl⟩ := exists_leaf_of_isSymbol hsign
  have hpart : afterPart (.leaf ⟨before, .symbol '@'⟩) rest =
      (referenceAnnotation? (.leaf ⟨before, .symbol '@'⟩ :: rest)).getD rest := by
    rw [afterPart, startsReference_cons rfl, referenceArguments?_of_not_angle rfl]
    cases referenceAnnotation? (.leaf ⟨before, .symbol '@'⟩ :: rest) with
    | none => rfl
    | some after => rfl
  rw [afterValue_cons rfl rfl (fun _ => rfl), hpart]
  rfl

/-- An annotation of the type of a method reference is passed over at once. -/
theorem IsAnnotation.afterValue_of_startsReference
    (h : IsAnnotation row) (hends : EndsAnnotation rest) (hrest : startsReference (afterType rest))
    (ended : Bool) : afterValue ended (row ++ rest) = afterValue false rest := by
  obtain ⟨name, hname⟩ := h.exists_annotation?
  have hread : referenceAnnotation? (row ++ rest) = some rest := by
    rw [referenceAnnotation?, hname rest hends]
    dsimp only
    rw [if_pos hrest]
  obtain ⟨sign, more, rfl, hsign⟩ := h.exists_eq_cons
  rw [List.cons_append] at hread
  rw [List.cons_append, afterValue_at hsign, hread]
  rfl

theorem IsDottedName.afterValue (h : IsDottedName row) (rest : List Tree) :
    Source.afterValue false (row ++ rest) = Source.afterValue true rest := by
  obtain ⟨hword, hrest⟩ := h
  rw [List.cons_append, afterValue_nameWord hword]
  induction hrest with
  | nil => rfl
  | cons hdot hnext _ ih =>
      rw [List.cons_append, List.cons_append, afterValue_dot hdot,
        afterTypeArguments_of_word hnext.word?_isSome, afterValue_nameWord hnext]
      exact ih

/-- Any other annotation is passed over piece by piece. -/
theorem IsAnnotation.afterValue_of_not_startsReference
    (h : IsAnnotation row) (hends : EndsAnnotation rest)
    (hrest : startsReference (afterType rest) = false) (ended : Bool) :
    afterValue ended (row ++ rest) = afterValue true rest := by
  obtain ⟨name, hname⟩ := h.exists_annotation?
  have hread : referenceAnnotation? (row ++ rest) = none := by
    rw [referenceAnnotation?, hname rest hends]
    dsimp only
    rw [hrest]
    rfl
  cases h with
  | marker hsign hdotted =>
      rw [List.cons_append] at hread
      rw [List.cons_append, afterValue_at hsign, hread]
      exact hdotted.afterValue rest
  | withArguments hsign hdotted harguments =>
      rw [List.cons_append, List.append_assoc] at hread
      rw [List.cons_append, List.append_assoc, afterValue_at hsign, hread]
      exact (hdotted.afterValue _).trans (afterValue_group harguments true rest)

/-- Nothing but a word begins a type. -/
theorem afterType_of_annotations
    {annotations : List Tree} (hannotations : AreAnnotations annotations) {tree : Tree}
    (htree : EndsAnnotations tree) (hword : tree.word? = none) (rest : List Tree) :
    afterType (annotations ++ tree :: rest) = annotations ++ tree :: rest := by
  obtain ⟨names, hnames⟩ := hannotations.exists_annotations
  have hnone : typeReference? (annotations ++ tree :: rest) = none := by
    rw [typeReference?, hnames tree rest htree]
    dsimp only
    rw [hword]
  rw [afterType, hnone]

theorem AreAnnotations.exists_afterValue_square
    (h : AreAnnotations row) {square : Tree} (hsquare : square.isGroup .square) (rest : List Tree)
    (ended : Bool) :
    ∃ last, afterValue ended (row ++ square :: rest) = afterValue last rest := by
  induction h generalizing ended with
  | nil => exact ⟨_, afterValue_group hsquare ended rest⟩
  | @cons first more hrow hmore ih =>
      have hends := hmore.endsAnnotation (endsAnnotations_of_square hsquare) rest
      have htype := afterType_of_annotations hmore (endsAnnotations_of_square hsquare)
        (word?_of_isGroup hsquare) rest
      have hreference : startsReference (more ++ square :: rest) = false := by
        cases hmore with
        | nil =>
            obtain ⟨opening, inner, closing, rfl⟩ := exists_group_of_isGroup hsquare
            exact startsReference_cons rfl rest
        | cons hnext _ =>
            obtain ⟨sign, others, rfl, hsign⟩ := hnext.exists_eq_cons
            exact startsReference_cons (isSymbol_eq_false hsign (by decide)) _
      obtain ⟨last, hlast⟩ := ih true
      refine ⟨last, ?_⟩
      rw [List.append_assoc,
        hrow.afterValue_of_not_startsReference hends (htype.symm ▸ hreference) ended]
      exact hlast

theorem AreDimensions.exists_afterValue (h : AreDimensions row) (rest : List Tree) (ended : Bool) :
    ∃ last, afterValue ended (row ++ rest) = afterValue last rest := by
  induction h generalizing ended with
  | nil => exact ⟨ended, rfl⟩
  | cons hannotations hsquare _ ih =>
      rw [List.append_assoc, List.cons_append]
      obtain ⟨last, hlast⟩ := hannotations.exists_afterValue_square hsquare _ ended
      rw [hlast]
      exact ih last

/-- The annotations before the type of a method reference are passed over. -/
theorem AreAnnotations.afterValue_eq
    {annotations name dimensions : List Tree} (hannotations : AreAnnotations annotations)
    (hname : IsTypeName name) (hdimensions : AreDimensions dimensions) (hends : EndsType rest)
    (hrest : startsReference rest) :
    afterValue false (annotations ++ (name ++ (dimensions ++ rest))) =
      afterValue false (name ++ (dimensions ++ rest)) := by
  induction hannotations with
  | nil => rfl
  | @cons first more hrow hmore ih =>
      obtain ⟨word, tail, rfl, hword⟩ := hname.exists_eq_cons
      have htype := afterType_eq hmore hname hdimensions
        (hdimensions.endsTypeTail hends.toEndsTypeTail) hends.dimensions
      have hbetween := hmore.endsAnnotation (endsAnnotations_of_word? hword)
        (tail ++ (dimensions ++ rest))
      rw [← List.cons_append] at hbetween
      rw [List.append_assoc,
        hrow.afterValue_of_startsReference hbetween (htype.symm ▸ hrest) false]
      exact ih

/-- After its first word the type of a method reference or of a class literal is passed over up to its
dimensions. -/
theorem IsTypeTail.exists_afterValue
    {dimensions : List Tree} (h : IsTypeTail row) (hdimensions : AreDimensions dimensions)
    (hafter : afterDimensions rest = rest) (hgoes : goesOnType rest)
    (hannotated : (EndsType rest ∧ startsReference rest) ∨ ∀ tree ∈ row, tree.isSymbol '@' = false)
    (ended : Bool) :
    ∃ last, afterValue ended (row ++ (dimensions ++ rest)) = afterValue last (dimensions ++ rest) := by
  induction h generalizing ended with
  | last harguments =>
      have hgoes : goesOnType (dimensions ++ rest) := by
        rw [goesOnType, hdimensions.afterDimensions hafter]
        rwa [goesOnType, hafter] at hgoes
      exact harguments.exists_afterValue hgoes ended
  | @more arguments annotations tail dot name harguments hdot hannotations hname htail ih =>
      have hnext := exists_nextTypeName? hdot hannotations hname.isNameWord.word?_isSome
        (tail ++ (dimensions ++ rest))
      have hdotted : goesOnType (dot :: (annotations ++ name :: (tail ++ (dimensions ++ rest)))) := by
        have hsquare : dot.isGroup .square = false := by
          obtain ⟨before, rfl⟩ := exists_leaf_of_isSymbol hdot
          rfl
        rw [goesOnType, afterDimensions_of_not (isSymbol_eq_false hdot (by decide)) hsquare, hnext]
        exact Bool.or_true _
      have hplain : afterTypeArguments (annotations ++ name :: (tail ++ (dimensions ++ rest))) =
          annotations ++ name :: (tail ++ (dimensions ++ rest)) := by
        cases hannotations with
        | nil => exact afterTypeArguments_of_word hname.isNameWord.word?_isSome _
        | cons hrow _ =>
            obtain ⟨sign, others, rfl, hsign⟩ := hrow.exists_eq_cons
            exact afterTypeArguments_of_not_angle (isSymbol_eq_false hsign (by decide)) _
      have hnames : afterValue false (annotations ++ name :: (tail ++ (dimensions ++ rest))) =
          afterValue true (tail ++ (dimensions ++ rest)) := by
        rw [← afterValue_nameWord hname.isNameWord]
        rcases hannotated with ⟨hends, hreference⟩ | hnone
        · exact hannotations.afterValue_eq (.reference hname htail) hdimensions hends hreference
        · cases hannotations with
          | nil => rfl
          | cons hrow _ =>
              obtain ⟨sign, others, rfl, hsign⟩ := hrow.exists_eq_cons
              have hsame := hnone sign (by simp)
              rw [hsign] at hsame
              cases hsame
      have htail : (EndsType rest ∧ startsReference rest) ∨
          ∀ tree ∈ tail, tree.isSymbol '@' = false := by
        refine hannotated.imp_right fun hnone tree htree => hnone tree ?_
        exact List.mem_append_right _ (List.mem_cons_of_mem _
          (List.mem_append_right _ (List.mem_cons_of_mem _ htree)))
      obtain ⟨last, hlast⟩ := harguments.exists_afterValue hdotted ended
      have hrow : arguments ++ dot :: (annotations ++ name :: tail) ++ (dimensions ++ rest) =
          arguments ++ dot :: (annotations ++ name :: (tail ++ (dimensions ++ rest))) := by
        simp only [List.append_assoc, List.cons_append]
      rw [hrow, hlast, afterValue_dot hdot, hplain, hnames]
      exact ih htail true

/-- The type of a method reference or of a class literal is passed over. -/
theorem IsType.exists_afterValue
    {annotations : List Tree} (hannotations : AreAnnotations annotations) (h : IsType row)
    (hafter : afterDimensions rest = rest) (hgoes : goesOnType rest)
    (hannotated : (EndsType rest ∧ startsReference rest) ∨
      annotations = [] ∧ ∀ tree ∈ row, tree.isSymbol '@' = false) :
    ∃ last, afterValue false (annotations ++ (row ++ rest)) = afterValue last rest := by
  obtain @⟨name, dimensions, hname, hdimensions⟩ := h
  have hbefore : afterValue false (annotations ++ (name ++ (dimensions ++ rest))) =
      afterValue false (name ++ (dimensions ++ rest)) := by
    rcases hannotated with ⟨hends, hreference⟩ | ⟨rfl, -⟩
    · exact hannotations.afterValue_eq hname hdimensions hends hreference
    · rfl
  have hname : ∃ last, afterValue false (name ++ (dimensions ++ rest)) =
      afterValue last (dimensions ++ rest) := by
    cases hname with
    | @primitive word text hword htext =>
        have hnot : ∀ text ∈ primitiveTypes, text ∉ operatorWords := by decide
        exact ⟨true, afterValue_nameWord ⟨text, hword, hnot text htext⟩ _⟩
    | reference hword htail =>
        rw [List.cons_append, afterValue_nameWord hword.isNameWord]
        refine htail.exists_afterValue hdimensions hafter hgoes ?_ true
        refine hannotated.imp_right fun hnone tree htree => hnone.2 tree ?_
        exact List.mem_append_left _ (List.mem_cons_of_mem _ htree)
  obtain ⟨middle, hmiddle⟩ := hname
  obtain ⟨last, hlast⟩ := hdimensions.exists_afterValue rest middle
  refine ⟨last, ?_⟩
  rw [List.append_assoc, hbefore, hmiddle, hlast]

end TypeOperands

section Values

variable {ending : Ending} {row rest : List Tree}

theorem goesOnType_of_startsReference (hends : EndsType rest) (h : startsReference rest) :
    goesOnType rest := by
  rw [goesOnType, hends.dimensions, h]
  rfl

theorem Ending.isBefore_of_endsType (h : EndsType rest) (ending : Ending) : ending.IsBefore rest := by
  cases ending with
  | type => exact h
  | dimensions => exact h.dimensions
  | operand => trivial

theorem Ending.isBefore_of_dot {dot : Tree} (hdot : dot.isSymbol '.') (hending : ending ≠ .type)
    (rest : List Tree) : ending.IsBefore (dot :: rest) := by
  obtain ⟨before, rfl⟩ := exists_leaf_of_isSymbol hdot
  cases ending with
  | type => exact absurd rfl hending
  | dimensions => exact afterDimensions_of_not rfl rfl rest
  | operand => trivial

theorem endsType_of_isSymbol {tree : Tree} {char : Char} (h : tree.isSymbol char)
    (hchar : char ∉ ['<', '.', '@']) (rest : List Tree) : EndsType (tree :: rest) := by
  simp only [List.mem_cons, List.not_mem_nil, or_false, not_or] at hchar
  obtain ⟨hangle, hdot, hat⟩ := hchar
  have hsquare : tree.isGroup .square = false := by
    obtain ⟨before, rfl⟩ := exists_leaf_of_isSymbol h
    rfl
  exact EndsClassType.endsType ⟨isSymbol_eq_false h hangle, isSymbol_eq_false h hdot,
    isSymbol_eq_false h hat, hsquare⟩ rest

theorem IsOperator.isBefore
    (h : IsOperator row) (hending : ending = .type → ∀ sign ∈ row.head?, sign.isSymbol '<' = false)
    (rest : List Tree) : ending.IsBefore (row ++ rest) := by
  have hsign : ∀ {sign : Tree} {char : Char} (more : List Tree), sign.isSymbol char →
      char ∈ operatorSigns → (ending = .type → sign.isSymbol '<' = false) →
        ending.IsBefore (sign :: more) := by
    intro sign char more hsign hchar hangle
    have hsigns : ∀ char ∈ operatorSigns, char ≠ '.' ∧ char ≠ '@' := by simp [operatorSigns]
    obtain ⟨hdot, hat⟩ := hsigns char hchar
    have hdot := isSymbol_eq_false hsign hdot
    have hat := isSymbol_eq_false hsign hat
    have hsquare : sign.isGroup .square = false := by
      obtain ⟨before, rfl⟩ := exists_leaf_of_isSymbol hsign
      rfl
    cases ending with
    | type => exact EndsClassType.endsType ⟨hangle rfl, hdot, hat, hsquare⟩ more
    | dimensions => exact afterDimensions_of_not hat hsquare more
    | operand => trivial
  cases h with
  | last hfirst hchar => exact hsign _ hfirst hchar fun htype => hending htype _ rfl
  | cons hfirst hchar _ => exact hsign _ hfirst hchar fun htype => hending htype _ rfl

theorem IsOperator.afterValue_eq
    (h : IsOperator row) (hrest : ClosesNoType rest) (hgoes : goesOnType rest = false) (ended : Bool) :
    afterValue ended (row ++ rest) = afterValue false rest := by
  induction h generalizing ended with
  | last hsign hchar => exact afterValue_operatorSign hsign (List.mem_cons_of_mem _ hchar) hrest ended
  | cons hsign hchar hmore ih =>
      rw [List.cons_append, afterValue_operatorSign hsign (List.mem_cons_of_mem _ hchar)
        (hmore.closesNoType hrest hgoes)]
      exact ih false

theorem IsOperand.exists_afterValue (h : IsOperand ending row) (hends : ending.IsBefore rest) :
    ∃ ended, afterValue false (row ++ rest) = afterValue ended rest := by
  cases h with
  | literal htree => exact ⟨true, afterValue_literal htree false rest⟩
  | decimal hdot htree =>
      refine ⟨true, ?_⟩
      rw [List.cons_append, List.singleton_append, afterValue_dot hdot,
        (endsTypeUse_literal htree rest).arguments, afterValue_literal htree]
  | name htree => exact ⟨true, afterValue_nameWord htree rest⟩
  | parentheses hgroup => exact ⟨false, afterValue_group hgroup false rest⟩
  | «switch» hkeyword hselector hblock =>
      have hword : IsNameWord _ := ⟨"switch", eq_of_beq hkeyword, by decide⟩
      rw [List.cons_append, List.cons_append, List.singleton_append, afterValue_nameWord hword,
        afterValue_group hselector, afterValue_group hblock]
      exact ⟨_, rfl⟩
  | creation hrow => exact hrow.exists_afterValue hends
  | @reference annotations type types first second name hannotations htype hfirst hsecond htypes hname =>
      have hbefore := endsType_of_isSymbol hfirst (by decide) (second :: (types ++ name :: rest))
      have hreference : startsReference (first :: second :: (types ++ name :: rest)) := by
        rw [startsReference, hfirst, hsecond]
        rfl
      obtain ⟨last, hlast⟩ := htype.exists_afterValue hannotations hbefore.dimensions
        (goesOnType_of_startsReference hbefore hreference) (Or.inl ⟨hbefore, hreference⟩)
      simp only [List.append_assoc, List.cons_append, List.nil_append]
      rw [hlast, afterValue_colons hfirst hsecond]
      exact exists_afterValue_colons htypes hname rest
  | @classLiteral type dot name htype hplain hdot hname =>
      have hword := word?_isSome_of_isWord hname
      have hbefore := @Ending.isBefore_of_dot .dimensions dot hdot (by decide) (name :: rest)
      have hnext : nextTypeName? (dot :: name :: rest) = some ([dot, name], rest) :=
        exists_nextTypeName? hdot .nil hword rest
      have hgoes : goesOnType (dot :: name :: rest) := by
        rw [goesOnType, hbefore, hnext]
        exact Bool.or_true _
      obtain ⟨last, hlast⟩ := htype.exists_afterValue .nil hbefore hgoes (Or.inr ⟨rfl, hplain⟩)
      have hclass : IsNameWord name := ⟨"class", eq_of_beq hname, by decide⟩
      rw [List.nil_append] at hlast
      rw [List.append_assoc, List.cons_append, List.singleton_append, hlast, afterValue_dot hdot,
        afterTypeArguments_of_word hword, afterValue_nameWord hclass]
      exact ⟨true, rfl⟩

theorem IsSuffix.isBefore {last : Ending} (h : IsSuffix last ending row) (rest : List Tree) :
    last.IsBefore (row ++ rest) := by
  cases h with
  | call _ => trivial
  | index _ => trivial
  | member hlast hdot => exact Ending.isBefore_of_dot hdot hlast _
  | template hlast hdot => exact Ending.isBefore_of_dot hdot hlast _
  | creation hlast hdot => exact Ending.isBefore_of_dot hdot hlast _
  | reference hfirst => exact Ending.isBefore_of_endsType (endsType_of_isSymbol hfirst (by decide) _) _
  | increment hchar hfirst =>
      have hnot : ∀ char ∈ ['+', '-'], char ∉ ['<', '.', '@'] := by simp
      exact Ending.isBefore_of_endsType (endsType_of_isSymbol hfirst (hnot _ hchar) _) _
  | instanceOf hkeyword =>
      have hword := endsClassType_of_word?_isSome (word?_isSome_of_isWord hkeyword)
      exact Ending.isBefore_of_endsType (hword.endsType _) _

theorem IsSuffix.exists_afterValue
    {last : Ending} (h : IsSuffix last ending row) (hrest : ClosesNoType rest)
    (hends : ending.IsBefore rest) (before : Bool) :
    ∃ ended, afterValue before (row ++ rest) = afterValue ended rest := by
  cases h with
  | call hgroup => exact ⟨_, afterValue_group hgroup before rest⟩
  | index hgroup => exact ⟨_, afterValue_group hgroup before rest⟩
  | member _ hdot htypes hname =>
      refine ⟨true, ?_⟩
      rw [List.cons_append, List.append_assoc, List.singleton_append, afterValue_dot hdot,
        afterTypeArguments_append htypes (afterTypeArguments_of_word hname.word?_isSome rest),
        afterValue_nameWord hname]
  | template _ hdot htree =>
      refine ⟨true, ?_⟩
      rw [List.cons_append, List.singleton_append, afterValue_dot hdot,
        (endsTypeUse_literal htree rest).arguments, afterValue_literal htree]
  | creation _ hdot hrow =>
      obtain ⟨keyword, more, rfl, hkeyword⟩ := hrow.exists_eq_cons
      rw [List.cons_append, afterValue_dot hdot, List.cons_append,
        afterTypeArguments_of_word (word?_isSome_of_isWord hkeyword)]
      exact hrow.exists_afterValue hends
  | reference hfirst hsecond htypes hname =>
      rw [List.cons_append, List.cons_append, List.append_assoc, List.singleton_append,
        afterValue_colons hfirst hsecond]
      exact exists_afterValue_colons htypes hname rest
  | increment hchar hfirst hsecond =>
      have hsigns : ∀ char ∈ ['+', '-'], char ∈ '?' :: operatorSigns ∧ char ≠ '>' := by
        simp [operatorSigns]
      obtain ⟨hmem, hne⟩ := hsigns _ hchar
      refine ⟨false, ?_⟩
      rw [List.cons_append, List.singleton_append,
        afterValue_operatorSign hfirst hmem (ClosesNoType.sign hsecond hne hrest),
        afterValue_operatorSign hsecond hmem hrest]
  | instanceOf hkeyword hpattern =>
      obtain ⟨ended, hread, -⟩ := hpattern.exists_afterValue hkeyword hends before
      exact ⟨ended, hread⟩

theorem IsLambdaHead.afterValue_eq
    (h : IsLambdaHead row) (hrest : ClosesNoType rest) (hgoes : goesOnType rest = false) :
    afterValue false (row ++ rest) = afterValue false rest := by
  obtain @⟨parameters, minus, greater, hparameters, hminus, hgreater⟩ := h
  have harrow : IsOperator [minus, greater] :=
    .cons hminus (by decide) (.last hgreater (by decide))
  have hsigns := harrow.afterValue_eq hrest hgoes
  rcases hparameters with hword | hround
  · exact (afterValue_nameWord hword _).trans (hsigns true)
  · exact (afterValue_group hround false _).trans (hsigns false)

/-- An expression is passed over to its end. -/
theorem IsExpression.exists_afterValue
    (h : IsExpression ending row) (hrest : ClosesNoType rest) (hends : ending.IsBefore rest) :
    ∃ ended, afterValue false (row ++ rest) = afterValue ended rest := by
  induction h generalizing rest with
  | operand hrow => exact hrow.exists_afterValue hends
  | suffix _ hrow ih =>
      obtain ⟨ended, hread⟩ := ih (hrow.closesNoType hrest) (hrow.isBefore rest)
      rw [List.append_assoc, hread]
      exact hrow.exists_afterValue hrest hends ended
  | cast hgroup _ ih =>
      rw [List.cons_append, afterValue_group hgroup]
      exact ih hrest hends
  | unary hsign hchar hvalue ih =>
      have hsigns : ∀ char ∈ ['+', '-', '!', '~'], char ∈ '?' :: operatorSigns := by
        simp [operatorSigns]
      rw [List.cons_append,
        afterValue_operatorSign hsign (hsigns _ hchar) (hvalue.closesNoType hrest)]
      exact ih hrest hends
  | binary _ hoperator hlast hright ihleft ihright =>
      have hgoes := (hright.endsTypeUse rest).goesOnType_eq
      have hafter := hright.closesNoType hrest
      obtain ⟨ended, hread⟩ := ihleft (hoperator.closesNoType hafter hgoes) (hoperator.isBefore hlast _)
      simp only [List.append_assoc]
      rw [hread, hoperator.afterValue_eq hafter hgoes]
      exact ihright hrest hends
  | @conditional first second ending condition left right question colon _ hquestion hleft hcolon hright
      ihcondition ihleft ihright =>
      have hafter := ClosesNoType.sign hcolon (by decide) (hright.closesNoType hrest)
      have hcolons := hright.endsTypeUse rest
      obtain ⟨ended, hread⟩ := ihcondition
        (ClosesNoType.sign hquestion (by decide) (hleft.closesNoType hafter))
        (Ending.isBefore_of_endsType (endsType_of_isSymbol hquestion (by decide) _) first)
      obtain ⟨last, hlast⟩ := ihleft hafter
        (Ending.isBefore_of_endsType (endsType_of_isSymbol hcolon (by decide) _) second)
      simp only [List.append_assoc, List.cons_append]
      rw [hread, afterValue_operatorSign hquestion (by decide) (hleft.closesNoType hafter), hlast,
        afterValue_colon hcolon hcolons.not_colon, hcolons.arguments]
      exact ihright hrest hends
  | lambda hhead hbody ih =>
      have hgoes := (hbody.endsTypeUse rest).goesOnType_eq
      rw [List.append_assoc, hhead.afterValue_eq (hbody.closesNoType hrest) hgoes]
      exact ih hrest hends
  | lambdaBlock hhead hbody =>
      have hgoes := (EndsTypeUse.of_isGroup hbody (by decide) rest).goesOnType_eq
      rw [List.append_assoc, List.singleton_append,
        hhead.afterValue_eq (ClosesNoType.group hbody hrest) hgoes]
      exact ⟨_, afterValue_group hbody false rest⟩

end Values

end ComponentMarkers.Source
