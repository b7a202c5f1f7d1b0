import ComponentMarkers.Proofs.Source.ExpressionEnds

/-!
# Values and defaults

What a field may be set to and what the default of an annotation's element may be.  The reader passes
over both up to the comma or semicolon after them.  A default that is an annotation is the one value of
which it keeps something: the annotation is read as one of the element.
-/

namespace ComponentMarkers.Source

open Source.Tree

section Values

variable {row rest : List Tree}

/-- What a field may be set to: an expression, or the elements of an array. -/
inductive IsValue : List Tree → Prop
  | expression {ending : Ending} {row : List Tree} (hrow : IsExpression ending row) : IsValue row
  | elements {group : Tree} (hgroup : group.isGroup .curly) : IsValue [group]

/-- What the default of an annotation's element may be. -/
inductive IsDefault : List Tree → Prop
  | value {row : List Tree} (hrow : IsValue row) : IsDefault row
  | annotation {row : List Tree} (hrow : IsAnnotation row) : IsDefault row

/-- An equals sign and a value, or nothing. -/
inductive IsInitializer : List Tree → Prop
  | nothing : IsInitializer []
  | value {sign : Tree} {row : List Tree} (hsign : sign.isSymbol '=') (hrow : IsValue row) :
      IsInitializer (sign :: row)

/-- The declarators of some fields, given the names with their dimensions. -/
inductive AreDeclarators : List (Tree × List Tree) → List Tree → Prop
  | last {name : Tree} {dimensions value : List Tree} (hname : IsNameWord name)
      (hdimensions : AreDimensions dimensions) (hvalue : IsInitializer value) :
      AreDeclarators [(name, dimensions)] (name :: (dimensions ++ value))
  | cons {name comma : Tree} {dimensions value rest : List Tree} {heads : List (Tree × List Tree)}
      (hname : IsNameWord name) (hdimensions : AreDimensions dimensions) (hvalue : IsInitializer value)
      (hcomma : comma.isSymbol ',') (hrest : AreDeclarators heads rest) :
      AreDeclarators ((name, dimensions) :: heads) (name :: (dimensions ++ (value ++ comma :: rest)))

theorem endsType_of_end {mark : Tree} (h : mark.isSymbol ',' || mark.isSymbol ';') (rest : List Tree) :
    EndsType (mark :: rest) := by
  rcases Bool.or_eq_true_iff.1 h with h | h
  · exact endsType_of_isSymbol h (by decide) rest
  · exact endsType_of_isSymbol h (by decide) rest

theorem IsValue.closesNoType (h : IsValue row) (hrest : ClosesNoType rest) :
    ClosesNoType (row ++ rest) := by
  cases h with
  | expression hrow => exact hrow.closesNoType hrest
  | elements hgroup => exact ClosesNoType.group hgroup hrest

/-- A value is passed over up to the comma or semicolon after it. -/
theorem IsValue.afterValue
    (h : IsValue row) {mark : Tree} (hmark : mark.isSymbol ',' || mark.isSymbol ';')
    (hrest : ClosesNoType (mark :: rest)) :
    Source.afterValue false (row ++ mark :: rest) = mark :: rest := by
  cases h with
  | expression hrow =>
      obtain ⟨ended, hread⟩ :=
        hrow.exists_afterValue hrest (Ending.isBefore_of_endsType (endsType_of_end hmark rest) _)
      rw [hread, afterValue_of_end hmark]
  | elements hgroup => rw [List.singleton_append, afterValue_group hgroup, afterValue_of_end hmark]

theorem IsInitializer.closesNoType (h : IsInitializer row) (hrest : ClosesNoType rest) :
    ClosesNoType (row ++ rest) := by
  cases h with
  | nothing => exact hrest
  | value hsign hrow => exact ClosesNoType.sign hsign (by decide) (hrow.closesNoType hrest)

/-- What follows the name of a field is passed over up to the comma or semicolon after it. -/
theorem IsInitializer.afterField
    {dimensions : List Tree} (hdimensions : AreDimensions dimensions) (h : IsInitializer row)
    {mark : Tree} (hmark : mark.isSymbol ',' || mark.isSymbol ';')
    (hrest : ClosesNoType (mark :: rest)) :
    Source.afterField (dimensions ++ (row ++ mark :: rest)) = mark :: rest := by
  cases h with
  | nothing =>
      have hequals : mark.isSymbol '=' = false := by
        rcases Bool.or_eq_true_iff.1 hmark with h | h
        · exact isSymbol_eq_false h (by decide)
        · exact isSymbol_eq_false h (by decide)
      rw [Source.afterField, List.nil_append,
        hdimensions.afterDimensions (endsType_of_end hmark rest).dimensions, afterInitializer, hequals]
      rfl
  | @value sign value hsign hrow =>
      have hends := endsType_of_isSymbol hsign (by decide) (value ++ mark :: rest)
      rw [Source.afterField, List.cons_append, hdimensions.afterDimensions hends.dimensions,
        afterInitializer, if_pos hsign, hrow.afterValue hmark hrest]

theorem AreDeclarators.closesNoType
    {heads : List (Tree × List Tree)} (h : AreDeclarators heads row) (hrest : ClosesNoType rest) :
    ClosesNoType (row ++ rest) := by
  induction h with
  | last hname hdimensions hvalue =>
      simp only [List.cons_append, List.append_assoc]
      exact ClosesNoType.word hname.word?_isSome
        (hdimensions.passesAngles.closesNoType (hvalue.closesNoType hrest))
  | cons hname hdimensions hvalue hcomma _ ih =>
      simp only [List.cons_append, List.append_assoc]
      exact ClosesNoType.word hname.word?_isSome (hdimensions.passesAngles.closesNoType
        (hvalue.closesNoType (ClosesNoType.sign hcomma (by decide) ih)))

/-- The names of fields that are declared together are read, whatever the fields are set to. -/
theorem AreDeclarators.declarators
    {heads : List (Tree × List Tree)} (h : AreDeclarators heads row) {mark : Tree}
    (hmark : mark.isSymbol ';') (rest : List Tree) :
    Source.declarators (row ++ mark :: rest) =
      (heads.map fun head => head.1.word?.getD "", mark :: rest) := by
  have hcloses := closesNoType_of_end (Bool.or_eq_true_iff.2 (Or.inl hmark)) rest
  induction h with
  | last hname hdimensions hvalue =>
      obtain ⟨text, htext, -⟩ := hname
      have hafter := hvalue.afterField hdimensions (Bool.or_eq_true_iff.2 (Or.inr hmark)) hcloses
      rw [List.cons_append, List.append_assoc, declarators_of_word htext, hafter]
      dsimp only
      rw [isSymbol_eq_false hmark (by decide), if_neg Bool.false_ne_true, List.map_singleton, htext]
      rfl
  | cons hname hdimensions hvalue hcomma hmore ih =>
      obtain ⟨text, htext, -⟩ := hname
      have hafter := hvalue.afterField hdimensions (Bool.or_eq_true_iff.2 (Or.inl hcomma))
        (ClosesNoType.sign hcomma (by decide) (hmore.closesNoType hcloses))
      simp only [List.cons_append, List.append_assoc]
      rw [declarators_of_word htext, hafter]
      dsimp only
      rw [if_pos hcomma, ih, List.map_cons, htext]
      rfl

end Values

section Defaults

variable {row rest : List Tree}

theorem defaultValue_of_not_at {tree : Tree} (h : tree.isSymbol '@' = false) (rest : List Tree) :
    defaultValue (tree :: rest) = [] := by
  rw [defaultValue, annotation?_of_not_at h]

/-- The annotations before the type of a method reference are none of the element's. -/
theorem defaultValue_annotated
    {annotations type : List Tree} (hannotations : AreAnnotations annotations) (htype : IsType type)
    (hends : EndsType rest) (hrest : startsReference rest) :
    defaultValue (annotations ++ (type ++ rest)) = [] := by
  obtain ⟨word, more, hcons, hword⟩ := htype.exists_eq_cons
  cases hannotations with
  | nil =>
      rw [List.nil_append, hcons]
      exact defaultValue_of_not_at (endsAnnotations_of_word? hword).not_at _
  | @cons first others hrow hothers =>
      obtain ⟨name, hname⟩ := hrow.exists_annotation?
      have hafter := hothers.endsAnnotation (endsAnnotations_of_word? hword) (more ++ rest)
      have hread : afterType (others ++ (type ++ rest)) = rest := by
        obtain ⟨read, hread⟩ := htype.exists_typeReference? hothers
        rw [afterType, hread rest hends]
      rw [← List.cons_append, ← hcons] at hafter
      rw [List.append_assoc, defaultValue, hname _ hafter]
      dsimp only
      rw [hread, if_pos hrest]

theorem IsOperand.defaultValue {ending : Ending} (h : IsOperand ending row) (rest : List Tree) :
    Source.defaultValue (row ++ rest) = [] := by
  cases h with
  | literal htree =>
      refine defaultValue_of_not_at ?_ rest
      unfold isLiteral at htree
      split at htree
      · rfl
      · rfl
      · cases htree
  | decimal hdot => exact defaultValue_of_not_at (isSymbol_eq_false hdot (by decide)) _
  | name htree =>
      exact defaultValue_of_not_at (endsAnnotations_of_word? htree.word?_isSome).not_at rest
  | parentheses hgroup =>
      exact defaultValue_of_not_at (endsClassType_of_isGroup hgroup (by decide)).not_at rest
  | «switch» hkeyword =>
      have hword := word?_isSome_of_isWord hkeyword
      exact defaultValue_of_not_at (endsAnnotations_of_word? hword).not_at _
  | creation hrow =>
      obtain ⟨keyword, more, rfl, hkeyword⟩ := hrow.exists_eq_cons
      have hword := word?_isSome_of_isWord hkeyword
      exact defaultValue_of_not_at (endsAnnotations_of_word? hword).not_at _
  | reference hannotations htype hfirst hsecond =>
      simp only [List.append_assoc, List.cons_append]
      refine defaultValue_annotated hannotations htype
        (endsType_of_isSymbol hfirst (by decide) _) ?_
      rw [startsReference, hfirst, hsecond]
      rfl
  | classLiteral htype =>
      obtain ⟨word, more, rfl, hword⟩ := htype.exists_eq_cons
      exact defaultValue_of_not_at (endsAnnotations_of_word? hword).not_at _

theorem IsLambdaHead.defaultValue (h : IsLambdaHead row) (rest : List Tree) :
    Source.defaultValue (row ++ rest) = [] := by
  obtain @⟨parameters, minus, greater, hparameters, -, -⟩ := h
  refine defaultValue_of_not_at ?_ _
  rcases hparameters with hword | hround
  · exact (endsAnnotations_of_word? hword.word?_isSome).not_at
  · exact (endsClassType_of_isGroup hround (by decide)).not_at

theorem IsExpression.defaultValue
    {ending : Ending} (h : IsExpression ending row) (rest : List Tree) :
    Source.defaultValue (row ++ rest) = [] := by
  induction h generalizing rest with
  | operand hrow => exact hrow.defaultValue rest
  | suffix _ _ ih => exact List.append_assoc _ _ rest ▸ ih _
  | cast hgroup =>
      exact defaultValue_of_not_at (endsClassType_of_isGroup hgroup (by decide)).not_at _
  | unary hsign hchar =>
      have hne : ∀ char ∈ ['+', '-', '!', '~'], char ≠ '@' := by simp
      exact defaultValue_of_not_at (isSymbol_eq_false hsign (hne _ hchar)) _
  | binary _ _ _ _ ih => exact List.append_assoc _ _ rest ▸ ih _
  | conditional _ _ _ _ _ ih => exact List.append_assoc _ _ rest ▸ ih _
  | lambda hhead => exact List.append_assoc _ _ rest ▸ hhead.defaultValue _
  | lambdaBlock hhead => exact List.append_assoc _ _ rest ▸ hhead.defaultValue _

theorem IsValue.defaultValue (h : IsValue row) (rest : List Tree) :
    Source.defaultValue (row ++ rest) = [] := by
  cases h with
  | expression hrow => exact hrow.defaultValue rest
  | elements hgroup =>
      exact defaultValue_of_not_at (endsClassType_of_isGroup hgroup (by decide)).not_at rest

theorem IsAnnotation.exists_defaultValue (h : IsAnnotation row) :
    ∃ node, ∀ rest, EndsAnnotation rest → startsReference (afterType rest) = false →
      defaultValue (row ++ rest) = [node] := by
  obtain ⟨node, hname⟩ := h.exists_annotation?
  refine ⟨node, fun rest hends hrest => ?_⟩
  rw [Source.defaultValue, hname rest hends]
  dsimp only
  rw [hrest]
  rfl

theorem afterType_semicolon {mark : Tree} (h : mark.isSymbol ';') (rest : List Tree) :
    startsReference (afterType (mark :: rest)) = false := by
  have hends : EndsAnnotations mark := by
    obtain ⟨before, rfl⟩ := exists_leaf_of_isSymbol h
    exact ⟨rfl, rfl, rfl⟩
  have htype := afterType_of_annotations .nil hends (word?_of_isSymbol h) rest
  rw [List.nil_append] at htype
  rw [htype, startsReference_cons (isSymbol_eq_false h (by decide))]

/-- What the default of an element adds to the annotations of the element is a matter of the default. -/
theorem IsDefault.defaultValue_append
    (h : IsDefault row) {mark : Tree} (hmark : mark.isSymbol ';') (rest : List Tree) :
    defaultValue (row ++ mark :: rest) = defaultValue row := by
  cases h with
  | value hrow =>
      have hnone := hrow.defaultValue []
      rw [List.append_nil] at hnone
      rw [hrow.defaultValue, hnone]
  | annotation hrow =>
      obtain ⟨name, hname⟩ := hrow.exists_defaultValue
      have hends : EndsAnnotation (mark :: rest) := by
        obtain ⟨before, rfl⟩ := exists_leaf_of_isSymbol hmark
        exact endsAnnotation_cons rfl rfl rest
      have htype : startsReference (afterType []) = false := by
        rw [afterType, typeReference?, annotations_eq]
        rfl
      have hnone := hname [] endsAnnotation_nil htype
      rw [List.append_nil] at hnone
      rw [hname _ hends (afterType_semicolon hmark rest), hnone]

theorem IsDefault.afterValue
    (h : IsDefault row) {mark : Tree} (hmark : mark.isSymbol ';') (rest : List Tree) :
    Source.afterValue false (row ++ mark :: rest) = mark :: rest := by
  have hend := Bool.or_eq_true_iff.2 (Or.inr hmark : mark.isSymbol ',' ∨ mark.isSymbol ';')
  cases h with
  | value hrow => exact hrow.afterValue hend (closesNoType_of_end (by rw [hmark]; rfl) rest)
  | annotation hrow =>
      have hends : EndsAnnotation (mark :: rest) := by
        obtain ⟨before, rfl⟩ := exists_leaf_of_isSymbol hmark
        exact endsAnnotation_cons rfl rfl rest
      rw [hrow.afterValue_of_not_startsReference hends (afterType_semicolon hmark rest),
        afterValue_of_end hend]

end Defaults

end ComponentMarkers.Source
