import ComponentMarkers.Proofs.Source.ExtendsClauses

/-!
# Names, annotations, modifiers and types in rows of trees

What stands before the body of a declaration, as rows of trees with any comments in them.  A reader
takes such a row whole, whatever follows it, as long as that cannot belong to the row.  What it makes
of the row depends on the row alone; no more is said of it here.
-/

namespace ComponentMarkers.Source

open Source.Tree

section Names

variable {row rest : List Tree}

/-- The words that are operators. -/
def operatorWords : List String :=
  ["new", "instanceof"]

/-- The tree is a word that names something or stands for a value. -/
def IsNameWord (tree : Tree) : Prop :=
  ∃ text, tree.word? = some text ∧ text ∉ operatorWords

/-- The tree is a word that may be a name of a class type. -/
def IsTypeWord (tree : Tree) : Prop :=
  ∃ text, tree.word? = some text ∧ text ∉ operatorWords ∧ text ∉ primitiveTypes

/-- Further segments of a dotted name: each a dot and a word. -/
inductive AreSegments : List Tree → Prop
  | nil : AreSegments []
  | cons {dot word : Tree} {rest : List Tree} (hdot : dot.isSymbol '.') (hword : IsNameWord word)
      (hrest : AreSegments rest) : AreSegments (dot :: word :: rest)

/-- A dotted name. -/
inductive IsDottedName : List Tree → Prop
  | mk {word : Tree} {rest : List Tree} (hword : IsNameWord word) (hrest : AreSegments rest) :
      IsDottedName (word :: rest)

/-- An annotation, with arguments in round brackets or without. -/
inductive IsAnnotation : List Tree → Prop
  | marker {sign : Tree} {name : List Tree} (hsign : sign.isSymbol '@') (hname : IsDottedName name) :
      IsAnnotation (sign :: name)
  | withArguments {sign arguments : Tree} {name : List Tree} (hsign : sign.isSymbol '@')
      (hname : IsDottedName name) (harguments : arguments.isGroup .round) :
      IsAnnotation (sign :: (name ++ [arguments]))

/-- Annotations one after the other. -/
inductive AreAnnotations : List Tree → Prop
  | nil : AreAnnotations []
  | cons {row rest : List Tree} (hrow : IsAnnotation row) (hrest : AreAnnotations rest) :
      AreAnnotations (row ++ rest)

theorem IsNameWord.word?_isSome {tree : Tree} (h : IsNameWord tree) : tree.word?.isSome := by
  obtain ⟨text, hword, -⟩ := h
  exact Option.isSome_of_eq_some hword

theorem IsTypeWord.isNameWord {tree : Tree} (h : IsTypeWord tree) : IsNameWord tree := by
  obtain ⟨text, hword, htext, -⟩ := h
  exact ⟨text, hword, htext⟩

theorem AreSegments.moreSegments (h : AreSegments row) (hrest : startsSegment rest = false) :
    Source.moreSegments (row ++ rest) = (row, rest) := by
  induction h with
  | nil => exact moreSegments_of_not_startsSegment hrest
  | cons hdot hword _ ih =>
      rw [List.cons_append, List.cons_append, Source.moreSegments, hdot, hword.word?_isSome, ih]
      rfl

theorem IsDottedName.exists_dottedName? (h : IsDottedName row) :
    ∃ name, ∀ rest, startsSegment rest = false → dottedName? (row ++ rest) = some (name, rest) := by
  obtain @⟨word, more, hword, hmore⟩ := h
  obtain ⟨text, htext, -⟩ := hword
  refine ⟨text ++ writtenAll more, fun rest hrest => ?_⟩
  rw [List.cons_append, dottedName?, htext]
  dsimp only
  rw [hmore.moreSegments hrest]

/-- An annotation ends before the row. -/
structure EndsAnnotation (rest : List Tree) : Prop where
  segment : startsSegment rest = false
  arguments : afterArguments rest = rest

theorem endsAnnotation_nil : EndsAnnotation [] :=
  ⟨rfl, rfl⟩

theorem endsAnnotation_cons
    {tree : Tree} (hdot : tree.isSymbol '.' = false) (hround : tree.isGroup .round = false)
    (rest : List Tree) : EndsAnnotation (tree :: rest) := by
  refine ⟨?_, ?_⟩
  · cases rest with
    | nil => rfl
    | cons next more =>
        rw [startsSegment, hdot]
        rfl
  · rw [afterArguments, hround]
    rfl

theorem startsSegment_of_isGroup {tree : Tree} {bracket : Bracket} (h : tree.isGroup bracket)
    (rest : List Tree) : startsSegment (tree :: rest) = false := by
  cases tree with
  | leaf token => cases h
  | group kind opening inner closing =>
      cases rest with
      | nil => rfl
      | cons next more => rfl

theorem IsAnnotation.exists_annotation? (h : IsAnnotation row) :
    ∃ node, ∀ rest, EndsAnnotation rest → annotation? (row ++ rest) = some (node, rest) := by
  cases h with
  | marker hsign hname =>
      obtain ⟨name, hread⟩ := hname.exists_dottedName?
      refine ⟨⟨name⟩, fun rest hrest => ?_⟩
      rw [List.cons_append, annotation?, if_pos hsign, hread rest hrest.segment, Option.map_some]
      dsimp only
      rw [hrest.arguments]
  | withArguments hsign hname harguments =>
      obtain ⟨name, hread⟩ := hname.exists_dottedName?
      refine ⟨⟨name⟩, fun rest _ => ?_⟩
      rw [List.cons_append, List.append_assoc, List.singleton_append, annotation?, if_pos hsign,
        hread _ (startsSegment_of_isGroup harguments rest), Option.map_some]
      dsimp only
      rw [afterArguments, if_pos harguments]

theorem IsAnnotation.exists_eq_cons (h : IsAnnotation row) :
    ∃ sign more, row = sign :: more ∧ sign.isSymbol '@' := by
  cases h with
  | marker hsign _ => exact ⟨_, _, rfl, hsign⟩
  | withArguments hsign _ _ => exact ⟨_, _, rfl, hsign⟩

/-- The tree belongs to no annotation before it and begins none. -/
structure EndsAnnotations (tree : Tree) : Prop where
  not_at : tree.isSymbol '@' = false
  not_dot : tree.isSymbol '.' = false
  not_round : tree.isGroup .round = false

theorem EndsAnnotations.endsAnnotation {tree : Tree} (h : EndsAnnotations tree) (rest : List Tree) :
    EndsAnnotation (tree :: rest) :=
  endsAnnotation_cons h.not_dot h.not_round rest

/-- An annotation ends before another one. -/
theorem endsAnnotation_of_isSymbol_at {sign : Tree} (h : sign.isSymbol '@') (rest : List Tree) :
    EndsAnnotation (sign :: rest) := by
  obtain ⟨before, rfl⟩ := exists_leaf_of_isSymbol h
  exact endsAnnotation_cons rfl rfl rest

theorem AreAnnotations.endsAnnotation
    (h : AreAnnotations row) {tree : Tree} (htree : EndsAnnotations tree) (rest : List Tree) :
    EndsAnnotation (row ++ tree :: rest) := by
  cases h with
  | nil => exact htree.endsAnnotation rest
  | cons hrow _ =>
      obtain ⟨sign, more, rfl, hsign⟩ := hrow.exists_eq_cons
      exact endsAnnotation_of_isSymbol_at hsign _

theorem AreAnnotations.exists_annotations (h : AreAnnotations row) :
    ∃ names, ∀ tree rest, EndsAnnotations tree →
      annotations (row ++ tree :: rest) = (names, tree :: rest) := by
  induction h with
  | nil => exact ⟨[], fun tree rest htree => annotations_of_not_at htree.not_at rest⟩
  | cons hrow hrest ih =>
      obtain ⟨name, hname⟩ := hrow.exists_annotation?
      obtain ⟨names, hnames⟩ := ih
      refine ⟨name :: names, fun tree rest htree => ?_⟩
      rw [List.append_assoc, annotations_eq, hname _ (hrest.endsAnnotation htree rest)]
      dsimp only
      rw [hnames tree rest htree]

end Names

section Modifiers

variable {words : List String} {row : List Tree}

/-- Annotations and some of the given words, one after the other. -/
inductive AreModifiers (words : List String) : List Tree → Prop
  | nil : AreModifiers words []
  | annotation {row rest : List Tree} (hrow : IsAnnotation row) (hrest : AreModifiers words rest) :
      AreModifiers words (row ++ rest)
  | word {tree : Tree} {text : String} {rest : List Tree} (htree : tree.word? = some text)
      (htext : text ∈ words) (hrest : AreModifiers words rest) : AreModifiers words (tree :: rest)

/-- Before the tree annotations and modifiers end, the word `sealed` too if it is among them. -/
structure EndsModifiers (words : List String) (tree : Tree) (rest : List Tree) : Prop
    extends EndsAnnotations tree where
  not_modifier : isModifier (tree :: rest) = false
  after_sealed : "sealed" ∈ words → tree.word?.any fun word => word ≠ "instanceof"

theorem isModifier_of_mem
    {tree : Tree} {text : String} (htree : tree.word? = some text)
    (htext : text ∈ "sealed" :: modifierWords) {rest : List Tree}
    (hsealed : text = "sealed" → ∃ next more, rest = next :: more ∧
      (next.isSymbol '@' || next.word?.any fun word => word ≠ "instanceof") = true) :
    isModifier (tree :: rest) = true := by
  rw [isModifier.eq_def]
  dsimp only
  rw [htree]
  split
  · rename_i hnone
    cases hnone
  · rename_i hsome
    obtain ⟨next, more, rfl, hnext⟩ := hsealed (Option.some.inj hsome)
    exact hnext
  · rename_i hnot hsome
    obtain rfl := Option.some.inj hsome
    rcases List.mem_cons.1 htext with rfl | htext
    · exact absurd rfl hnot
    · exact List.contains_iff_mem.2 htext

/-- What follows a modifier can follow the word `sealed` too. -/
theorem AreModifiers.exists_eq_cons
    (hwords : ∀ word ∈ words, word ∈ "sealed" :: modifierWords) (h : AreModifiers words row)
    {tree : Tree} {rest : List Tree} (htree : EndsModifiers words tree rest) :
    ∃ next more, row ++ tree :: rest = next :: more ∧ next.isSymbol '.' = false ∧
      next.isGroup .round = false ∧
      ("sealed" ∈ words →
        (next.isSymbol '@' || next.word?.any fun word => word ≠ "instanceof") = true) := by
  cases h with
  | nil =>
      refine ⟨tree, rest, rfl, htree.not_dot, htree.not_round, fun hsealed => ?_⟩
      rw [htree.after_sealed hsealed, Bool.or_true]
  | annotation hrow _ =>
      obtain ⟨sign, more, rfl, hsign⟩ := hrow.exists_eq_cons
      obtain ⟨before, rfl⟩ := exists_leaf_of_isSymbol hsign
      exact ⟨_, _, rfl, rfl, rfl, fun _ => rfl⟩
  | word hword htext _ =>
      obtain ⟨before, rfl⟩ := exists_leaf_of_word? hword
      refine ⟨_, _, rfl, rfl, rfl, fun _ => ?_⟩
      have hne : ∀ text ∈ "sealed" :: modifierWords, text ≠ "instanceof" := by decide
      exact decide_eq_true (hne _ (hwords _ htext))

theorem AreModifiers.exists_modifiers
    (hwords : ∀ word ∈ words, word ∈ "sealed" :: modifierWords) (h : AreModifiers words row) :
    ∃ names, ∀ tree rest, EndsModifiers words tree rest →
      modifiers (row ++ tree :: rest) = (names, tree :: rest) := by
  induction h with
  | nil =>
      refine ⟨[], fun tree rest htree => ?_⟩
      have hnone := annotation?_of_not_at htree.not_at rest
      rw [List.nil_append, modifiers_of_cons hnone, htree.not_modifier]
      rfl
  | annotation hrow hrest ih =>
      obtain ⟨name, hname⟩ := hrow.exists_annotation?
      obtain ⟨names, hnames⟩ := ih
      refine ⟨name :: names, fun tree rest htree => ?_⟩
      obtain ⟨next, more, hnext, hdot, hround, -⟩ := hrest.exists_eq_cons hwords htree
      have hread := hname _ (hnext ▸ endsAnnotation_cons hdot hround more)
      rw [List.append_assoc, modifiers_of_annotation? hread, hnames tree rest htree]
  | word hword htext hrest ih =>
      obtain ⟨names, hnames⟩ := ih
      refine ⟨names, fun tree rest htree => ?_⟩
      obtain ⟨next, more, hnext, -, -, hsealed⟩ := hrest.exists_eq_cons hwords htree
      have hmodifier := isModifier_of_mem hword (hwords _ htext)
        fun hsame => ⟨next, more, hnext, hsealed (hsame ▸ htext)⟩
      obtain ⟨before, rfl⟩ := exists_leaf_of_word? hword
      rw [List.cons_append, modifiers_of_cons rfl, if_pos hmodifier, hnames tree rest htree]

end Modifiers

section Types

variable {row rest : List Tree}

/-- Angle brackets that are paired, among trees that no type goes beyond. -/
inductive IsBalanced : List Tree → Prop
  | nil : IsBalanced []
  | cons {tree : Tree} {rest : List Tree} (hopening : tree.isSymbol '<' = false)
      (hclosing : tree.isSymbol '>' = false)
      (hend : (tree.isSymbol ';' || tree.isGroup .curly) = false) (hrest : IsBalanced rest) :
      IsBalanced (tree :: rest)
  | angles {opening closing : Tree} {inner rest : List Tree} (hopening : opening.isSymbol '<')
      (hinner : IsBalanced inner) (hclosing : closing.isSymbol '>') (hrest : IsBalanced rest) :
      IsBalanced (opening :: (inner ++ closing :: rest))

/-- Type arguments or type parameters. -/
inductive AreArguments : List Tree → Prop
  | mk {opening closing : Tree} {inner : List Tree} (hopening : opening.isSymbol '<')
      (hinner : IsBalanced inner) (hclosing : closing.isSymbol '>') :
      AreArguments (opening :: (inner ++ [closing]))

theorem IsBalanced.passesAngles (h : IsBalanced row) : PassesAngles row := by
  induction h with
  | nil => exact isCompositional_passesAngles.nil
  | cons hopening hclosing hend _ ih =>
      exact isCompositional_passesAngles.cons (passesAngles_singleton hopening hclosing hend) ih
  | @angles opening closing inner rest hopening _ hclosing _ ihinner ihrest =>
      intro level after
      have hnot : closing.isSymbol '<' = false := by
        obtain ⟨before, rfl⟩ := exists_leaf_of_isSymbol hclosing
        rfl
      rw [List.cons_append, List.append_assoc, List.cons_append, angleGroup?, if_pos hopening,
        ihinner, angleGroup?, hnot, if_neg Bool.false_ne_true, if_pos hclosing, if_neg (by omega),
        Nat.add_sub_cancel, ihrest, Option.map_map, Option.map_map, Option.map_map]
      congr 1
      funext found
      simp only [Function.comp_apply, List.append_assoc, List.cons_append]

theorem AreArguments.exists_typeArguments? (h : AreArguments row) (rest : List Tree) :
    typeArguments? (row ++ rest) = some (row, rest) := by
  obtain @⟨opening, closing, inner, hopening, hinner, hclosing⟩ := h
  have hnot : closing.isSymbol '<' = false := by
    obtain ⟨before, rfl⟩ := exists_leaf_of_isSymbol hclosing
    rfl
  rw [List.cons_append, List.append_assoc, List.singleton_append, typeArguments?, if_pos hopening,
    angleGroup?, if_pos hopening, hinner.passesAngles, angleGroup?, hnot, if_neg Bool.false_ne_true,
    if_pos hclosing, if_pos (by omega)]
  rfl

theorem AreArguments.afterTypeArguments (h : AreArguments row) (rest : List Tree) :
    Source.afterTypeArguments (row ++ rest) = rest := by
  rw [Source.afterTypeArguments, h.exists_typeArguments?]

/-- Type arguments, or nothing. -/
def MayBeArguments (row : List Tree) : Prop :=
  row = [] ∨ AreArguments row

/-- What follows the first name of a class type. -/
inductive IsTypeTail : List Tree → Prop
  | last {arguments : List Tree} (h : MayBeArguments arguments) : IsTypeTail arguments
  | more {arguments annotations rest : List Tree} {dot name : Tree}
      (harguments : MayBeArguments arguments) (hdot : dot.isSymbol '.')
      (hannotations : AreAnnotations annotations) (hname : IsTypeWord name)
      (hrest : IsTypeTail rest) : IsTypeTail (arguments ++ dot :: (annotations ++ name :: rest))

/-- The dimensions of an array type or of a declarator. -/
inductive AreDimensions : List Tree → Prop
  | nil : AreDimensions []
  | cons {annotations rest : List Tree} {square : Tree} (hannotations : AreAnnotations annotations)
      (hsquare : square.isGroup .square) (hrest : AreDimensions rest) :
      AreDimensions (annotations ++ square :: rest)

/-- A primitive type or a class type, without annotations before it. -/
inductive IsTypeName : List Tree → Prop
  | primitive {word : Tree} {text : String} (hword : word.word? = some text)
      (htext : text ∈ primitiveTypes) : IsTypeName [word]
  | reference {word : Tree} {tail : List Tree} (hword : IsTypeWord word) (htail : IsTypeTail tail) :
      IsTypeName (word :: tail)

/-- A type, without annotations before it. -/
inductive IsType : List Tree → Prop
  | mk {name dimensions : List Tree} (hname : IsTypeName name)
      (hdimensions : AreDimensions dimensions) : IsType (name ++ dimensions)

/-- The words that introduce or modify a declaration, wherever they stand. -/
def declarationWords : List String :=
  modifierWords ++ ["class", "interface", "enum", "@interface"]

/-- The row begins with a word that declares nothing.  The words `record` and `sealed` do so only as the
begin of a longer name. -/
inductive BeginsPlainly : List Tree → Prop
  | word {tree : Tree} {text : String} {rest : List Tree} (htree : tree.word? = some text)
      (htext : text ∉ "record" :: "sealed" :: declarationWords) : BeginsPlainly (tree :: rest)
  | qualified {tree dot : Tree} {text : String} {rest : List Tree} (htree : tree.word? = some text)
      (htext : text ∉ declarationWords) (hdot : dot.isSymbol '.') : BeginsPlainly (tree :: dot :: rest)

theorem isModifier_eq_false
    {tree : Tree} {text : String} (htree : tree.word? = some text) (htext : text ∉ modifierWords)
    {rest : List Tree}
    (hsealed : text = "sealed" → ∀ next ∈ rest.head?, next.isSymbol '@' = false ∧ next.word? = none) :
    isModifier (tree :: rest) = false := by
  rw [isModifier.eq_def]
  dsimp only
  rw [htree]
  split
  · rename_i hnone
    cases hnone
  · rename_i hsome
    cases rest with
    | nil => rfl
    | cons next more =>
        obtain ⟨hat, hword⟩ := hsealed (Option.some.inj hsome) next rfl
        dsimp only
        rw [hat, hword]
        rfl
  · rename_i hsome
    obtain rfl := Option.some.inj hsome
    exact Bool.eq_false_iff.2 (mt List.contains_iff_mem.1 htext)

theorem BeginsPlainly.isModifier_append (h : BeginsPlainly row) (rest : List Tree) :
    isModifier (row ++ rest) = false := by
  cases h with
  | word htree htext =>
      simp only [declarationWords, List.mem_cons, List.mem_append, not_or] at htext
      exact isModifier_eq_false htree htext.2.2.1 fun hsealed => absurd hsealed htext.2.1
  | @qualified tree dot text more htree htext hdot =>
      rw [declarationWords, List.mem_append, not_or] at htext
      refine isModifier_eq_false htree htext.1 fun _ next hnext => ?_
      obtain rfl := Option.some.inj hnext
      obtain ⟨before, rfl⟩ := exists_leaf_of_isSymbol hdot
      exact ⟨rfl, rfl⟩

theorem IsTypeName.exists_eq_cons (h : IsTypeName row) :
    ∃ word more, row = word :: more ∧ word.word?.isSome := by
  cases h with
  | primitive hword _ => exact ⟨_, _, rfl, Option.isSome_of_eq_some hword⟩
  | reference hword _ => exact ⟨_, _, rfl, hword.isNameWord.word?_isSome⟩

theorem IsType.exists_eq_cons (h : IsType row) :
    ∃ word more, row = word :: more ∧ word.word?.isSome := by
  obtain ⟨hname, hdimensions⟩ := h
  obtain ⟨word, more, rfl, hword⟩ := hname.exists_eq_cons
  exact ⟨word, _, rfl, hword⟩

theorem afterTypeArguments_append
    (h : MayBeArguments row) (hrest : afterTypeArguments rest = rest) :
    afterTypeArguments (row ++ rest) = rest := by
  rcases h with rfl | h
  · exact hrest
  · exact h.afterTypeArguments rest

/-- A class type ends before the row, up to dimensions. -/
structure EndsTypeTail (rest : List Tree) : Prop where
  arguments : afterTypeArguments rest = rest
  name : nextTypeName? rest = none

theorem endsTypeTail_cons
    {tree : Tree} (hopening : tree.isSymbol '<' = false) (hdot : tree.isSymbol '.' = false)
    (rest : List Tree) : EndsTypeTail (tree :: rest) := by
  refine ⟨afterTypeArguments_of_not_angle hopening rest, ?_⟩
  rw [nextTypeName?, hdot]
  rfl

/-- A type ends before the row. -/
structure EndsType (rest : List Tree) : Prop extends EndsTypeTail rest where
  dimensions : afterDimensions rest = rest

theorem EndsClassType.endsType {tree : Tree} (h : EndsClassType tree) (rest : List Tree) :
    EndsType (tree :: rest) :=
  ⟨endsTypeTail_cons h.not_angle h.not_dot rest, afterDimensions_of_not h.not_at h.not_square rest⟩

theorem endsAnnotations_of_word? {tree : Tree} (h : tree.word?.isSome) : EndsAnnotations tree := by
  obtain ⟨text, htext⟩ := Option.isSome_iff_exists.1 h
  obtain ⟨before, rfl⟩ := exists_leaf_of_word? htext
  exact ⟨rfl, rfl, rfl⟩

theorem endsAnnotations_of_square {tree : Tree} (h : tree.isGroup .square) : EndsAnnotations tree := by
  obtain ⟨opening, inner, closing, rfl⟩ := exists_group_of_isGroup h
  exact ⟨rfl, rfl, rfl⟩

theorem exists_nextTypeName?
    {dot name : Tree} {annotations : List Tree} (hdot : dot.isSymbol '.')
    (hannotations : AreAnnotations annotations) (hname : name.word?.isSome) (rest : List Tree) :
    nextTypeName? (dot :: (annotations ++ name :: rest)) =
      some (dot :: (annotations ++ [name]), rest) := by
  obtain ⟨names, hnames⟩ := hannotations.exists_annotations
  have htake : (annotations ++ name :: rest).take
      ((annotations ++ name :: rest).length - rest.length) = annotations ++ [name] := by
    rw [List.append_cons, List.length_append, Nat.add_sub_cancel, List.take_left]
  rw [nextTypeName?, if_pos hdot, hnames name rest (endsAnnotations_of_word? hname)]
  dsimp only
  rw [if_pos hname, htake]

theorem IsTypeTail.exists_classTypeTail (h : IsTypeTail row) :
    ∃ text, ∀ rest, EndsTypeTail rest → classTypeTail (row ++ rest) = (text, rest) := by
  induction h with
  | last harguments =>
      refine ⟨[], fun rest hrest => ?_⟩
      rw [classTypeTail_eq, afterTypeArguments_append harguments hrest.arguments, hrest.name]
  | @more arguments annotations more dot name harguments hdot hannotations hname hmore ih =>
      obtain ⟨read, hread⟩ := ih
      refine ⟨arguments ++ dot :: (annotations ++ [name]) ++ read, fun rest hrest => ?_⟩
      have hangle : dot.isSymbol '<' = false := by
        obtain ⟨before, rfl⟩ := exists_leaf_of_isSymbol hdot
        rfl
      have hafter := afterTypeArguments_append harguments
        (afterTypeArguments_of_not_angle hangle (annotations ++ name :: (more ++ rest)))
      have hrow : arguments ++ dot :: (annotations ++ name :: more) ++ rest =
          arguments ++ dot :: (annotations ++ name :: (more ++ rest)) := by
        simp only [List.append_assoc, List.cons_append]
      rw [hrow, classTypeTail_eq, hafter,
        exists_nextTypeName? hdot hannotations hname.isNameWord.word?_isSome]
      dsimp only
      rw [hread rest hrest, List.length_append, Nat.add_sub_cancel, List.take_left]

theorem AreDimensions.afterDimensions
    (h : AreDimensions row) (hrest : Source.afterDimensions rest = rest) :
    Source.afterDimensions (row ++ rest) = rest := by
  induction h with
  | nil => exact hrest
  | @cons annotations more square hannotations hsquare _ ih =>
      obtain ⟨names, hnames⟩ := hannotations.exists_annotations
      have hread := hnames square (more ++ rest) (endsAnnotations_of_square hsquare)
      have hdimension : dimension? (annotations ++ square :: (more ++ rest)) = some (more ++ rest) := by
        rw [dimension?, hread]
        dsimp only
        rw [if_pos hsquare]
      rw [List.append_assoc, List.cons_append, afterDimensions_eq, hdimension]
      exact ih

theorem AreDimensions.endsTypeTail_of_ne_nil (h : AreDimensions row) (hne : row ≠ []) :
    EndsTypeTail (row ++ rest) := by
  cases h with
  | nil => exact absurd rfl hne
  | cons hannotations hsquare _ =>
      cases hannotations with
      | nil =>
          obtain ⟨opening, inner, closing, rfl⟩ := exists_group_of_isGroup hsquare
          exact endsTypeTail_cons rfl rfl _
      | cons hrow _ =>
          obtain ⟨sign, more, rfl, hsign⟩ := hrow.exists_eq_cons
          obtain ⟨before, rfl⟩ := exists_leaf_of_isSymbol hsign
          exact endsTypeTail_cons rfl rfl _

theorem AreDimensions.endsTypeTail (h : AreDimensions row) (hrest : EndsTypeTail rest) :
    EndsTypeTail (row ++ rest) := by
  by_cases hne : row = []
  · rw [hne]
    exact hrest
  · exact h.endsTypeTail_of_ne_nil hne

/-- A type is read whole, with the annotations before it. -/
theorem IsTypeName.exists_typeReference?
    {annotations dimensions : List Tree} (hannotations : AreAnnotations annotations)
    (h : IsTypeName row) (hdimensions : AreDimensions dimensions) :
    ∃ type, ∀ rest, EndsTypeTail (dimensions ++ rest) → afterDimensions rest = rest →
      typeReference? (annotations ++ (row ++ (dimensions ++ rest))) = some (type, rest) := by
  have hlength : ∀ rest : List Tree, rest.length < (dimensions ++ rest).length ↔ dimensions ≠ [] := by
    intro rest
    rw [List.length_append, ← List.length_pos_iff]
    omega
  obtain ⟨names, hnames⟩ := hannotations.exists_annotations
  cases h with
  | primitive hword htext =>
      refine ⟨if dimensions ≠ [] then .array else .primitive, fun rest _ hrest => ?_⟩
      have hends := endsAnnotations_of_word? (Option.isSome_of_eq_some hword)
      rw [List.singleton_append, typeReference?, hnames _ _ hends]
      dsimp only
      rw [hword]
      dsimp only
      rw [if_pos (List.contains_iff_mem.2 htext), hdimensions.afterDimensions hrest]
      simp only [hlength]
  | @reference word tail hword htail =>
      obtain ⟨text, hword, -, htext⟩ := hword
      obtain ⟨more, hmore⟩ := htail.exists_classTypeTail
      have hends := endsAnnotations_of_word? (Option.isSome_of_eq_some hword)
      refine ⟨if dimensions ≠ [] then .array else .named (text ++ writtenAll more),
        fun rest htail hrest => ?_⟩
      rw [List.cons_append, typeReference?, hnames _ _ hends]
      dsimp only
      rw [hword]
      dsimp only
      rw [if_neg (mt List.contains_iff_mem.1 htext), hmore _ htail]
      dsimp only
      rw [hdimensions.afterDimensions hrest]
      simp only [hlength]

theorem IsType.exists_typeReference?
    {annotations : List Tree} (hannotations : AreAnnotations annotations) (h : IsType row) :
    ∃ type, ∀ rest, EndsType rest →
      typeReference? (annotations ++ (row ++ rest)) = some (type, rest) := by
  obtain @⟨typeName, dimensions, hname, hdimensions⟩ := h
  obtain ⟨type, hread⟩ := hname.exists_typeReference? hannotations hdimensions
  refine ⟨type, fun rest hrest => ?_⟩
  rw [List.append_assoc]
  exact hread rest (hdimensions.endsTypeTail hrest.toEndsTypeTail) hrest.dimensions

end Types

section Angles

variable {row : List Tree}

theorem passesAngles_word {tree : Tree} (h : tree.word?.isSome) : PassesAngles [tree] := by
  obtain ⟨text, htext⟩ := Option.isSome_iff_exists.1 h
  obtain ⟨before, rfl⟩ := exists_leaf_of_word? htext
  exact passesAngles_singleton rfl rfl rfl

theorem passesAngles_sign {tree : Tree} {char : Char} (h : tree.isSymbol char)
    (hchar : char ∉ ['<', '>', ';']) : PassesAngles [tree] := by
  simp only [List.mem_cons, List.not_mem_nil, or_false, not_or] at hchar
  obtain ⟨hopening, hclosing, hend⟩ := hchar
  have hcurly : tree.isGroup .curly = false := by
    obtain ⟨before, rfl⟩ := exists_leaf_of_isSymbol h
    rfl
  refine passesAngles_singleton (isSymbol_eq_false h hopening) (isSymbol_eq_false h hclosing) ?_
  rw [isSymbol_eq_false h hend, hcurly]
  rfl

theorem passesAngles_group {tree : Tree} {bracket : Bracket} (h : tree.isGroup bracket)
    (hbracket : bracket ≠ .curly) : PassesAngles [tree] := by
  obtain ⟨opening, inner, closing, rfl⟩ := exists_group_of_isGroup h
  exact passesAngles_singleton rfl rfl (beq_eq_false_iff_ne.2 hbracket)

theorem PassesAngles.cons {tree : Tree} (htree : PassesAngles [tree]) (hrow : PassesAngles row) :
    PassesAngles (tree :: row) :=
  isCompositional_passesAngles.cons htree hrow

theorem PassesAngles.append {others : List Tree} (hrow : PassesAngles row)
    (hothers : PassesAngles others) : PassesAngles (row ++ others) :=
  isCompositional_passesAngles.append hrow hothers

theorem AreSegments.passesAngles (h : AreSegments row) : PassesAngles row := by
  induction h with
  | nil => exact isCompositional_passesAngles.nil
  | cons hdot hword _ ih =>
      exact (passesAngles_sign hdot (by decide)).cons ((passesAngles_word hword.word?_isSome).cons ih)

theorem IsDottedName.passesAngles (h : IsDottedName row) : PassesAngles row := by
  obtain ⟨hword, hrest⟩ := h
  exact (passesAngles_word hword.word?_isSome).cons hrest.passesAngles

theorem IsAnnotation.passesAngles (h : IsAnnotation row) : PassesAngles row := by
  cases h with
  | marker hsign hname => exact (passesAngles_sign hsign (by decide)).cons hname.passesAngles
  | withArguments hsign hname harguments =>
      have hround := passesAngles_group harguments (by decide)
      exact (passesAngles_sign hsign (by decide)).cons (hname.passesAngles.append hround)

theorem AreAnnotations.passesAngles (h : AreAnnotations row) : PassesAngles row := by
  induction h with
  | nil => exact isCompositional_passesAngles.nil
  | cons hrow _ ih => exact hrow.passesAngles.append ih

theorem AreModifiers.passesAngles {words : List String} (h : AreModifiers words row) :
    PassesAngles row := by
  induction h with
  | nil => exact isCompositional_passesAngles.nil
  | annotation hrow _ ih => exact hrow.passesAngles.append ih
  | word htree _ _ ih => exact (passesAngles_word (Option.isSome_of_eq_some htree)).cons ih

theorem MayBeArguments.passesAngles (h : MayBeArguments row) : PassesAngles row := by
  rcases h with rfl | h
  · exact isCompositional_passesAngles.nil
  · obtain ⟨hopening, hinner, hclosing⟩ := h
    exact (IsBalanced.angles hopening hinner hclosing .nil).passesAngles

theorem IsTypeTail.passesAngles (h : IsTypeTail row) : PassesAngles row := by
  induction h with
  | last harguments => exact harguments.passesAngles
  | more harguments hdot hannotations hname _ ih =>
      have hword := passesAngles_word hname.isNameWord.word?_isSome
      have hsign := passesAngles_sign hdot (by decide)
      exact harguments.passesAngles.append
        (hsign.cons (hannotations.passesAngles.append (hword.cons ih)))

theorem AreDimensions.passesAngles (h : AreDimensions row) : PassesAngles row := by
  induction h with
  | nil => exact isCompositional_passesAngles.nil
  | cons hannotations hsquare _ ih =>
      exact hannotations.passesAngles.append ((passesAngles_group hsquare (by decide)).cons ih)

theorem IsTypeName.passesAngles (h : IsTypeName row) : PassesAngles row := by
  cases h with
  | primitive hword _ => exact passesAngles_word (Option.isSome_of_eq_some hword)
  | reference hword htail =>
      exact (passesAngles_word hword.isNameWord.word?_isSome).cons htail.passesAngles

theorem IsType.passesAngles (h : IsType row) : PassesAngles row := by
  obtain ⟨hname, hdimensions⟩ := h
  exact hname.passesAngles.append hdimensions.passesAngles

end Angles

end ComponentMarkers.Source
