import ComponentMarkers.Proofs.Source.Steps
import Mathlib.Data.List.Forall2

/-!
# Rows that differ in comments

Two rows of trees are alike when they have the same lexemes and the same groups, and what is read of
the comments in them, which is part of dotted names and of `extends` clauses only, is the same up to a
function of the names.  Every reader takes the same trees off both rows, so the units that are read
agree up to that function.
-/

namespace ComponentMarkers.Source

open Text Source.Tree

section Rows

variable (f : String → String) (g : Option String → Option String)

mutual

/-- The trees are the same but for what stands before their tokens. -/
inductive Tree.Alike : Tree → Tree → Prop where
  | leaf (before before' : List String) (lexeme : Lexeme) :
      Tree.Alike (.leaf ⟨before, lexeme⟩) (.leaf ⟨before', lexeme⟩)
  | group {bracket : Bracket} {opening opening' : Token} {inner inner' : List Tree}
      {closing closing' : Option Token} (hinner : RowsAlike inner inner') :
      Tree.Alike (.group bracket opening inner closing) (.group bracket opening' inner' closing')

/-- The rows have trees that are alike, and the names read at any place in them agree up to `f` and `g`. -/
inductive RowsAlike : List Tree → List Tree → Prop where
  | nil : RowsAlike [] []
  | cons {tree tree' : Tree} {rest rest' : List Tree} (htree : Tree.Alike tree tree')
      (hrest : RowsAlike rest rest')
      (hname : (dottedName? (tree :: rest)).map (f ∘ dottedText ∘ Prod.fst) =
        (dottedName? (tree' :: rest')).map (f ∘ dottedText ∘ Prod.fst))
      (hclass : g (extendedClass? (tree :: rest)) = g (extendedClass? (tree' :: rest'))) :
      RowsAlike (tree :: rest) (tree' :: rest')

end

/-- Both rows are read or neither is, the results correspond, and the rows go on alike. -/
inductive ReadAlike {α : Type} (same : α → α → Prop) :
    Option (α × List Tree) → Option (α × List Tree) → Prop where
  | neither : ReadAlike same none none
  | both {one other : α} {rest rest' : List Tree} (hsame : same one other)
      (hrest : RowsAlike f g rest rest') : ReadAlike same (some (one, rest)) (some (other, rest'))

end Rows

variable {f : String → String} {g : Option String → Option String}

theorem ReadAlike.neither_or_both {α : Type} {same : α → α → Prop} {one other : Option (α × List Tree)}
    (h : ReadAlike f g same one other) :
    one = none ∧ other = none ∨
      ∃ result after result' after', one = some (result, after) ∧ other = some (result', after') ∧
        same result result' ∧ RowsAlike f g after after' := by
  cases h with
  | neither => exact Or.inl ⟨rfl, rfl⟩
  | both hsame hrest => exact Or.inr ⟨_, _, _, _, rfl, rfl, hsame, hrest⟩

section Combinations

variable {α β : Type} {same : α → α → Prop} {other : β → β → Prop}
  {found found' more more' : Option (α × List Tree)}

/-- What is made of the results corresponds. -/
theorem ReadAlike.map (h : ReadAlike f g same found found')
    {make make' : α × List Tree → β × List Tree}
    (hmake : ∀ {result result' : α} {after after' : List Tree}, same result result' →
      RowsAlike f g after after' →
      other (make (result, after)).1 (make' (result', after')).1 ∧
        RowsAlike f g (make (result, after)).2 (make' (result', after')).2) :
    ReadAlike f g other (found.map make) (found'.map make') := by
  cases h with
  | neither => exact .neither
  | both hsame hrest =>
      obtain ⟨hother, hafter⟩ := hmake hsame hrest
      exact .both hother hafter

/-- Readers that are tried one after the other read alike if each of them does. -/
theorem ReadAlike.or (h : ReadAlike f g same found found') (hmore : ReadAlike f g same more more') :
    ReadAlike f g same (found.or more) (found'.or more') := by
  cases h with
  | neither => exact hmore
  | both hsame hrest => exact .both hsame hrest

theorem ReadAlike.getD (h : ReadAlike f g same found found') {result result' : α}
    (hsame : same result result') {rest rest' : List Tree} (hrest : RowsAlike f g rest rest') :
    same (found.getD (result, rest)).1 (found'.getD (result', rest')).1 ∧
      RowsAlike f g (found.getD (result, rest)).2 (found'.getD (result', rest')).2 := by
  cases h with
  | neither => exact ⟨hsame, hrest⟩
  | both hfound hafter => exact ⟨hfound, hafter⟩

end Combinations

namespace Tree.Alike

variable {tree tree' : Tree}

theorem word?_eq (h : Tree.Alike f g tree tree') : tree'.word? = tree.word? := by
  cases h with
  | leaf _ _ lexeme => cases lexeme <;> rfl
  | group => rfl

theorem isWord_eq (h : Tree.Alike f g tree tree') (text : String) :
    tree'.isWord text = tree.isWord text := by
  rw [isWord, isWord, h.word?_eq]

theorem isSymbol_eq (h : Tree.Alike f g tree tree') (char : Char) :
    tree'.isSymbol char = tree.isSymbol char := by
  cases h with
  | leaf _ _ lexeme => cases lexeme <;> rfl
  | group => rfl

theorem isGroup_eq (h : Tree.Alike f g tree tree') (bracket : Bracket) :
    tree'.isGroup bracket = tree.isGroup bracket := by
  cases h with
  | leaf => rfl
  | group => rfl

end Tree.Alike

section Names

variable {trees trees' : List Tree}

theorem RowsAlike.moreSegments (h : RowsAlike f g trees trees') :
    RowsAlike f g (Source.moreSegments trees).2 (Source.moreSegments trees').2 := by
  fun_induction Source.moreSegments trees generalizing trees' with
  | case1 dot segment rest hsegment more after hmore ih =>
      cases h with
      | cons hdot hsegments =>
          cases hsegments with
          | cons hword hrest =>
              rw [Source.moreSegments, hdot.isSymbol_eq, hword.word?_eq, if_pos hsegment]
              have hafter := ih hrest
              rw [hmore] at hafter
              exact hafter
  | case2 dot segment rest hsegment =>
      have hall := h
      cases h with
      | cons hdot hsegments =>
          cases hsegments with
          | cons hword hrest =>
              rw [Source.moreSegments, hdot.isSymbol_eq, hword.word?_eq, if_neg hsegment]
              exact hall
  | case3 trees hshort =>
      have hall := h
      cases h with
      | nil => exact hall
      | cons hdot hsegments =>
          cases hsegments with
          | nil => exact hall
          | cons => exact absurd rfl (hshort _ _ _)

theorem RowsAlike.dottedName? (h : RowsAlike f g trees trees') :
    ReadAlike f g (fun name name' => f (dottedText name) = f (dottedText name'))
      (Source.dottedName? trees) (Source.dottedName? trees') := by
  cases h with
  | nil => exact .neither
  | @cons tree tree' rest rest' htree hrest hname =>
      have hafter := hrest.moreSegments
      rw [Source.dottedName?, Source.dottedName?, htree.word?_eq] at hname ⊢
      cases hword : tree.word? with
      | none => exact .neither
      | some word =>
          rw [hword] at hname
          exact .both (Option.some.inj hname) hafter

theorem RowsAlike.afterArguments (h : RowsAlike f g trees trees') :
    RowsAlike f g (Source.afterArguments trees) (Source.afterArguments trees') := by
  have hall := h
  cases h with
  | nil => exact hall
  | @cons tree tree' rest rest' htree hrest =>
      rw [Source.afterArguments, Source.afterArguments, htree.isGroup_eq]
      by_cases hround : tree.isGroup .round
      · rw [if_pos hround, if_pos hround]
        exact hrest
      · rw [if_neg hround, if_neg hround]
        exact hall

/-- The name of an annotation, up to `f`. -/
def AnnotationNode.renamed (f : String → String) (node : AnnotationNode) : String :=
  f (dottedText node.name)

theorem RowsAlike.annotation? (h : RowsAlike f g trees trees') :
    ReadAlike f g (fun node node' => node.renamed f = node'.renamed f) (Source.annotation? trees)
      (Source.annotation? trees') := by
  cases h with
  | nil => exact .neither
  | @cons tree tree' rest rest' htree hrest =>
      rw [Source.annotation?, Source.annotation?, htree.isSymbol_eq]
      by_cases hat : tree.isSymbol '@'
      · rw [if_pos hat, if_pos hat]
        exact hrest.dottedName?.map fun hname hafter => ⟨hname, hafter.afterArguments⟩
      · rw [if_neg hat, if_neg hat]
        exact .neither

end Names

section Modifiers

variable {trees trees' : List Tree}

theorem RowsAlike.isModifier_eq (h : RowsAlike f g trees trees') :
    isModifier trees' = isModifier trees := by
  cases h with
  | nil => rfl
  | @cons tree tree' rest rest' htree hrest =>
      rw [isModifier.eq_def, isModifier.eq_def (tree :: rest)]
      dsimp only
      rw [htree.word?_eq]
      cases hrest with
      | nil => rfl
      | cons hnext =>
          dsimp only
          rw [hnext.word?_eq, hnext.isSymbol_eq]

/-- The annotations have the same names up to `f`. -/
def SameAnnotations (f : String → String) (nodes nodes' : List AnnotationNode) : Prop :=
  nodes.map (AnnotationNode.renamed f) = nodes'.map (AnnotationNode.renamed f)

theorem SameAnnotations.cons
    {node node' : AnnotationNode} {nodes nodes' : List AnnotationNode}
    (hfirst : node.renamed f = node'.renamed f) (hrest : SameAnnotations f nodes nodes') :
    SameAnnotations f (node :: nodes) (node' :: nodes') := by
  rw [SameAnnotations] at hrest ⊢
  rw [List.map_cons, List.map_cons, hfirst, hrest]

theorem SameAnnotations.append
    {nodes nodes' more more' : List AnnotationNode} (hnodes : SameAnnotations f nodes nodes')
    (hmore : SameAnnotations f more more') :
    SameAnnotations f (nodes ++ more) (nodes' ++ more') := by
  rw [SameAnnotations] at hnodes hmore ⊢
  rw [List.map_append, List.map_append, hnodes, hmore]

/-- Declarations with the same annotations have the same names of annotations up to `f`. -/
theorem SameAnnotations.map_annotationNames
    {modifiers modifiers' own own' : List AnnotationNode}
    (hmodifiers : SameAnnotations f modifiers modifiers') (hown : SameAnnotations f own own') :
    (annotationNames modifiers own).map f = (annotationNames modifiers' own').map f := by
  rw [annotationNames, annotationNames, List.map_map, List.map_map]
  exact hmodifiers.append hown

/-- The names of the annotations are the same up to `f`, and the rows go on alike. -/
def NamesAlike (f : String → String) (g : Option String → Option String)
    (one other : List AnnotationNode × List Tree) : Prop :=
  SameAnnotations f one.1 other.1 ∧ RowsAlike f g one.2 other.2

theorem RowsAlike.modifiers (h : RowsAlike f g trees trees') :
    NamesAlike f g (Source.modifiers trees) (Source.modifiers trees') := by
  induction hlength : trees.length using Nat.strongRecOn generalizing trees trees' with
  | ind length ih =>
      subst hlength
      rcases h.annotation?.neither_or_both with
        ⟨hone, hother⟩ | ⟨name, after, name', after', hone, hother, hnames, hafter⟩
      · have hall := h
        cases h with
        | nil =>
            rw [modifiers_nil]
            exact ⟨rfl, .nil⟩
        | @cons tree tree' rest rest' htree hrest =>
            rw [modifiers_of_cons hone, modifiers_of_cons hother, hall.isModifier_eq]
            by_cases hmodifier : isModifier (tree :: rest)
            · rw [if_pos hmodifier, if_pos hmodifier]
              exact ih _ (Nat.lt_succ_self _) hrest rfl
            · rw [if_neg hmodifier, if_neg hmodifier]
              exact ⟨rfl, hall⟩
      · obtain ⟨hrest, hfinal⟩ := ih _ (annotation?_length hone) hafter rfl
        rw [modifiers_of_annotation? hone, modifiers_of_annotation? hother]
        exact ⟨.cons hnames hrest, hfinal⟩

theorem RowsAlike.annotations (h : RowsAlike f g trees trees') :
    NamesAlike f g (Source.annotations trees) (Source.annotations trees') := by
  induction hlength : trees.length using Nat.strongRecOn generalizing trees trees' with
  | ind length ih =>
      subst hlength
      rcases h.annotation?.neither_or_both with
        ⟨hone, hother⟩ | ⟨name, after, name', after', hone, hother, hnames, hafter⟩
      · rw [annotations_eq, annotations_eq trees', hone, hother]
        exact ⟨rfl, h⟩
      · obtain ⟨hrest, hfinal⟩ := ih _ (annotation?_length hone) hafter rfl
        rw [annotations_eq, annotations_eq trees', hone, hother]
        exact ⟨.cons hnames hrest, hfinal⟩

end Modifiers

section Types

variable {trees trees' : List Tree}

/-- The results of two readings are of no interest. -/
def Whatever {α : Type} : α → α → Prop :=
  fun _ _ => True

/-- Angle groups have the same trees up to comments. -/
theorem RowsAlike.angleGroup? (h : RowsAlike f g trees trees') (level : Nat) :
    ReadAlike f g (List.Forall₂ (Tree.Alike f g)) (Source.angleGroup? level trees)
      (Source.angleGroup? level trees') := by
  fun_induction Source.angleGroup? level trees generalizing trees' with
  | case1 =>
      cases h
      exact .neither
  | case2 level tree rest hopen ih =>
      cases h with
      | cons htree hrest =>
          rw [Source.angleGroup?, htree.isSymbol_eq, if_pos hopen]
          exact (ih hrest).map fun hinner hafter => ⟨.cons htree hinner, hafter⟩
  | case3 level tree rest hopen hclose hlevel =>
      cases h with
      | cons htree hrest =>
          rw [Source.angleGroup?, htree.isSymbol_eq, htree.isSymbol_eq, if_neg hopen, if_pos hclose,
            if_pos hlevel]
          exact .both (.cons htree .nil) hrest
  | case4 level tree rest hopen hclose hlevel ih =>
      cases h with
      | cons htree hrest =>
          rw [Source.angleGroup?, htree.isSymbol_eq, htree.isSymbol_eq, if_neg hopen, if_pos hclose,
            if_neg hlevel]
          exact (ih hrest).map fun hinner hafter => ⟨.cons htree hinner, hafter⟩
  | case5 level tree rest hopen hclose hend =>
      cases h with
      | cons htree hrest =>
          rw [Source.angleGroup?, htree.isSymbol_eq, htree.isSymbol_eq, htree.isSymbol_eq,
            htree.isGroup_eq, if_neg hopen, if_neg hclose, if_pos hend]
          exact .neither
  | case6 level tree rest hopen hclose hend ih =>
      cases h with
      | cons htree hrest =>
          rw [Source.angleGroup?, htree.isSymbol_eq, htree.isSymbol_eq, htree.isSymbol_eq,
            htree.isGroup_eq, if_neg hopen, if_neg hclose, if_neg hend]
          exact (ih hrest).map fun hinner hafter => ⟨.cons htree hinner, hafter⟩

theorem RowsAlike.typeArguments? (h : RowsAlike f g trees trees') :
    ReadAlike f g (List.Forall₂ (Tree.Alike f g)) (Source.typeArguments? trees)
      (Source.typeArguments? trees') := by
  have hall := h
  cases h with
  | nil => exact .neither
  | @cons tree tree' rest rest' htree hrest =>
      rw [Source.typeArguments?, Source.typeArguments?, htree.isSymbol_eq]
      by_cases hopen : tree.isSymbol '<'
      · rw [if_pos hopen, if_pos hopen]
        exact hall.angleGroup? 0
      · rw [if_neg hopen, if_neg hopen]
        exact .neither

theorem RowsAlike.afterTypeArguments (h : RowsAlike f g trees trees') :
    RowsAlike f g (Source.afterTypeArguments trees) (Source.afterTypeArguments trees') := by
  rcases h.typeArguments?.neither_or_both with
    ⟨hone, hother⟩ | ⟨inner, after, inner', after', hone, hother, -, hafter⟩
  · rw [Source.afterTypeArguments, Source.afterTypeArguments, hone, hother]
    exact h
  · rw [Source.afterTypeArguments, Source.afterTypeArguments, hone, hother]
    exact hafter

theorem RowsAlike.nextTypeName? (h : RowsAlike f g trees trees') :
    ReadAlike f g Whatever (Source.nextTypeName? trees) (Source.nextTypeName? trees') := by
  cases h with
  | nil => exact .neither
  | @cons dot dot' rest rest' hdot hrest =>
      have hnames := hrest.annotations.2
      rw [Source.nextTypeName?, Source.nextTypeName?, hdot.isSymbol_eq]
      by_cases hsymbol : dot.isSymbol '.'
      · rw [if_pos hsymbol, if_pos hsymbol]
        generalize (Source.annotations rest).2 = row at hnames ⊢
        generalize (Source.annotations rest').2 = row' at hnames ⊢
        cases hnames with
        | nil => exact .neither
        | @cons name name' after after' hname hafter =>
            dsimp only
            rw [hname.word?_eq]
            by_cases hword : name.word?.isSome
            · rw [if_pos hword, if_pos hword]
              exact .both trivial hafter
            · rw [if_neg hword, if_neg hword]
              exact .neither
      · rw [if_neg hsymbol, if_neg hsymbol]
        exact .neither

theorem RowsAlike.classTypeTail (h : RowsAlike f g trees trees') :
    RowsAlike f g (Source.classTypeTail trees).2 (Source.classTypeTail trees').2 := by
  induction hlength : trees.length using Nat.strongRecOn generalizing trees trees' with
  | ind length ih =>
      subst hlength
      rcases h.afterTypeArguments.nextTypeName?.neither_or_both with
        ⟨hone, hother⟩ | ⟨name, more, name', more', hone, hother, -, hmore⟩
      · rw [classTypeTail_eq, classTypeTail_eq trees', hone, hother]
        exact h.afterTypeArguments
      · rw [classTypeTail_eq, classTypeTail_eq trees', hone, hother]
        apply ih _ _ hmore rfl
        exact Nat.lt_of_lt_of_le (nextTypeName?_length hone) (afterTypeArguments_length trees)

/-- Both rows go on and are alike there, or neither goes on. -/
def AfterAlike (f : String → String) (g : Option String → Option String)
    (one other : Option (List Tree)) : Prop :=
  ReadAlike f g Whatever (one.map ((), ·)) (other.map ((), ·))

theorem AfterAlike.neither_or_both {one other : Option (List Tree)} (h : AfterAlike f g one other) :
    one = none ∧ other = none ∨
      ∃ after after', one = some after ∧ other = some after' ∧ RowsAlike f g after after' := by
  cases one with
  | none =>
      cases other with
      | none => exact Or.inl ⟨rfl, rfl⟩
      | some after' => cases h
  | some after =>
      cases other with
      | none => cases h
      | some after' =>
          cases h with
          | both _ hafter => exact Or.inr ⟨after, after', rfl, rfl, hafter⟩

theorem RowsAlike.dimension? (h : RowsAlike f g trees trees') :
    AfterAlike f g (Source.dimension? trees) (Source.dimension? trees') := by
  have hnames := h.annotations.2
  rw [Source.dimension?, Source.dimension?]
  generalize (Source.annotations trees).2 = row at hnames ⊢
  generalize (Source.annotations trees').2 = row' at hnames ⊢
  cases hnames with
  | nil => exact .neither
  | @cons tree tree' rest rest' htree hrest =>
      dsimp only
      rw [htree.isGroup_eq]
      by_cases hsquare : tree.isGroup .square
      · rw [if_pos hsquare, if_pos hsquare]
        exact .both trivial hrest
      · rw [if_neg hsquare, if_neg hsquare]
        exact .neither

theorem RowsAlike.afterDimensions (h : RowsAlike f g trees trees') :
    RowsAlike f g (Source.afterDimensions trees) (Source.afterDimensions trees') := by
  induction hlength : trees.length using Nat.strongRecOn generalizing trees trees' with
  | ind length ih =>
      subst hlength
      rcases h.dimension?.neither_or_both with ⟨hone, hother⟩ | ⟨after, after', hone, hother, hafter⟩
      · rw [afterDimensions_eq, afterDimensions_eq trees', hone, hother]
        exact h
      · rw [afterDimensions_eq, afterDimensions_eq trees', hone, hother]
        exact ih _ (dimension?_length hone) hafter rfl

theorem RowsAlike.typeReference? (h : RowsAlike f g trees trees') :
    ReadAlike f g Whatever (Source.typeReference? trees) (Source.typeReference? trees') := by
  have hnames := h.annotations.2
  rw [Source.typeReference?, Source.typeReference?]
  generalize (Source.annotations trees).2 = row at hnames ⊢
  generalize (Source.annotations trees').2 = row' at hnames ⊢
  cases hnames with
  | nil => exact .neither
  | @cons tree tree' rest rest' htree hrest =>
      dsimp only
      rw [htree.word?_eq]
      cases tree.word? with
      | none => exact .neither
      | some word =>
          dsimp only
          by_cases hprimitive : primitiveTypes.contains word
          · rw [if_pos hprimitive, if_pos hprimitive]
            exact .both trivial hrest.afterDimensions
          · rw [if_neg hprimitive, if_neg hprimitive]
            have hfinal := hrest.classTypeTail.afterDimensions
            split
            · split
              · exact .both trivial hfinal
              · exact .both trivial hfinal
            · split
              · exact .both trivial hfinal
              · exact .both trivial hfinal

end Types

section Values

variable {trees trees' : List Tree}

theorem RowsAlike.startsReference_eq (h : RowsAlike f g trees trees') :
    startsReference trees' = startsReference trees := by
  cases h with
  | nil => rfl
  | cons hone hrest =>
      cases hrest with
      | nil => rfl
      | cons hother => rw [startsReference, startsReference, hone.isSymbol_eq, hother.isSymbol_eq]

theorem RowsAlike.afterType (h : RowsAlike f g trees trees') :
    RowsAlike f g (Source.afterType trees) (Source.afterType trees') := by
  rcases h.typeReference?.neither_or_both with
    ⟨hone, hother⟩ | ⟨name, after, name', after', hone, hother, -, hafter⟩
  · rw [Source.afterType, Source.afterType, hone, hother]
    exact h
  · rw [Source.afterType, Source.afterType, hone, hother]
    exact hafter

theorem RowsAlike.goesOnType_eq (h : RowsAlike f g trees trees') :
    goesOnType trees' = goesOnType trees := by
  rw [goesOnType, goesOnType, h.afterDimensions.startsReference_eq]
  rcases h.afterDimensions.nextTypeName?.neither_or_both with
    ⟨hone, hother⟩ | ⟨_, _, _, _, hone, hother, -, -⟩
  · rw [hone, hother]
  · rw [hone, hother]
    rfl

theorem RowsAlike.referenceArguments? (h : RowsAlike f g trees trees') :
    AfterAlike f g (Source.referenceArguments? trees) (Source.referenceArguments? trees') := by
  rcases h.typeArguments?.neither_or_both with
    ⟨hone, hother⟩ | ⟨inner, after, inner', after', hone, hother, -, hafter⟩
  · rw [Source.referenceArguments?, Source.referenceArguments?, hone, hother]
    exact .neither
  · rw [Source.referenceArguments?, Source.referenceArguments?, hone, hother]
    dsimp only
    rw [hafter.goesOnType_eq]
    split
    · exact .both trivial hafter
    · exact .neither

theorem RowsAlike.referenceAnnotation? (h : RowsAlike f g trees trees') :
    AfterAlike f g (Source.referenceAnnotation? trees) (Source.referenceAnnotation? trees') := by
  rcases h.annotation?.neither_or_both with
    ⟨hone, hother⟩ | ⟨name, after, name', after', hone, hother, -, hafter⟩
  · rw [Source.referenceAnnotation?, Source.referenceAnnotation?, hone, hother]
    exact .neither
  · rw [Source.referenceAnnotation?, Source.referenceAnnotation?, hone, hother]
    dsimp only
    rw [hafter.afterType.startsReference_eq]
    split
    · exact .both trivial hafter
    · exact .neither

theorem RowsAlike.tail (h : RowsAlike f g trees trees') : RowsAlike f g trees.tail trees'.tail := by
  cases h with
  | nil => exact .nil
  | cons _ hrest => exact hrest

theorem RowsAlike.afterColons (h : RowsAlike f g trees trees') :
    RowsAlike f g (Source.afterColons trees) (Source.afterColons trees') := by
  have hafter := h.afterTypeArguments
  rw [Source.afterColons, Source.afterColons]
  generalize Source.afterTypeArguments trees = row at hafter ⊢
  generalize Source.afterTypeArguments trees' = row' at hafter ⊢
  have hall := hafter
  cases hafter with
  | nil => exact hall
  | cons htree hrest =>
      dsimp only
      rw [htree.isWord_eq]
      split
      · exact hrest
      · exact hall

theorem RowsAlike.afterPart {tree tree' : Tree}
    (h : RowsAlike f g (tree :: trees) (tree' :: trees')) :
    RowsAlike f g (Source.afterPart tree trees) (Source.afterPart tree' trees') := by
  have harguments := h.referenceArguments?
  have hannotation := h.referenceAnnotation?
  have hcolons := h.startsReference_eq
  cases h with
  | cons htree hrest =>
      rw [Source.afterPart, Source.afterPart, htree.isWord_eq, htree.isWord_eq, htree.isSymbol_eq,
        htree.isSymbol_eq, hcolons]
      split
      · exact hrest.annotations.2.afterTypeArguments.afterType
      split
      · exact hrest.modifiers.2.afterType
      split
      · exact hrest.tail.afterColons
      split
      · exact hrest.afterTypeArguments
      rcases harguments.neither_or_both with ⟨hone, hother⟩ | ⟨after, after', hone, hother, hafter⟩
      · rw [hone, hother]
        rcases hannotation.neither_or_both with ⟨hone, hother⟩ | ⟨after, after', hone, hother, hafter⟩
        · rw [hone, hother]
          exact hrest
        · rw [hone, hother]
          exact hafter
      · rw [hone, hother]
        exact hafter

theorem Tree.Alike.endsOperand_eq {tree tree' : Tree} (h : Tree.Alike f g tree tree') (ended : Bool) :
    endsOperand ended tree' = endsOperand ended tree := by
  cases h with
  | leaf _ _ lexeme => cases lexeme <;> rfl
  | @group bracket => cases bracket <;> rfl

theorem RowsAlike.afterValue (h : RowsAlike f g trees trees') (ended : Bool) :
    RowsAlike f g (Source.afterValue ended trees) (Source.afterValue ended trees') := by
  fun_induction Source.afterValue ended trees generalizing trees' with
  | case1 =>
      cases h
      rw [Source.afterValue]
      exact .nil
  | case2 ended tree rest hend =>
      have hall := h
      cases h with
      | cons htree hrest =>
          rw [Source.afterValue.eq_def ended (_ :: _)]
          dsimp only
          rw [htree.isSymbol_eq, htree.isSymbol_eq, startsAnew, htree.word?_eq]
          rw [startsAnew] at hend
          rw [if_pos hend]
          exact hall
  | case3 ended tree rest hend _ ih =>
      have hall := h
      cases h with
      | cons htree hrest =>
          rw [Source.afterValue.eq_def ended (_ :: _)]
          dsimp only
          rw [htree.isSymbol_eq, htree.isSymbol_eq, startsAnew, htree.word?_eq, htree.endsOperand_eq]
          rw [startsAnew] at hend
          rw [if_neg hend]
          exact ih hall.afterPart

theorem RowsAlike.afterInitializer (h : RowsAlike f g trees trees') :
    RowsAlike f g (Source.afterInitializer trees) (Source.afterInitializer trees') := by
  have hall := h
  cases h with
  | nil => exact hall
  | cons htree hrest =>
      rw [Source.afterInitializer, Source.afterInitializer, htree.isSymbol_eq]
      split
      · exact hrest.afterValue false
      · exact hall

theorem RowsAlike.afterBlock (h : RowsAlike f g trees trees') :
    RowsAlike f g (Source.afterBlock trees) (Source.afterBlock trees') := by
  fun_induction Source.afterBlock trees generalizing trees' with
  | case1 =>
      cases h
      exact .nil
  | case2 tree rest hend =>
      cases h with
      | cons htree hrest =>
          rw [Source.afterBlock, htree.isSymbol_eq, htree.isGroup_eq, if_pos hend]
          exact hrest
  | case3 tree rest hend ih =>
      cases h with
      | cons htree hrest =>
          rw [Source.afterBlock, htree.isSymbol_eq, htree.isGroup_eq, if_neg hend]
          exact ih hrest

end Values

end ComponentMarkers.Source
