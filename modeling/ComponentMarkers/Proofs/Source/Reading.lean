import ComponentMarkers.Proofs.Source.Lexing
import ComponentMarkers.Proofs.Source.Outline
import ComponentMarkers.Proofs.Source.Steps

/-!
# Reading printed trees

What each reader makes of the trees of an outline, given what follows them.  A reader takes the trees
of its construct and hands on the rest as it is.
-/

namespace ComponentMarkers.Source

open Text Source.Tree

section Names

theorem withoutBlanks_eq_self {s : String} (h : ∀ c ∈ s.toList, isBlank c = false) :
    withoutBlanks s = s := by
  have hall : s.toList.filter (fun c => !isBlank c) = s.toList := by
    rw [List.filter_eq_self]
    intro c hc
    rw [h c hc]
    rfl
  rw [withoutBlanks, hall, String.ofList_toList]

theorem withoutAngles_append
    {cs : List Char} (h : ∀ c ∈ cs, c ≠ '<' ∧ c ≠ '>') (rest : List Char) :
    withoutAngles 0 (cs ++ rest) = cs ++ withoutAngles 0 rest := by
  induction cs with
  | nil => rfl
  | cons c others ih =>
      obtain ⟨⟨hopening, hclosing⟩, hothers⟩ := List.forall_mem_cons.1 h
      rw [List.cons_append, withoutAngles, if_pos rfl, ih hothers, List.cons_append]
      · exact hopening
      · exact hclosing

theorem withoutAngles_eq_self {cs : List Char} (h : ∀ c ∈ cs, c ≠ '<' ∧ c ≠ '>') :
    withoutAngles 0 cs = cs := by
  have hall := withoutAngles_append h []
  rwa [List.append_nil, withoutAngles, List.append_nil] at hall

/-- Names consist of name characters. -/
theorem isNamePart_of_isName {text : String} (h : isName text) : ∀ c ∈ text.toList, isNamePart c := by
  unfold isName at h
  split at h
  · cases h
  · rename_i c rest htext
    obtain ⟨hstart, hrest⟩ := Bool.and_eq_true_iff.1 h
    rw [htext]
    exact List.forall_mem_cons.2 ⟨isNamePart_of_isNameStart hstart, List.all_eq_true.1 hrest⟩

theorem isBlank_of_isNamePart {c : Char} (h : isNamePart c) : isBlank c = false := by
  rw [← Bool.not_eq_true]
  intro hblank
  rw [isNamePart_of_isBlank hblank] at h
  cases h

theorem ne_angle_of_isNamePart {c : Char} (h : isNamePart c) : c ≠ '<' ∧ c ≠ '>' := by
  have hangles : isNamePart '<' = false ∧ isNamePart '>' = false := by
    decide +kernel
  constructor
  · rintro rfl
    rw [hangles.1] at h
    cases h
  · rintro rfl
    rw [hangles.2] at h
    cases h

theorem Identifier.ne_of_mem_keywords (name : Identifier) {word : String} (h : word ∈ keywords) :
    name.text ≠ word := by
  rintro rfl
  exact name.not_keyword h

/-- The text of further segments. -/
def segmentsText : List Identifier → String
  | [] => ""
  | segment :: rest => "." ++ segment.text ++ segmentsText rest

theorem DottedName.text_eq (name : DottedName) :
    name.text = name.first.text ++ segmentsText name.more := by
  obtain ⟨first, more⟩ := name
  rw [text]
  dsimp only
  induction more generalizing first with
  | nil => rw [List.map_singleton, String.intercalate_singleton, segmentsText, String.append_empty]
  | cons segment rest ih =>
      rw [List.map_cons, List.map_cons, String.intercalate_cons_cons, ← List.map_cons, ih,
        segmentsText, String.append_assoc, String.append_assoc]

theorem writtenAll_segmentTrees (segments : List Identifier) :
    Tree.writtenAll (segmentTrees segments) = segmentsText segments := by
  induction segments with
  | nil => rfl
  | cons segment rest ih =>
      have hdot : (ofSymbol '.').written = "." := rfl
      have hsegment : segment.tree.written = segment.text := String.empty_append
      have hcons : segmentTrees (segment :: rest) =
          ofSymbol '.' :: segment.tree :: segmentTrees rest := rfl
      rw [hcons, Tree.writtenAll, Tree.writtenAll, ih, segmentsText, hdot, hsegment,
        String.append_assoc]

/-- A dotted name has name characters and dots only. -/
theorem DottedName.mem_text (name : DottedName) :
    ∀ c ∈ name.text.toList, isNamePart c ∨ c = '.' := by
  have hmore : ∀ segments, ∀ c ∈ (segmentsText segments).toList, isNamePart c ∨ c = '.' := by
    intro segments
    induction segments with
    | nil =>
        intro c hc
        cases hc
    | cons segment rest ih =>
        intro c hc
        rw [segmentsText, String.toList_append, String.toList_append, List.mem_append,
          List.mem_append] at hc
        rcases hc with (hc | hc) | hc
        · exact Or.inr (List.mem_singleton.1 hc)
        · exact Or.inl (isNamePart_of_isName segment.isName c hc)
        · exact ih c hc
  intro c hc
  rw [name.text_eq, String.toList_append, List.mem_append] at hc
  rcases hc with hc | hc
  · exact Or.inl (isNamePart_of_isName name.first.isName c hc)
  · exact hmore name.more c hc

theorem DottedName.dottedText_text (name : DottedName) : dottedText name.text = name.text := by
  apply withoutBlanks_eq_self
  intro c hc
  rcases name.mem_text c hc with hpart | rfl
  · exact isBlank_of_isNamePart hpart
  · decide

theorem DottedName.className?_named (name : DottedName) :
    (TypeReference.named name.text).className? = some name.text := by
  rw [TypeReference.className?, name.dottedText_text, withoutAngles_eq_self, String.ofList_toList]
  intro c hc
  rcases name.mem_text c hc with hpart | rfl
  · exact ne_angle_of_isNamePart hpart
  · decide

/-- The trees go on with a further segment of a dotted name. -/
def startsSegment : List Tree → Bool
  | dot :: segment :: _ => dot.isSymbol '.' && segment.word?.isSome
  | _ => false

theorem moreSegments_of_not_startsSegment {rest : List Tree} (h : startsSegment rest = false) :
    moreSegments rest = ([], rest) := by
  unfold moreSegments
  split
  · rename_i dot segment more
    rw [startsSegment] at h
    rw [h]
    rfl
  · rfl

/-- Dots and words are read up to what is no further segment. -/
theorem moreSegments_flatMap
    {α : Type} (word : α → String) (segments : List α) {rest : List Tree}
    (h : startsSegment rest = false) :
    moreSegments ((segments.flatMap fun segment => [ofSymbol '.', ofWord (word segment)]) ++ rest) =
      (segments.flatMap fun segment => [ofSymbol '.', ofWord (word segment)], rest) := by
  induction segments with
  | nil => exact moreSegments_of_not_startsSegment h
  | cons segment others ih =>
      rw [List.flatMap_cons, List.append_assoc, List.cons_append, List.singleton_append, moreSegments,
        ih]
      rfl

theorem moreSegments_segmentTrees
    (segments : List Identifier) {rest : List Tree} (h : startsSegment rest = false) :
    moreSegments (segmentTrees segments ++ rest) = (segmentTrees segments, rest) :=
  moreSegments_flatMap Identifier.text segments h

theorem dottedName?_trees
    (name : DottedName) {rest : List Tree} (h : startsSegment rest = false) :
    dottedName? (name.trees ++ rest) = some (name.text, rest) := by
  have hword : name.first.tree.word? = some name.first.text := rfl
  rw [DottedName.trees, List.cons_append, dottedName?, hword]
  dsimp only
  rw [moreSegments_segmentTrees _ h]
  dsimp only
  rw [writtenAll_segmentTrees, ← name.text_eq]

theorem annotation?_trees
    (name : DottedName) {rest : List Tree} (h : startsSegment rest = false)
    (harguments : afterArguments rest = rest) :
    annotation? (ofSymbol '@' :: name.trees ++ rest) = some (⟨name.text⟩, rest) := by
  have hat : (ofSymbol '@').isSymbol '@' = true := rfl
  rw [List.cons_append, annotation?, if_pos hat, dottedName?_trees name h, Option.map_some]
  dsimp only
  rw [harguments]

end Names

section Modifiers

/-- A word that modifies nothing, wherever it stands. -/
def IsPlainWord (word : String) : Prop :=
  word ≠ "sealed" ∧ word ∉ modifierWords

instance (word : String) : Decidable (IsPlainWord word) :=
  inferInstanceAs (Decidable (_ ∧ _))

theorem Identifier.isPlainWord (name : Identifier) : IsPlainWord name.text := by
  have hwords : ∀ word ∈ modifierWords, word ∈ keywords := by
    decide
  refine ⟨name.ne_of_mem_keywords (by decide), fun h => ?_⟩
  exact name.not_keyword (hwords _ h)

theorem modifiers_ofWord {word : String} (h : IsPlainWord word) (rest : List Tree) :
    modifiers (ofWord word :: rest) = ([], ofWord word :: rest) := by
  have hmodifier : isModifier (ofWord word :: rest) = false := by
    have hword : (ofWord word).word? = some word := rfl
    rw [isModifier.eq_def]
    dsimp only
    rw [hword]
    split
    · rename_i hnone
      cases hnone
    · rename_i hsealed
      exact absurd (Option.some.inj hsealed) h.1
    · rename_i found _ hfound
      obtain rfl := Option.some.inj hfound
      exact Bool.eq_false_iff.2 (mt List.contains_iff_mem.1 h.2)
  rw [modifiers_of_cons rfl, hmodifier]
  rfl

/-- What is read of some annotations. -/
def annotationNodes (annotations : List DottedName) : List AnnotationNode :=
  annotations.map fun name => ⟨name.text⟩

theorem annotationNames_annotationNodes (annotations : List DottedName) :
    annotationNames (annotationNodes annotations) [] = annotationTexts annotations := by
  rw [annotationNames, List.append_nil, annotationNodes, List.map_map, annotationTexts]
  exact List.map_congr_left fun name _ => name.dottedText_text

/-- The annotations of a declaration that begins with a word. -/
theorem modifiers_annotationTrees
    (annotations : List DottedName) (word : String) (rest : List Tree) :
    modifiers (annotationTrees annotations ++ ofWord word :: rest) =
      (annotationNodes annotations ++ (modifiers (ofWord word :: rest)).1,
        (modifiers (ofWord word :: rest)).2) := by
  induction annotations with
  | nil => rfl
  | cons name others ih =>
      have hcons : annotationTrees (name :: others) ++ ofWord word :: rest =
          ofSymbol '@' :: name.trees ++ (annotationTrees others ++ ofWord word :: rest) := by
        rw [annotationTrees, List.flatMap_cons, List.append_assoc]
        rfl
      have hnext : startsSegment (annotationTrees others ++ ofWord word :: rest) = false ∧
          afterArguments (annotationTrees others ++ ofWord word :: rest) =
            annotationTrees others ++ ofWord word :: rest := by
        cases others with
        | nil =>
            cases rest with
            | nil => exact ⟨rfl, rfl⟩
            | cons next more => exact ⟨rfl, rfl⟩
        | cons next more => exact ⟨rfl, rfl⟩
      rw [hcons, modifiers_of_annotation? (annotation?_trees name hnext.1 hnext.2), ih]
      rfl

end Modifiers

section Types

variable {tree : Tree} {rest : List Tree}

theorem annotation?_of_not_at (h : tree.isSymbol '@' = false) (rest : List Tree) :
    annotation? (tree :: rest) = none := by
  rw [annotation?, h]
  rfl

theorem annotations_of_not_at (h : tree.isSymbol '@' = false) (rest : List Tree) :
    annotations (tree :: rest) = ([], tree :: rest) := by
  rw [annotations_eq, annotation?_of_not_at h]

theorem afterDimensions_of_not
    (hat : tree.isSymbol '@' = false) (hsquare : tree.isGroup .square = false)
    (rest : List Tree) : afterDimensions (tree :: rest) = tree :: rest := by
  have hnone : dimension? (tree :: rest) = none := by
    rw [dimension?, annotations_of_not_at hat]
    dsimp only
    rw [hsquare]
    rfl
  rw [afterDimensions_eq, hnone]

theorem afterTypeArguments_of_not_angle (h : tree.isSymbol '<' = false) (rest : List Tree) :
    afterTypeArguments (tree :: rest) = tree :: rest := by
  rw [afterTypeArguments, typeArguments?, h]
  rfl

theorem annotations_afterTypeArguments_of_not
    (hat : tree.isSymbol '@' = false) (hangle : tree.isSymbol '<' = false) (rest : List Tree) :
    annotations (afterTypeArguments (tree :: rest)) = ([], tree :: rest) := by
  rw [afterTypeArguments_of_not_angle hangle, annotations_of_not_at hat]

theorem typeReference?_primitive
    {type : String} (htype : type ∈ primitiveTypes) (name : String) (rest : List Tree) :
    typeReference? (ofWord type :: ofWord name :: rest) = some (.primitive, ofWord name :: rest) := by
  have hword : (ofWord type).word? = some type := rfl
  have hafter : afterDimensions (ofWord name :: rest) = ofWord name :: rest :=
    afterDimensions_of_not rfl rfl rest
  rw [typeReference?, annotations_of_not_at rfl]
  dsimp only
  rw [hword]
  dsimp only
  rw [if_pos (List.contains_iff_mem.2 htype), hafter, if_neg (Nat.lt_irrefl _)]

/-- The further names of a class type without arguments, up to a body. -/
theorem classTypeTail_segmentTrees (segments : List Identifier) (inner rest : List Tree) :
    classTypeTail (segmentTrees segments ++ enclosed .curly inner :: rest) =
      (segmentTrees segments, enclosed .curly inner :: rest) := by
  induction segments with
  | nil =>
      rw [segmentTrees, List.flatMap_nil, List.nil_append, classTypeTail_eq]
      rfl
  | cons segment others ih =>
      let more := segmentTrees others ++ enclosed .curly inner :: rest
      have hcons : segmentTrees (segment :: others) ++ enclosed .curly inner :: rest =
          ofSymbol '.' :: segment.tree :: more := rfl
      have harguments : afterTypeArguments (ofSymbol '.' :: segment.tree :: more) =
          ofSymbol '.' :: segment.tree :: more := afterTypeArguments_of_not_angle rfl _
      have hname : nextTypeName? (ofSymbol '.' :: segment.tree :: more) =
          some ([ofSymbol '.', segment.tree], more) := by
        have hdot : (ofSymbol '.').isSymbol '.' = true := rfl
        have hword : segment.tree.word?.isSome = true := rfl
        rw [nextTypeName?, if_pos hdot, annotations_of_not_at rfl]
        dsimp only
        rw [if_pos hword, List.length_cons, Nat.add_sub_cancel_left]
        rfl
      rw [hcons, classTypeTail_eq, harguments, hname, Nat.sub_self]
      dsimp only
      rw [ih]
      rfl

/-- The class that is named up to a body. -/
theorem typeReference?_trees (name : DottedName) (inner rest : List Tree) :
    typeReference? (name.trees ++ enclosed .curly inner :: rest) =
      some (.named name.text, enclosed .curly inner :: rest) := by
  have hprimitive : ∀ word ∈ primitiveTypes, word ∈ keywords := by
    decide
  have hword : name.first.tree.word? = some name.first.text := rfl
  have hnot : ¬ primitiveTypes.contains name.first.text = true := by
    intro h
    exact name.first.not_keyword (hprimitive _ (List.contains_iff_mem.1 h))
  have hafter : afterDimensions (enclosed .curly inner :: rest) = enclosed .curly inner :: rest :=
    afterDimensions_of_not rfl rfl rest
  rw [typeReference?, DottedName.trees, List.cons_append, annotations_of_not_at rfl]
  dsimp only
  rw [hword]
  dsimp only
  rw [if_neg hnot, classTypeTail_segmentTrees]
  dsimp only
  rw [hafter, if_neg (Nat.lt_irrefl _), writtenAll_segmentTrees, ← name.text_eq]

/-- A tree that neither is a body nor ends a statement. -/
def isClausePart (tree : Tree) : Bool :=
  !(tree.isGroup .curly || tree.isSymbol ';')

theorem body?_of_isClausePart
    {trees : List Tree} (h : ∀ tree ∈ trees, isClausePart tree) (opening : Token)
    (inner : List Tree) (closing : Option Token) (rest : List Tree) :
    body? (trees ++ .group .curly opening inner closing :: rest) = some (inner, rest) := by
  induction trees with
  | nil => rfl
  | cons tree others ih =>
      obtain ⟨hself, hothers⟩ := List.forall_mem_cons.1 h
      rw [isClausePart, Bool.not_eq_true', Bool.or_eq_false_iff] at hself
      rw [List.cons_append, body?_of_not_curly hself.1, hself.2, if_neg Bool.false_ne_true]
      exact ih hothers

theorem isClausePart_of_mem_headTrees (form : TypeForm) :
    ∀ tree ∈ form.headTrees, isClausePart tree := by
  have hname : ∀ name : DottedName, ∀ tree ∈ name.trees, isClausePart tree := by
    intro name tree htree
    rcases List.mem_cons.1 htree with rfl | htree
    · rfl
    · obtain ⟨segment, -, hmem⟩ := List.mem_flatMap.1 htree
      rcases List.mem_cons.1 hmem with rfl | hmem
      · rfl
      · rw [List.mem_singleton.1 hmem]
        rfl
  cases form with
  | classType superclass =>
      cases superclass with
      | none =>
          intro tree htree
          cases htree
      | some name => exact List.forall_mem_cons.2 ⟨rfl, hname name⟩
  | record => exact List.forall_mem_singleton.2 rfl
  | _ =>
      intro tree htree
      cases htree

theorem typeKind?_trees
    (form : TypeForm) (name : Identifier) (inner rest : List Tree) :
    typeKind? (ofWord form.keyword :: name.tree :: (form.headTrees ++ enclosed .curly inner :: rest)) =
      some form.kind := by
  cases form with
  | classType superclass => rfl
  | _ => rfl

/-- What is read of the clause that names the superclass of such a type. -/
def TypeForm.clause? : TypeForm → Option ExtendsClause
  | classType superclass => superclass.map fun name => .type (.named name.text)
  | _ => none

theorem TypeForm.bind_clause? (form : TypeForm) :
    form.clause?.bind ExtendsClause.className? = form.superclass? := by
  cases form with
  | classType superclass =>
      cases superclass with
      | none => rfl
      | some name => exact name.className?_named
  | _ => rfl

theorem extendsClause?_trees (name : DottedName) (inner rest : List Tree) :
    extendsClause? (ofWord "extends" :: name.trees ++ enclosed .curly inner :: rest) =
      some (.type (.named name.text)) := by
  have hextends : (ofWord "extends").isWord "extends" = true := rfl
  have hbefore : name.first.tree.first.before.isEmpty = true := rfl
  have htype := typeReference?_trees name inner rest
  rw [DottedName.trees, List.cons_append] at htype
  rw [DottedName.trees, List.cons_append, List.cons_append, extendsClause?, if_pos hextends,
    if_pos hbefore, htype]
  rfl

/-- The declaration of a type up to the end of its body. -/
theorem typeHead?_trees
    (names : List AnnotationNode) (form : TypeForm) (name : Identifier) (inner rest : List Tree) :
    typeHead? names
        (ofWord form.keyword :: name.tree :: (form.headTrees ++ enclosed .curly inner :: rest)) =
      some (⟨form.kind, name.text, names, form.clause?, inner⟩, rest) := by
  have hclauses : afterTypeArguments (form.headTrees ++ enclosed .curly inner :: rest) =
      form.headTrees ++ enclosed .curly inner :: rest := by
    cases form with
    | classType superclass => cases superclass <;> exact afterTypeArguments_of_not_angle rfl _
    | _ => exact afterTypeArguments_of_not_angle rfl _
  have hsuper : (if form.kind = .classType then
      extendsClause? (form.headTrees ++ enclosed .curly inner :: rest) else none) =
        form.clause? := by
    cases form with
    | classType superclass =>
        cases superclass with
        | none => cases rest <;> rfl
        | some superclass => exact extendsClause?_trees superclass inner rest
    | _ => rfl
  have hname : name.tree.word?.getD "" = name.text := rfl
  unfold typeHead?
  rw [typeKind?_trees]
  dsimp only
  rw [hclauses, enclosed, body?_of_isClausePart (isClausePart_of_mem_headTrees form),
    Option.map_some, ← enclosed, hsuper, hname]

end Types

section Items

end Items

end ComponentMarkers.Source
