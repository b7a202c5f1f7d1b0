import ComponentMarkers.Source.Unit

/-!
# Readers go on behind what they read

Each reader looks for one construct at the head of a row of trees.  Whatever it finds there, the trees
it hands on are an end of that row: nothing is put before them and nothing in them is changed.
-/

namespace ComponentMarkers.Source

section Names

theorem moreSegments_suffix (trees : List Tree) : (moreSegments trees).2 <:+ trees := by
  fun_induction moreSegments trees with
  | case1 dot segment rest _ more after hrec ih =>
      rw [hrec] at ih
      exact ((ih.trans (List.suffix_cons _ _)).trans (List.suffix_cons _ _))
  | case2 => exact List.suffix_rfl
  | case3 => exact List.suffix_rfl

theorem dottedName?_suffix {trees after : List Tree} {name : String}
    (h : dottedName? trees = some (name, after)) : after <:+ trees := by
  unfold dottedName? at h
  split at h
  · cases h
  · rename_i tree rest
    split at h
    · cases h
    · rw [← (Prod.mk.inj (Option.some.inj h)).2]
      exact (moreSegments_suffix rest).trans (List.suffix_cons _ _)

theorem afterArguments_suffix (trees : List Tree) : afterArguments trees <:+ trees := by
  unfold afterArguments
  split
  · exact List.suffix_rfl
  · split
    · exact List.suffix_cons _ _
    · exact List.suffix_rfl

theorem annotation?_suffix {trees after : List Tree} {node : AnnotationNode}
    (h : annotation? trees = some (node, after)) : after <:+ trees := by
  unfold annotation? at h
  split at h
  · cases h
  · split at h
    · obtain ⟨⟨found, tail⟩, hname, heq⟩ := Option.map_eq_some_iff.1 h
      rw [← (Prod.mk.inj heq).2]
      exact ((afterArguments_suffix tail).trans (dottedName?_suffix hname)).trans
        (List.suffix_cons _ _)
    · cases h

theorem modifiers_suffix (trees : List Tree) : (modifiers trees).2 <:+ trees := by
  fun_induction modifiers trees with
  | case1 trees name after h _ names rest hrec ih =>
      rw [hrec] at ih
      exact ih.trans (annotation?_suffix h)
  | case2 => exact List.suffix_rfl
  | case3 tree rest _ _ ih => exact ih.trans (List.suffix_cons _ _)
  | case4 => exact List.suffix_rfl

theorem suffix_of_modifiers {trees row : List Tree} {names : List AnnotationNode}
    (h : modifiers trees = (names, row)) : row <:+ trees := by
  have hsuffix := modifiers_suffix trees
  rwa [h] at hsuffix

theorem annotations_suffix (trees : List Tree) : (annotations trees).2 <:+ trees := by
  fun_induction annotations trees with
  | case1 trees name after h _ names rest hrec ih =>
      rw [hrec] at ih
      exact ih.trans (annotation?_suffix h)
  | case2 => exact List.suffix_rfl

end Names

section Types

theorem angleGroup?_append {level : Nat} {trees inner after : List Tree}
    (h : angleGroup? level trees = some (inner, after)) : trees = inner ++ after := by
  fun_induction angleGroup? level trees generalizing inner after
  case case1 | case5 => cases h
  case case3 =>
    obtain ⟨rfl, rfl⟩ := Prod.mk.inj (Option.some.inj h)
    rfl
  case case2 ih | case4 ih | case6 ih =>
    obtain ⟨⟨found, tail⟩, hrest, heq⟩ := Option.map_eq_some_iff.1 h
    obtain ⟨rfl, rfl⟩ := Prod.mk.inj heq
    rw [List.cons_append, ← ih hrest]

theorem angleGroup?_suffix {level : Nat} {trees inner after : List Tree}
    (h : angleGroup? level trees = some (inner, after)) : after <:+ trees :=
  ⟨inner, (angleGroup?_append h).symm⟩

theorem typeArguments?_suffix {trees inner after : List Tree}
    (h : typeArguments? trees = some (inner, after)) : after <:+ trees := by
  unfold typeArguments? at h
  split at h
  · cases h
  · split at h
    · exact angleGroup?_suffix h
    · cases h

theorem afterTypeArguments_suffix (trees : List Tree) : afterTypeArguments trees <:+ trees := by
  unfold afterTypeArguments
  split
  · rename_i h
    exact typeArguments?_suffix h
  · exact List.suffix_rfl

theorem nextTypeName?_suffix {trees name after : List Tree}
    (h : nextTypeName? trees = some (name, after)) : after <:+ trees := by
  unfold nextTypeName? at h
  split at h
  · cases h
  · rename_i dot rest
    split at h
    · split at h
      · cases h
      · rename_i found tail hnames
        split at h
        · rw [← (Prod.mk.inj (Option.some.inj h)).2]
          have hrest := annotations_suffix rest
          rw [hnames] at hrest
          exact ((List.suffix_cons _ _).trans hrest).trans (List.suffix_cons _ _)
        · cases h
    · cases h

theorem classTypeTail_suffix (trees : List Tree) : (classTypeTail trees).2 <:+ trees := by
  fun_induction classTypeTail trees with
  | case1 trees after name more h hlt tail final hrec ih =>
      rw [hrec] at ih
      exact (ih.trans (nextTypeName?_suffix h)).trans (afterTypeArguments_suffix trees)
  | case2 trees => exact afterTypeArguments_suffix trees

theorem dimension?_suffix {trees after : List Tree} (h : dimension? trees = some after) :
    after <:+ trees := by
  have hnames := annotations_suffix trees
  unfold dimension? at h
  split at h
  · cases h
  · rename_i tree rest htrees
    rw [htrees] at hnames
    split at h
    · rw [← Option.some.inj h]
      exact (List.suffix_cons _ _).trans hnames
    · cases h

theorem afterDimensions_suffix (trees : List Tree) : afterDimensions trees <:+ trees := by
  fun_induction afterDimensions trees with
  | case1 trees rest h _ ih => exact ih.trans (dimension?_suffix h)
  | case2 => exact List.suffix_rfl

theorem typeReference?_suffix {trees after : List Tree} {type : TypeReference}
    (h : typeReference? trees = some (type, after)) : after <:+ trees := by
  have hnames := annotations_suffix trees
  unfold typeReference? at h
  split at h
  · cases h
  · rename_i tree rest htrees
    rw [htrees] at hnames
    have hrest := (List.suffix_cons tree rest).trans hnames
    have htail := ((afterDimensions_suffix _).trans (classTypeTail_suffix rest)).trans hrest
    split at h
    · cases h
    · split at h
      · rw [← (Prod.mk.inj (Option.some.inj h)).2]
        exact (afterDimensions_suffix rest).trans hrest
      · rw [← (Prod.mk.inj (Option.some.inj h)).2]
        exact htail

end Types

section Values

theorem afterType_suffix (trees : List Tree) : afterType trees <:+ trees := by
  unfold afterType
  split
  · rename_i h
    exact typeReference?_suffix h
  · exact List.suffix_rfl

theorem referenceArguments?_suffix {trees after : List Tree}
    (h : referenceArguments? trees = some after) : after <:+ trees := by
  unfold referenceArguments? at h
  split at h
  · rename_i harguments
    split at h
    · rw [← Option.some.inj h]
      exact typeArguments?_suffix harguments
    · cases h
  · cases h

theorem referenceAnnotation?_suffix {trees after : List Tree}
    (h : referenceAnnotation? trees = some after) : after <:+ trees := by
  unfold referenceAnnotation? at h
  split at h
  · rename_i hannotation
    split at h
    · rw [← Option.some.inj h]
      exact annotation?_suffix hannotation
    · cases h
  · cases h

theorem afterColons_suffix (trees : List Tree) : afterColons trees <:+ trees := by
  have h := afterTypeArguments_suffix trees
  unfold afterColons
  split
  · exact List.nil_suffix
  · rename_i tree rest heq
    rw [heq] at h
    split
    · exact (List.suffix_cons _ _).trans h
    · exact h

theorem afterPart_suffix (tree : Tree) (rest : List Tree) :
    afterPart tree rest <:+ tree :: rest := by
  unfold afterPart
  split
  · exact (((afterType_suffix _).trans (afterTypeArguments_suffix _)).trans
      (annotations_suffix rest)).trans (List.suffix_cons _ _)
  split
  · exact ((afterType_suffix _).trans (modifiers_suffix rest)).trans (List.suffix_cons _ _)
  split
  · exact ((afterColons_suffix _).trans (List.tail_suffix rest)).trans (List.suffix_cons _ _)
  split
  · exact (afterTypeArguments_suffix rest).trans (List.suffix_cons _ _)
  split
  · rename_i h
    exact referenceArguments?_suffix h
  · rename_i h
    exact referenceAnnotation?_suffix h
  · exact List.suffix_cons _ _

theorem afterValue_suffix (ended : Bool) (trees : List Tree) :
    afterValue ended trees <:+ trees := by
  fun_induction afterValue ended trees with
  | case1 => exact List.suffix_rfl
  | case2 => exact List.suffix_rfl
  | case3 ended tree rest _ _ ih => exact ih.trans (afterPart_suffix tree rest)

theorem afterInitializer_suffix (trees : List Tree) : afterInitializer trees <:+ trees := by
  unfold afterInitializer
  split
  · exact List.suffix_rfl
  · rename_i tree rest
    split
    · exact (afterValue_suffix false rest).trans (List.suffix_cons _ _)
    · exact List.suffix_rfl

theorem afterBlock_suffix (trees : List Tree) : afterBlock trees <:+ trees := by
  fun_induction afterBlock trees with
  | case1 => exact List.suffix_rfl
  | case2 => exact List.suffix_cons _ _
  | case3 tree rest _ ih => exact ih.trans (List.suffix_cons _ _)

end Values

section Members

theorem body?_suffix {trees body after : List Tree} (h : body? trees = some (body, after)) :
    after <:+ trees := by
  fun_induction body? trees with
  | case1 => cases h
  | case2 opening inner closing rest =>
      rw [← (Prod.mk.inj (Option.some.inj h)).2]
      exact List.suffix_cons _ _
  | case3 => cases h
  | case4 tree rest _ _ ih => exact (ih h).trans (List.suffix_cons _ _)

theorem typeHead?_suffix {names : List AnnotationNode} {trees after : List Tree} {head : TypeHead}
    (h : typeHead? names trees = some (head, after)) : after <:+ trees := by
  unfold typeHead? at h
  split at h
  · rename_i rest _
    obtain ⟨⟨body, tail⟩, hbody, heq⟩ := Option.map_eq_some_iff.1 h
    rw [← (Prod.mk.inj heq).2]
    exact (((body?_suffix hbody).trans (afterTypeArguments_suffix rest)).trans
      (List.suffix_cons _ _)).trans (List.suffix_cons _ _)
  · cases h

theorem afterField_suffix (trees : List Tree) : afterField trees <:+ trees :=
  (afterInitializer_suffix _).trans (afterDimensions_suffix trees)

theorem declarators_suffix (trees : List Tree) : (declarators trees).2 <:+ trees := by
  fun_induction declarators trees with
  | case1 => exact List.suffix_rfl
  | case2 tree rest _ _ ih => exact ih.trans (List.suffix_cons _ _)
  | case3 => exact List.suffix_rfl
  | case4 => exact List.nil_suffix
  | case5 tree rest name hname mark more h hmark names after hrec ih =>
      have hfield := afterField_suffix rest
      rw [h] at hfield
      rw [hrec] at ih
      exact ((ih.trans (List.suffix_cons _ _)).trans hfield).trans (List.suffix_cons _ _)
  | case6 tree rest name hname mark more h hmark =>
      have hfield := afterField_suffix rest
      rw [h] at hfield
      exact hfield.trans (List.suffix_cons _ _)

theorem afterEnd_suffix (trees : List Tree) : afterEnd trees <:+ trees := by
  unfold afterEnd
  split
  · exact List.suffix_rfl
  · split
    · exact List.suffix_cons _ _
    · exact List.suffix_rfl

theorem afterTypes_suffix (trees : List Tree) : afterTypes trees <:+ trees := by
  fun_induction afterTypes trees with
  | case1 trees name comma rest h _ _ ih =>
      exact (ih.trans (List.suffix_cons _ _)).trans (typeReference?_suffix h)
  | case2 trees name comma rest h => exact typeReference?_suffix h
  | case3 => exact List.nil_suffix
  | case4 => exact List.suffix_rfl

theorem afterThrows_suffix (trees : List Tree) : afterThrows trees <:+ trees := by
  unfold afterThrows
  split
  · exact List.suffix_rfl
  · rename_i tree rest
    split
    · exact (afterTypes_suffix rest).trans (List.suffix_cons _ _)
    · exact List.suffix_rfl

theorem methodEnd_suffix (trees : List Tree) : (methodEnd trees).2 <:+ trees := by
  have hthrows := (afterThrows_suffix _).trans (afterDimensions_suffix trees)
  unfold methodEnd
  split
  · exact List.nil_suffix
  · rename_i tree rest heq
    rw [heq] at hthrows
    have hrest := (List.suffix_cons tree rest).trans hthrows
    split
    · exact ((afterEnd_suffix _).trans (afterValue_suffix false rest)).trans hrest
    · split
      · exact hrest
      · split
        · dsimp only
          split
          · exact (List.suffix_cons _ _).trans hrest
          · exact hthrows
        · exact hthrows

theorem constructor?_suffix {names : List AnnotationNode} {trees after : List Tree} {member : Member}
    (h : constructor? names trees = some (member, after)) : after <:+ trees := by
  unfold constructor? at h
  split at h
  · rename_i name parameters rest
    have hrest := (List.suffix_cons parameters rest).trans (List.suffix_cons name _)
    split at h
    · rw [← (Prod.mk.inj (Option.some.inj h)).2]
      exact (afterBlock_suffix rest).trans hrest
    · split at h
      · rw [← (Prod.mk.inj (Option.some.inj h)).2]
        exact hrest
      · cases h
  · cases h

theorem typedMembers?_suffix {names own : List AnnotationNode} {trees after : List Tree}
    {members : List Member} (h : typedMembers? names own trees = some (members, after)) :
    after <:+ trees := by
  unfold typedMembers? at h
  split at h
  · rename_i htype
    have hrow := typeReference?_suffix htype
    split at h
    · rw [← (Prod.mk.inj (Option.some.inj h)).2]
      exact hrow
    · rename_i parameters tail _
      split at h
      · rw [← (Prod.mk.inj (Option.some.inj h)).2]
        exact (((methodEnd_suffix tail).trans (List.suffix_cons _ _)).trans
          (List.suffix_cons _ _)).trans hrow
      · rw [← (Prod.mk.inj (Option.some.inj h)).2]
        exact ((afterEnd_suffix _).trans (declarators_suffix _)).trans hrow
    · rw [← (Prod.mk.inj (Option.some.inj h)).2]
      exact List.nil_suffix
  · rw [← (Prod.mk.inj (Option.some.inj h)).2]
    exact List.nil_suffix
  · cases h

theorem nextMembers_suffix (trees : List Tree) : (nextMembers trees).2 <:+ trees := by
  have hmodifiers := modifiers_suffix trees
  have htail := ((annotations_suffix _).trans
    (afterTypeArguments_suffix (modifiers trees).2)).trans hmodifiers
  unfold nextMembers
  dsimp only
  split
  · rename_i hhead
    exact (typeHead?_suffix hhead).trans hmodifiers
  · split
    · rename_i hmember
      exact (constructor?_suffix hmember).trans htail
    · split
      · rename_i hmembers
        exact (typedMembers?_suffix hmembers).trans htail
      · exact (List.tail_suffix _).trans htail

theorem afterConstant_suffix (trees : List Tree) : afterConstant trees <:+ trees := by
  have harguments := afterArguments_suffix trees
  unfold afterConstant
  split
  · exact List.nil_suffix
  · rename_i tree rest heq
    rw [heq] at harguments
    split
    · exact (List.suffix_cons _ _).trans harguments
    · exact harguments

theorem constants_suffix (trees : List Tree) : (constants trees).2 <:+ trees := by
  have hrow : ∀ {trees names name rest}, modifiers trees = (names, name :: rest) →
      rest <:+ trees :=
    fun hmodifiers => (List.suffix_cons _ _).trans (suffix_of_modifiers hmodifiers)
  fun_induction constants trees with
  | case1 trees names name rest h _ _ _ ih => exact ih.trans (hrow h)
  | case2 trees names name rest h => exact suffix_of_modifiers h
  | case3 => exact List.nil_suffix
  | case4 trees names name rest h constant hword mark more hafter hmark hlt members after hrec ih =>
      have hconstant := afterConstant_suffix rest
      rw [hafter] at hconstant
      rw [hrec] at ih
      exact ((ih.trans (List.suffix_cons _ _)).trans hconstant).trans (hrow h)
  | case5 trees names name rest h constant hword mark more hafter =>
      have hconstant := afterConstant_suffix rest
      rw [hafter] at hconstant
      exact hconstant.trans (hrow h)
  | case6 => exact List.nil_suffix

end Members

section Items

theorem packageItem?_suffix {names : List AnnotationNode} {trees after : List Tree} {item : Item}
    (h : packageItem? names trees = some (item, after)) : after <:+ trees := by
  unfold packageItem? at h
  split at h
  · split at h
    · obtain ⟨⟨name, tail⟩, hname, heq⟩ := Option.map_eq_some_iff.1 h
      rw [← (Prod.mk.inj heq).2]
      exact ((afterEnd_suffix tail).trans (dottedName?_suffix hname)).trans (List.suffix_cons _ _)
    · cases h
  · cases h

theorem importItem?_suffix {trees after : List Tree} {item : Item}
    (h : importItem? trees = some (item, after)) : after <:+ trees := by
  unfold importItem? at h
  split at h
  · rename_i rest
    split at h
    · obtain ⟨⟨name, tail⟩, hname, heq⟩ := Option.map_eq_some_iff.1 h
      have hstar : (afterStar? tail).getD tail <:+ tail := by
        unfold afterStar?
        split
        · split
          · exact (List.suffix_cons _ _).trans (List.suffix_cons _ _)
          · exact List.suffix_rfl
        · exact List.suffix_rfl
      have hname := dottedName?_suffix hname
      rw [← (Prod.mk.inj heq).2]
      refine ((afterEnd_suffix _).trans hstar).trans (hname.trans ?_)
      split
      · exact (List.tail_suffix rest).trans (List.suffix_cons _ _)
      · exact List.suffix_cons _ _
    · cases h
  · cases h

theorem item?_suffix {trees after : List Tree} {item : Item}
    (h : item? trees = some (item, after)) : after <:+ trees := by
  have hmodifiers := modifiers_suffix trees
  unfold item? at h
  dsimp only at h
  split at h
  · rename_i hitem
    obtain rfl := Option.some.inj h
    exact (packageItem?_suffix hitem).trans hmodifiers
  · split at h
    · rename_i hitem
      obtain rfl := Option.some.inj h
      exact (importItem?_suffix hitem).trans hmodifiers
    · obtain ⟨⟨head, tail⟩, hhead, heq⟩ := Option.map_eq_some_iff.1 h
      rw [← (Prod.mk.inj heq).2]
      exact (typeHead?_suffix hhead).trans hmodifiers

theorem afterStatement_suffix (previous : Tree) (trees : List Tree) :
    afterStatement previous trees <:+ trees := by
  fun_induction afterStatement previous trees with
  | case1 => exact List.suffix_rfl
  | case2 => exact List.suffix_cons _ _
  | case3 => exact List.suffix_rfl
  | case4 previous tree rest _ _ ih => exact ih.trans (List.suffix_cons _ _)

end Items

end ComponentMarkers.Source
