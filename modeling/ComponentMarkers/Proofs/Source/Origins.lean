import ComponentMarkers.Proofs.Source.Steps
import ComponentMarkers.Proofs.Source.Suffixes

/-!
# What declarations are read from

The readers of members, constants and items go through a row of trees from left to right.  Whatever
they declare was at the head of the trees at some point, so it is read there or nowhere, and what holds
of all that is read at the head of a row holds of every declaration of a source.
-/

namespace ComponentMarkers.Source

section Heads

variable {names : List AnnotationNode} {trees after : List Tree}

/-- A type is read from a keyword, a word that names it and a body further on. -/
theorem exists_of_typeHead? {head : TypeHead} (h : typeHead? names trees = some (head, after)) :
    ∃ keyword name rest, trees = keyword :: name :: rest ∧ typeKind? trees = some head.kind ∧
      name.word? = some head.name ∧ body? (afterTypeArguments rest) = some (head.body, after) := by
  unfold typeHead? at h
  split at h
  · rename_i kind keyword name rest hkind
    obtain ⟨⟨body, tail⟩, hbody, heq⟩ := Option.map_eq_some_iff.1 h
    obtain ⟨rfl, rfl⟩ := Prod.mk.inj heq
    refine ⟨keyword, name, rest, rfl, hkind, ?_, hbody⟩
    cases hword : name.word? with
    | none =>
        rw [typeKind?_of_not_name hword] at hkind
        cases hkind
    | some text => rfl
  · cases h

theorem eq_of_constructor? {member : Member} (h : constructor? names trees = some (member, after)) :
    member = .constructor names := by
  unfold constructor? at h
  split at h
  · split at h
    · exact (Prod.mk.inj (Option.some.inj h)).1.symm
    · split at h
      · exact (Prod.mk.inj (Option.some.inj h)).1.symm
      · cases h
  · cases h

/-- Declarations of packages and imports are no types. -/
theorem typeHead?_of_item? {head : TypeHead} (h : item? trees = some (.type head, after)) :
    typeHead? (modifiers trees).1 (modifiers trees).2 = some (head, after) := by
  unfold item? at h
  dsimp only at h
  split at h
  · rename_i hpackage
    obtain rfl := Option.some.inj h
    unfold packageItem? at hpackage
    split at hpackage
    · split at hpackage
      · obtain ⟨_, -, heq⟩ := Option.map_eq_some_iff.1 hpackage
        cases (Prod.mk.inj heq).1
      · cases hpackage
    · cases hpackage
  · split at h
    · rename_i himport
      obtain rfl := Option.some.inj h
      unfold importItem? at himport
      split at himport
      · split at himport
        · obtain ⟨_, -, heq⟩ := Option.map_eq_some_iff.1 himport
          cases (Prod.mk.inj heq).1
        · cases himport
      · cases himport
    · obtain ⟨⟨found, tail⟩, hfound, heq⟩ := Option.map_eq_some_iff.1 h
      obtain ⟨htype, rfl⟩ := Prod.mk.inj heq
      obtain rfl : found = head := Item.type.inj htype
      exact hfound

end Heads

section Members

variable {trees : List Tree} {member : Member}

/-- The member is read at the head of the trees.  A method is named by the word behind its type, and the
names of fields stand there one after the other. -/
inductive ReadsMember (trees : List Tree) : Member → Prop
  | type {head : TypeHead} {after : List Tree}
      (h : typeHead? (modifiers trees).1 (modifiers trees).2 = some (head, after)) :
      ReadsMember trees (.type head)
  | constructor (found : List AnnotationNode) : ReadsMember trees (.constructor found)
  | method {type : TypeReference} {tree : Tree} {rest : List Tree} {name : String}
      (htype : typeReference? (annotations (afterTypeArguments (modifiers trees).2)).2 =
        some (type, tree :: rest))
      (hname : tree.word? = some name) (found own : List AnnotationNode) :
      ReadsMember trees (.method found own name)
  | fields {type : TypeReference} {row : List Tree} {names : List String}
      (htype : typeReference? (annotations (afterTypeArguments (modifiers trees).2)).2 =
        some (type, row))
      (hnames : names = (declarators row).1) (found own : List AnnotationNode) :
      ReadsMember trees (.fields found own names)
  | constant {found : List AnnotationNode} {tree : Tree} {rest : List Tree} {name : String}
      (hmodifiers : modifiers trees = (found, tree :: rest)) (hname : tree.word? = some name) :
      ReadsMember trees (.constant found name)

theorem readsMember_of_mem_typedMembers?
    {names own : List AnnotationNode} {found : List Member} {after : List Tree}
    (h : typedMembers? names own (annotations (afterTypeArguments (modifiers trees).2)).2 =
      some (found, after))
    (hmember : member ∈ found) : ReadsMember trees member := by
  unfold typedMembers? at h
  split at h
  · rename_i htype
    split at h
    · obtain ⟨rfl, -⟩ := Prod.mk.inj (Option.some.inj h)
      cases hmember
    · rename_i hname
      split at h
      · obtain ⟨rfl, -⟩ := Prod.mk.inj (Option.some.inj h)
        obtain rfl := List.mem_singleton.1 hmember
        exact .method htype hname _ _
      · obtain ⟨rfl, -⟩ := Prod.mk.inj (Option.some.inj h)
        obtain rfl := List.mem_singleton.1 hmember
        exact .fields htype rfl _ _
    · rename_i hname
      obtain ⟨rfl, -⟩ := Prod.mk.inj (Option.some.inj h)
      obtain rfl := List.mem_singleton.1 hmember
      have hnothing : afterField [] = [] :=
        List.length_eq_zero_iff.1 (Nat.le_zero.1 (afterField_length []))
      refine .fields htype ?_ _ _
      rw [declarators_of_word hname, hnothing]
  · obtain ⟨rfl, -⟩ := Prod.mk.inj (Option.some.inj h)
    cases hmember
  · cases h

theorem readsMember_of_mem_nextMembers (h : member ∈ (nextMembers trees).1) :
    ReadsMember trees member := by
  unfold nextMembers at h
  dsimp only at h
  split at h
  · rename_i hhead
    obtain rfl := List.mem_singleton.1 h
    exact .type hhead
  · split at h
    · rename_i hmember
      obtain rfl := List.mem_singleton.1 h
      rw [eq_of_constructor? hmember]
      exact .constructor _
    · split at h
      · rename_i hmembers
        exact readsMember_of_mem_typedMembers? hmembers h
      · cases h

theorem exists_readsMember_of_mem_members (h : member ∈ members trees) :
    ∃ row, row <:+ trees ∧ ReadsMember row member := by
  fun_induction members trees with
  | case1 => cases h
  | case2 trees hne hlt ih =>
      rcases List.mem_append.1 h with h | h
      · exact ⟨trees, List.suffix_rfl, readsMember_of_mem_nextMembers h⟩
      · obtain ⟨row, hrow, hreads⟩ := ih h
        exact ⟨row, hrow.trans (nextMembers_suffix trees), hreads⟩

theorem exists_readsMember_of_mem_constants (h : member ∈ (constants trees).1) :
    ∃ row, row <:+ trees ∧ ReadsMember row member := by
  have hrest : ∀ {trees names name rest}, modifiers trees = (names, name :: rest) →
      rest <:+ trees :=
    fun hmodifiers => (List.suffix_cons _ _).trans (suffix_of_modifiers hmodifiers)
  fun_induction constants trees with
  | case1 trees names name rest hmodifiers _ _ _ ih =>
      obtain ⟨row, hrow, hreads⟩ := ih h
      exact ⟨row, hrow.trans (hrest hmodifiers), hreads⟩
  | case2 => cases h
  | case3 trees names name rest hmodifiers constant hword _ =>
      obtain rfl := List.mem_singleton.1 h
      exact ⟨trees, List.suffix_rfl, .constant hmodifiers hword⟩
  | case4 trees names name rest hmodifiers constant hword mark more hafter hmark hlt others left
      hrec ih =>
      rcases List.mem_cons.1 h with rfl | h
      · exact ⟨trees, List.suffix_rfl, .constant hmodifiers hword⟩
      · rw [hrec] at ih
        obtain ⟨row, hrow, hreads⟩ := ih h
        have hconstant := afterConstant_suffix rest
        rw [hafter] at hconstant
        exact ⟨row, ((hrow.trans (List.suffix_cons _ _)).trans hconstant).trans (hrest hmodifiers),
          hreads⟩
  | case5 trees names name rest hmodifiers constant hword =>
      obtain rfl := List.mem_singleton.1 h
      exact ⟨trees, List.suffix_rfl, .constant hmodifiers hword⟩
  | case6 => cases h

/-- Each member of a type is read at the head of an end of its body. -/
theorem TypeHead.exists_readsMember {head : TypeHead} (h : member ∈ head.members) :
    ∃ row, row <:+ head.body ∧ ReadsMember row member := by
  unfold TypeHead.members at h
  split at h
  · rcases List.mem_append.1 h with h | h
    · exact exists_readsMember_of_mem_constants h
    · obtain ⟨row, hrow, hreads⟩ := exists_readsMember_of_mem_members h
      exact ⟨row, hrow.trans (constants_suffix _), hreads⟩
  · exact exists_readsMember_of_mem_members h

end Members

section Units

/-- Each type at the top is read behind its modifiers. -/
theorem exists_typeHead?_of_mem_items {trees : List Tree} {head : TypeHead}
    (h : .type head ∈ items trees) :
    ∃ names row after, row <:+ trees ∧ typeHead? names row = some (head, after) := by
  fun_induction items trees with
  | case1 => cases h
  | case2 tree rest item after hitem hlt ih =>
      rcases List.mem_cons.1 h with rfl | h
      · exact ⟨_, _, after, modifiers_suffix (tree :: rest), typeHead?_of_item? hitem⟩
      · obtain ⟨names, row, last, hrow, hhead⟩ := ih h
        exact ⟨names, row, last, hrow.trans (item?_suffix hitem), hhead⟩
  | case3 tree rest hitem hends ih =>
      obtain ⟨names, row, last, hrow, hhead⟩ := ih h
      exact ⟨names, row, last, hrow.trans (List.suffix_cons _ _), hhead⟩
  | case4 tree rest hitem hends hlt ih =>
      obtain ⟨names, row, last, hrow, hhead⟩ := ih h
      exact ⟨names, row, last,
        (hrow.trans (afterStatement_suffix tree rest)).trans (List.suffix_cons _ _), hhead⟩

theorem exists_head_of_mem_types_readUnit
    {source : String} {path : Option Path} {declaration : Declaration}
    (h : declaration ∈ (readUnit source path).types) :
    ∃ head levels, .type head ∈ items (nest (tokens source)) ∧
      declaration = head.declaration levels := by
  rw [readUnit, types_unitOfItems] at h
  obtain ⟨head, hhead, rfl⟩ := List.mem_map.1 h
  obtain ⟨item, hitem, hsome⟩ := List.mem_filterMap.1 hhead
  cases item with
  | type found =>
      obtain rfl := Option.some.inj hsome
      exact ⟨found, _, hitem, rfl⟩
  | package => cases hsome
  | «import» => cases hsome

end Units

end ComponentMarkers.Source
