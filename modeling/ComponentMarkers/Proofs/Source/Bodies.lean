import ComponentMarkers.Proofs.Source.Reading

/-!
# Bodies of outlines

The members of a type are read one after the other, each reader taking the trees of one entry of the
body.  Types inside are read to the depth of their brackets, so no level is left out.
-/

namespace ComponentMarkers.Source

open Text Source.Tree

section Fields

variable {tree mark : Tree} {rest more : List Tree} {name : String}

/-- What ends a declarator is passed over. -/
theorem afterField_fieldEnding
    (form : TypeForm) {char : Char} (hchar : char = ',' ∨ char = ';') (rest : List Tree) :
    afterField (form.fieldEnding ++ ofSymbol char :: rest) = ofSymbol char :: rest := by
  rw [TypeForm.fieldEnding, afterField]
  by_cases habstract : form.isAbstract
  · rw [if_pos habstract]
    have hend : (ofSymbol char).isSymbol ',' || (ofSymbol char).isSymbol ';' := by
      rcases hchar with rfl | rfl
      · rfl
      · rfl
    have hzero : afterValue false (.leaf ⟨[], .number "0"⟩ :: ofSymbol char :: rest) =
        ofSymbol char :: rest := by
      rw [afterValue.eq_def]
      exact afterValue_of_end hend true rest
    have hequals : (ofSymbol '=').isSymbol '=' = true := rfl
    rw [List.cons_append, List.singleton_append, afterDimensions_of_not rfl rfl, afterInitializer,
      if_pos hequals, hzero]
  · rw [if_neg habstract, List.nil_append]
    have hmark : (ofSymbol char).isSymbol '@' = false ∧ (ofSymbol char).isSymbol '=' = false := by
      rcases hchar with rfl | rfl
      · exact ⟨rfl, rfl⟩
      · exact ⟨rfl, rfl⟩
    rw [afterDimensions_of_not hmark.1 rfl, afterInitializer, hmark.2, if_neg Bool.false_ne_true]

/-- The names of fields that are declared together. -/
theorem declarators_listTrees
    (form : TypeForm) (name : Identifier) (more : List Identifier) (rest : List Tree) :
    declarators (listTrees form.fieldEnding (name :: more) ++ ofSymbol ';' :: rest) =
      ((name :: more).map Identifier.text, ofSymbol ';' :: rest) := by
  induction more generalizing name with
  | nil =>
      have hafter := afterField_fieldEnding form (Or.inr rfl) rest
      rw [listTrees, List.cons_append, declarators_of_word rfl, hafter]
      rfl
  | cons next others ih =>
      have hafter := afterField_fieldEnding form (Or.inl rfl)
        (listTrees form.fieldEnding (next :: others) ++ ofSymbol ';' :: rest)
      rw [listTrees, List.append_assoc, List.cons_append, List.cons_append,
        declarators_of_word rfl, hafter]
      dsimp only
      rw [if_pos (show (ofSymbol ',').isSymbol ',' from rfl), ih]
      rfl

end Fields

section Members

variable {names : List AnnotationNode} {trees : List Tree}

/-- What begins with the type of a method or field. -/
theorem nextMembers_of_typedMembers?
    {type name : String} (htype : type = "int" ∨ type = "void") {rest : List Tree}
    {result : List Member × List Tree}
    (hmodifiers : modifiers trees = (names, ofWord type :: ofWord name :: rest))
    (h : typedMembers? names [] (ofWord type :: ofWord name :: rest) = some result) :
    nextMembers trees = result := by
  have hhead : typeHead? names (ofWord type :: ofWord name :: rest) = none := by
    rcases htype with rfl | rfl
    · rfl
    · rfl
  have hconstructor : constructor? names (ofWord type :: ofWord name :: rest) = none := rfl
  rw [nextMembers_of_typeHead?_eq_none hmodifiers hhead
    (annotations_afterTypeArguments_of_not rfl rfl _), hconstructor, h]
  rfl

/-- A member that begins with its type, after annotations and the word `static` perhaps. -/
theorem modifiers_fieldModifiers
    (form : TypeForm) (annotations : List DottedName) (rest : List Tree) :
    modifiers (annotationTrees annotations ++ form.fieldModifiers ++ ofWord "int" :: rest) =
      (annotationNodes annotations, ofWord "int" :: rest) := by
  have hint : modifiers (ofWord "int" :: rest) = ([], ofWord "int" :: rest) :=
    modifiers_ofWord (by decide) rest
  by_cases hrecord : form.fieldModifiers = []
  · have hall := modifiers_annotationTrees annotations "int" rest
    rw [hint, List.append_nil] at hall
    rw [hrecord, List.append_nil, hall]
  · have hstatic : form.fieldModifiers = [ofWord "static"] := by
      cases form with
      | record => rfl
      | _ => exact absurd rfl hrecord
    have hword : isModifier (ofWord "static" :: ofWord "int" :: rest) = true := rfl
    have hall := modifiers_annotationTrees annotations "static" (ofWord "int" :: rest)
    rw [modifiers_of_cons rfl, if_pos hword, hint, List.append_nil] at hall
    rw [hstatic, List.append_assoc, List.singleton_append, hall]

theorem nextMembers_fields
    (form : TypeForm) (annotations : List DottedName) (name : Identifier) (more : List Identifier)
    (rest : List Tree) :
    nextMembers (annotationTrees annotations ++ form.fieldModifiers ++ ofWord "int" ::
        listTrees form.fieldEnding (name :: more) ++ ofSymbol ';' :: rest) =
      ([.fields (annotationNodes annotations) [] ((name :: more).map Identifier.text)], rest) := by
  have hdeclarators := declarators_listTrees form name more rest
  obtain ⟨mark, tail, htrees, hround⟩ : ∃ mark tail,
      listTrees form.fieldEnding (name :: more) ++ ofSymbol ';' :: rest =
        ofWord name.text :: mark :: tail ∧ mark.isGroup .round = false := by
    rw [TypeForm.fieldEnding]
    cases more
    all_goals
      by_cases habstract : form.isAbstract
      · rw [if_pos habstract]
        exact ⟨_, _, rfl, rfl⟩
      · rw [if_neg habstract]
        exact ⟨_, _, rfl, rfl⟩
  rw [htrees] at hdeclarators
  have htype : typeReference? (ofWord "int" :: ofWord name.text :: mark :: tail) =
      some (.primitive, ofWord name.text :: mark :: tail) :=
    typeReference?_primitive (by decide) _ _
  have hword : (ofWord name.text).word? = some name.text := rfl
  have hmembers : typedMembers? (annotationNodes annotations) []
      (ofWord "int" :: ofWord name.text :: mark :: tail) =
        some ([.fields (annotationNodes annotations) [] ((name :: more).map Identifier.text)],
          rest) := by
    rw [typedMembers?, htype]
    dsimp only
    rw [hword]
    dsimp only
    rw [hround, if_neg Bool.false_ne_true, hdeclarators]
    rfl
  apply nextMembers_of_typedMembers? (Or.inl rfl) _ hmembers
  rw [List.append_assoc, List.cons_append, htrees, modifiers_fieldModifiers]

theorem methodEnd_methodEnding (form : TypeForm) (rest : List Tree) :
    methodEnd (form.methodEnding :: rest) = ([], rest) := by
  have hends : ∀ ending, ending = ofSymbol ';' ∨ ending = enclosed .curly [] →
      methodEnd (ending :: rest) = ([], rest) := by
    rintro ending (rfl | rfl)
    · rw [methodEnd, afterDimensions_of_not rfl rfl]
      rfl
    · rw [methodEnd, afterDimensions_of_not rfl rfl]
      rfl
  apply hends
  rw [TypeForm.methodEnding]
  by_cases habstract : form.isAbstract
  · rw [if_pos habstract]
    exact Or.inl rfl
  · rw [if_neg habstract]
    exact Or.inr rfl

theorem nextMembers_method
    (form : TypeForm) (annotations : List DottedName) (name : Identifier) (rest : List Tree) :
    nextMembers (annotationTrees annotations ++ ofWord form.methodType :: name.tree ::
        enclosed .round [] :: form.methodEnding :: rest) =
      ([.method (annotationNodes annotations) [] name.text], rest) := by
  have hform : form.methodType = "int" ∨ form.methodType = "void" := by
    cases form with
    | annotationType => exact Or.inl rfl
    | _ => exact Or.inr rfl
  generalize form.methodType = type at *
  have htype : type ∈ primitiveTypes ∧ IsPlainWord type := by
    rcases hform with rfl | rfl
    · decide
    · decide
  have hmodifiers := modifiers_annotationTrees annotations type
    (ofWord name.text :: enclosed .round [] :: form.methodEnding :: rest)
  rw [modifiers_ofWord htype.2, List.append_nil] at hmodifiers
  apply nextMembers_of_typedMembers? hform hmodifiers
  have hword : (ofWord name.text).word? = some name.text := rfl
  have hround : (enclosed .round []).isGroup .round = true := rfl
  rw [typedMembers?, typeReference?_primitive htype.1]
  dsimp only
  rw [hword]
  dsimp only
  rw [if_pos hround, methodEnd_methodEnding]
  rfl

theorem nextMembers_constructor
    (annotations : List DottedName) (owner : Identifier) (rest : List Tree) :
    nextMembers (annotationTrees annotations ++ owner.tree :: enclosed .round [] ::
        enclosed .curly [] :: rest) =
      ([.constructor (annotationNodes annotations)], rest) := by
  have hmodifiers := modifiers_annotationTrees annotations owner.text
    (enclosed .round [] :: enclosed .curly [] :: rest)
  rw [modifiers_ofWord owner.isPlainWord, List.append_nil] at hmodifiers
  have hhead : typeHead? (annotationNodes annotations)
      (ofWord owner.text :: enclosed .round [] :: enclosed .curly [] :: rest) = none := rfl
  rw [show owner.tree = ofWord owner.text from rfl, nextMembers_of_typeHead?_eq_none hmodifiers hhead
    (annotations_afterTypeArguments_of_not rfl rfl _)]
  rfl

end Members

section Heads

/-- The annotations of a type come before its keyword, which is no modifier. -/
theorem modifiers_typeTrees
    (form : TypeForm) (annotations : List DottedName) (rest : List Tree) :
    modifiers (annotationTrees annotations ++ ofWord form.keyword :: rest) =
      (annotationNodes annotations, ofWord form.keyword :: rest) := by
  have hplain : IsPlainWord form.keyword := by
    have hwords : ∀ word ∈ ["class", "interface", "enum", "record", "@interface"],
        IsPlainWord word := by
      decide
    apply hwords
    cases form <;> simp [TypeForm.keyword]
  rw [modifiers_annotationTrees, modifiers_ofWord hplain, List.append_nil]

namespace TypeOutline

/-- The trees between the brackets of the type. -/
def inner : TypeOutline → List Tree
  | ⟨form, _, name, body⟩ =>
    constantTrees form.constants ++ form.separator body.isEmpty ++ body.trees form name

/-- The trees of the type without its annotations. -/
def unannotated : TypeOutline → List Tree
  | ⟨form, annotations, name, body⟩ =>
    ofWord form.keyword :: name.tree :: (form.headTrees ++
      [enclosed .curly (inner ⟨form, annotations, name, body⟩)])

/-- What is read of the type before its body is. -/
def head : TypeOutline → TypeHead
  | ⟨form, annotations, name, body⟩ =>
    ⟨form.kind, name.text, annotationNodes annotations, form.clause?,
      inner ⟨form, annotations, name, body⟩⟩

theorem modifiers_trees (outline : TypeOutline) (rest : List Tree) :
    modifiers (outline.trees ++ rest) =
      (outline.head.modifiers, outline.unannotated ++ rest) := by
  obtain ⟨form, annotations, name, body⟩ := outline
  have htrees := modifiers_typeTrees form annotations
    (name.tree :: (form.headTrees ++ enclosed .curly (inner ⟨form, annotations, name, body⟩) :: rest))
  rw [trees, head, unannotated, inner]
  rw [inner] at htrees
  simpa only [List.append_assoc, List.cons_append, List.nil_append] using htrees

theorem typeHead?_unannotated (outline : TypeOutline) (rest : List Tree) :
    typeHead? outline.head.modifiers (outline.unannotated ++ rest) = some (outline.head, rest) := by
  obtain ⟨form, annotations, name, body⟩ := outline
  have hhead := typeHead?_trees (annotationNodes annotations) form name
    (inner ⟨form, annotations, name, body⟩) rest
  rw [unannotated, head]
  simpa only [List.append_assoc, List.cons_append, List.nil_append] using hhead

theorem nextMembers_trees (outline : TypeOutline) (rest : List Tree) :
    nextMembers (outline.trees ++ rest) = ([.type outline.head], rest) :=
  nextMembers_of_typeHead? (outline.modifiers_trees rest) (outline.typeHead?_unannotated rest)

theorem item?_trees (outline : TypeOutline) (rest : List Tree) :
    item? (outline.trees ++ rest) = some (.type outline.head, rest) := by
  have hnone : packageItem? outline.head.modifiers (outline.unannotated ++ rest) = none ∧
      importItem? (outline.unannotated ++ rest) = none := by
    obtain ⟨form, annotations, name, body⟩ := outline
    cases form <;> exact ⟨rfl, rfl⟩
  rw [item?_eq_map_typeHead? (outline.modifiers_trees rest) hnone.1 hnone.2,
    outline.typeHead?_unannotated]
  rfl

end TypeOutline

end Heads

section Bodies

/-- The member that a constant is. -/
def ConstantOutline.member (constant : ConstantOutline) : Member :=
  .constant (annotationNodes constant.annotations) constant.name.text

/-- The constants of an enum are read up to the semicolon or to the end of its body. -/
theorem constants_constantTrees
    (outlines : List ConstantOutline) {ending : List Tree}
    (hending : ending = [] ∨ ∃ rest, ending = ofSymbol ';' :: rest) :
    constants (constantTrees outlines ++ ending) = (outlines.map ConstantOutline.member, ending) := by
  have hmodifiers : ∀ (constant : ConstantOutline) (rest : List Tree),
      modifiers (annotationTrees constant.annotations ++ constant.name.tree :: rest) =
        (annotationNodes constant.annotations, constant.name.tree :: rest) := by
    intro constant rest
    rw [show constant.name.tree = ofWord constant.name.text from rfl, modifiers_annotationTrees,
      modifiers_ofWord constant.name.isPlainWord, List.append_nil]
  induction outlines with
  | nil =>
      rcases hending with rfl | ⟨rest, rfl⟩
      · rw [constantTrees, List.append_nil, constants_eq, modifiers_nil]
        rfl
      · have hsemicolon : modifiers (ofSymbol ';' :: rest) = ([], ofSymbol ';' :: rest) :=
          modifiers_of_cons rfl
        rw [constantTrees, List.nil_append, constants_eq, hsemicolon]
        rfl
  | cons constant others ih =>
      cases others with
      | nil =>
          rw [constantTrees, List.append_assoc, List.singleton_append, constants_eq, hmodifiers]
          rcases hending with rfl | ⟨rest, rfl⟩
          · rfl
          · rfl
      | cons next more =>
          have hcomma : afterConstant (ofSymbol ',' :: (constantTrees (next :: more) ++ ending)) =
              ofSymbol ',' :: (constantTrees (next :: more) ++ ending) := rfl
          have hword : constant.name.tree.word? = some constant.name.text := rfl
          rw [constantTrees, List.append_assoc, List.cons_append, List.cons_append, constants_eq,
            hmodifiers]
          dsimp only
          rw [hword]
          dsimp only
          rw [hcomma]
          dsimp only
          rw [if_pos (show (ofSymbol ',').isSymbol ',' from rfl), ih]
          rfl

theorem nextMembers_nil : nextMembers [] = ([], []) := by
  have hannotations : annotations [] = ([], []) := by
    rw [annotations.eq_def]
    rfl
  have htype : typeReference? [] = none := by
    rw [typeReference?, hannotations]
  have hconstructor : constructor? [] [] = none := rfl
  have hmembers : typedMembers? [] [] [] = none := by
    rw [typedMembers?, htype]
  rw [nextMembers_of_typeHead?_eq_none modifiers_nil rfl hannotations, hconstructor]
  dsimp only
  rw [hmembers]
  rfl

/-- A tree that begins no member is passed over. -/
theorem nextMembers_of_not_word
    {names : List AnnotationNode} {trees rest : List Tree} {tree : Tree}
    (hmodifiers : modifiers trees = (names, tree :: rest))
    (hat : tree.isSymbol '@' = false) (hangle : tree.isSymbol '<' = false)
    (hword : tree.word? = none) : nextMembers trees = ([], rest) := by
  have hconstructor : constructor? names (tree :: rest) = none := by
    cases rest with
    | nil => rfl
    | cons next more =>
        rw [constructor?, hword]
        rfl
  have htype : typeReference? (tree :: rest) = none := by
    rw [typeReference?, annotations_of_not_at hat]
    dsimp only
    rw [hword]
  rw [nextMembers_of_typeHead?_eq_none hmodifiers
    (typeHead?_of_typeKind? (typeKind?_of_not_word hword rest))
    (annotations_afterTypeArguments_of_not hat hangle rest), hconstructor]
  dsimp only
  rw [typedMembers?, htype]
  rfl

theorem nextMembers_of_isSymbol {mark : Tree} (h : mark.isSymbol ';') (rest : List Tree) :
    nextMembers (mark :: rest) = ([], rest) := by
  obtain ⟨before, rfl⟩ := exists_leaf_of_isSymbol h
  exact nextMembers_of_not_word (modifiers_of_cons rfl) rfl rfl rfl

/-- The members that are read of a body. -/
def BodyOutline.members {hasConstructors : Bool} : BodyOutline hasConstructors → List Member
  | .nil => []
  | .fields annotations name more rest =>
    .fields (annotationNodes annotations) [] ((name :: more).map Identifier.text) :: rest.members
  | .method annotations name rest =>
    .method (annotationNodes annotations) [] name.text :: rest.members
  | .constructor annotations rest => .constructor (annotationNodes annotations) :: rest.members
  | .type inner rest => .type inner.head :: rest.members

theorem members_of_nextMembers_cons
    {trees rest : List Tree} {member : Member} {found : List Member}
    (h : nextMembers trees = (member :: found, rest)) :
    members trees = member :: found ++ members rest := by
  apply members_of_nextMembers _ h
  rintro rfl
  rw [nextMembers_nil] at h
  cases h

/-- A body is read member by member. -/
theorem members_trees {hasConstructors : Bool} (form : TypeForm) : (owner : Identifier) →
    (body : BodyOutline hasConstructors) → members (body.trees form owner) = body.members
  | _, .nil => members_nil
  | owner, .fields annotations name more rest => by
    rw [BodyOutline.trees, BodyOutline.members, ← members_trees form owner rest]
    exact members_of_nextMembers_cons (nextMembers_fields form annotations name more _)
  | owner, .method annotations name rest => by
    rw [BodyOutline.trees, BodyOutline.members, ← members_trees form owner rest]
    exact members_of_nextMembers_cons (nextMembers_method form annotations name _)
  | owner, .constructor annotations rest => by
    rw [BodyOutline.trees, BodyOutline.members, ← members_trees form owner rest]
    exact members_of_nextMembers_cons (nextMembers_constructor annotations owner _)
  | owner, .type inner rest => by
    rw [BodyOutline.trees, BodyOutline.members, ← members_trees form owner rest]
    exact members_of_nextMembers_cons (inner.nextMembers_trees _)

/-- The members of a type are its constants and what its body holds. -/
theorem members_head
    (form : TypeForm) (annotations : List DottedName) (name : Identifier)
    (body : BodyOutline form.hasConstructors) :
    (TypeOutline.mk form annotations name body).head.members =
      form.constants.map ConstantOutline.member ++ body.members := by
  rw [TypeOutline.head, TypeHead.members, TypeOutline.inner]
  dsimp only
  by_cases henum : form.kind = .enum
  · obtain ⟨outlines, rfl⟩ : ∃ outlines, form = .enum outlines := by
      cases form with
      | enum outlines => exact ⟨outlines, rfl⟩
      | _ => cases henum
    rw [if_pos henum, List.append_assoc]
    by_cases hempty : body.isEmpty
    · have hnil : body = .nil := by
        cases body with
        | nil => rfl
        | _ => cases hempty
      subst hnil
      have hall := constants_constantTrees outlines (Or.inl rfl)
      rw [TypeForm.separator, if_pos hempty, BodyOutline.trees]
      rw [List.append_nil] at hall ⊢
      rw [TypeForm.constants, List.append_nil, hall, members_nil, BodyOutline.members]
    · have hall := constants_constantTrees outlines
        (Or.inr ⟨body.trees (.enum outlines) name, rfl⟩)
      have hmark : (ofSymbol ';').isSymbol ';' := rfl
      have hsemicolon := nextMembers_of_isSymbol hmark (body.trees (.enum outlines) name)
      rw [TypeForm.separator, if_neg hempty, List.singleton_append, TypeForm.constants, hall]
      dsimp only
      rw [members_of_nextMembers (List.cons_ne_nil _ _) hsemicolon, members_trees]
      rfl
  · have hnone : form.constants = [] ∧ form.separator body.isEmpty = [] := by
      cases form with
      | enum outlines => exact absurd rfl henum
      | _ => exact ⟨rfl, rfl⟩
    rw [if_neg henum, hnone.1, hnone.2, constantTrees, List.nil_append, List.nil_append,
      members_trees]
    rfl

end Bodies

section Declarations

theorem depthAll_append (trees others : List Tree) :
    depthAll (trees ++ others) = max (depthAll trees) (depthAll others) := by
  induction trees with
  | nil => rw [List.nil_append, depthAll, Nat.zero_max]
  | cons tree rest ih => rw [List.cons_append, depthAll, depthAll, ih, Nat.max_assoc]

theorem depthAll_lt_of_head
    {form : TypeForm} {annotations : List DottedName} {name : Identifier}
    {body : BodyOutline form.hasConstructors} :
    depthAll (body.trees form name) < depthAll (TypeOutline.mk form annotations name body).trees := by
  rw [TypeOutline.trees, List.append_assoc, List.cons_append, List.cons_append]
  simp only [depthAll_append, depthAll, enclosed, depth]
  omega

theorem ConstantOutline.declarations_member (ofType : TypeHead → Declaration)
    (constant : ConstantOutline) :
    constant.member.declarations ofType =
      [⟨.enumConstant, constant.name.text, annotationTexts constant.annotations, none, []⟩] := by
  rw [member, Member.declarations, annotationNames_annotationNodes]

theorem ConstantOutline.flatMap_declarations_member (ofType : TypeHead → Declaration)
    (constants : List ConstantOutline) :
    (constants.map member).flatMap (Member.declarations ofType) =
      constants.map fun constant =>
        ⟨.enumConstant, constant.name.text, annotationTexts constant.annotations, none, []⟩ := by
  rw [List.flatMap_map, List.map_eq_flatMap]
  exact congrArg constants.flatMap (funext fun constant => constant.declarations_member ofType)

theorem TypeOutline.withMembers_head
    (form : TypeForm) (annotations : List DottedName) (name : Identifier)
    (body : BodyOutline form.hasConstructors) (members : List Declaration) :
    (TypeOutline.mk form annotations name body).head.withMembers members =
      ⟨form.kind, name.text, annotationTexts annotations, form.superclass?, members⟩ := by
  rw [TypeHead.withMembers, head, annotationNames_annotationNodes, form.bind_clause?]

mutual

/-- A type is read whole if no level of its brackets is left out. -/
theorem TypeOutline.declaration_head (levels : Nat) :
    (outline : TypeOutline) → depthAll outline.trees ≤ levels →
      outline.head.declaration levels = outline.declaration
  | ⟨form, annotations, name, body⟩, h => by
    obtain ⟨lower, rfl⟩ : ∃ lower, levels = lower + 1 :=
      Nat.exists_eq_add_one_of_ne_zero (Nat.ne_zero_of_lt (Nat.lt_of_lt_of_le depthAll_lt_of_head h))
    have hbody := BodyOutline.flatMap_declarations_members lower form name body
      (Nat.le_of_lt_succ (Nat.lt_of_lt_of_le depthAll_lt_of_head h))
    rw [TypeHead.declaration, TypeOutline.withMembers_head, members_head, List.flatMap_append,
      ConstantOutline.flatMap_declarations_member, hbody, TypeOutline.declaration]

theorem BodyOutline.flatMap_declarations_members {hasConstructors : Bool} (levels : Nat)
    (form : TypeForm) (owner : Identifier) :
    (body : BodyOutline hasConstructors) → depthAll (body.trees form owner) ≤ levels →
      body.members.flatMap (Member.declarations (TypeHead.declaration levels)) = body.declarations
  | .nil, _ => rfl
  | .fields annotations name more rest, h => by
    have hrest : depthAll (rest.trees form owner) ≤ levels := by
      simp only [BodyOutline.trees, depthAll_append, depthAll] at h
      omega
    rw [BodyOutline.members, BodyOutline.declarations, List.flatMap_cons, Member.declarations,
      annotationNames_annotationNodes, List.map_map,
      BodyOutline.flatMap_declarations_members levels form owner rest hrest]
    rfl
  | .method annotations name rest, h => by
    have hrest : depthAll (rest.trees form owner) ≤ levels := by
      simp only [BodyOutline.trees, depthAll_append, depthAll] at h
      omega
    rw [BodyOutline.members, BodyOutline.declarations, List.flatMap_cons, Member.declarations,
      annotationNames_annotationNodes,
      BodyOutline.flatMap_declarations_members levels form owner rest hrest, List.singleton_append]
  | .constructor annotations rest, h => by
    have hrest : depthAll (rest.trees form owner) ≤ levels := by
      simp only [BodyOutline.trees, depthAll_append, depthAll] at h
      omega
    rw [BodyOutline.members, BodyOutline.declarations, List.flatMap_cons, Member.declarations,
      annotationNames_annotationNodes,
      BodyOutline.flatMap_declarations_members levels form owner rest hrest, List.singleton_append]
  | .type inner rest, h => by
    rw [BodyOutline.trees, depthAll_append] at h
    rw [BodyOutline.members, BodyOutline.declarations, List.flatMap_cons, Member.declarations,
      TypeOutline.declaration_head levels inner (Nat.le_trans (Nat.le_max_left _ _) h),
      BodyOutline.flatMap_declarations_members levels form owner rest
        (Nat.le_trans (Nat.le_max_right _ _) h), List.singleton_append]

end

end Declarations

end ComponentMarkers.Source
