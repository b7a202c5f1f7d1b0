import ComponentMarkers.Proofs.Source.ExtendsClauses
import ComponentMarkers.Proofs.Source.Levels

/-!
# Declarations of classes with a superclass

A class that extends a class type is declared with modifiers, a name, type parameters, the interfaces it
implements, the classes it permits, and a body.  Wherever the reader looks for a declaration, it reads such
a class with the name that `ExtendsClauses` gives for its superclass.
-/

namespace ComponentMarkers.Source

open Text Source.Tree

/-- An annotation before a declaration, or a word that modifies it. -/
inductive DeclarationModifier where
  | annotated (use : AnnotationUse)
  | word (text : String) (isModifier : text ∈ "sealed" :: modifierWords)

namespace DeclarationModifier

/-- The trees of the modifier. -/
def trees : DeclarationModifier → List Tree
  | annotated use => use.trees
  | word text _ => [ofWord text]

/-- The annotation that is read. -/
def node? : DeclarationModifier → Option AnnotationNode
  | annotated use => some use.node
  | word _ _ => none

end DeclarationModifier

/-- Rows of trees with a sign between any two of them. -/
def separated (sign : Char) : List (List Tree) → List Tree
  | [] => []
  | row :: rest => row ++ rest.flatMap fun row => ofSymbol sign :: row

/-- Rows of trees after a word, where there are some. -/
def clause (word : String) (sign : Char) (rows : List (List Tree)) : List Tree :=
  if rows.isEmpty then [] else ofWord word :: separated sign rows

/-- A type parameter with its bounds. -/
structure TypeParameter where
  annotations : List AnnotationUse
  name : NameWord
  bounds : List ReferenceType

/-- The trees of a type parameter. -/
def TypeParameter.trees (parameter : TypeParameter) : List Tree :=
  useTrees parameter.annotations ++ parameter.name.tree ::
    clause "extends" '&' (parameter.bounds.map ReferenceType.trees)

/-- The declaration of a class that extends another one. -/
structure ClassDeclaration where
  modifiers : List DeclarationModifier
  name : NameWord
  parameters : List TypeParameter
  superclass : ClassType
  interfaces : List ClassType
  permitted : List ClassType
  body : List Tree

namespace ClassDeclaration

/-- What stands between the type parameters and the body. -/
def clauses (declaration : ClassDeclaration) : List Tree :=
  ofWord "extends" :: declaration.superclass.trees ++
    clause "implements" ',' (declaration.interfaces.map ClassType.trees) ++
    clause "permits" ',' (declaration.permitted.map ClassType.trees)

/-- The trees from the word `class` on. -/
def unmodified (declaration : ClassDeclaration) : List Tree :=
  ofWord "class" :: declaration.name.tree ::
    angled (separated ',' (declaration.parameters.map TypeParameter.trees)) ++ declaration.clauses ++
      [enclosed .curly declaration.body]

/-- The trees of the declaration. -/
def trees (declaration : ClassDeclaration) : List Tree :=
  declaration.modifiers.flatMap DeclarationModifier.trees ++ declaration.unmodified

/-- What is read of the declaration before its body is. -/
def head (declaration : ClassDeclaration) : TypeHead where
  kind := .classType
  name := declaration.name.text
  modifiers := declaration.modifiers.filterMap DeclarationModifier.node?
  superclass := some (.type (.named (writtenAll declaration.superclass.namedTrees)))
  body := declaration.body

end ClassDeclaration

section Parts

variable {P : List Tree → Prop}

theorem IsCompositional.separated
    (h : IsCompositional P) {sign : Char} (hsign : P [ofSymbol sign]) {rows : List (List Tree)}
    (hrows : ∀ row ∈ rows, P row) : P (Source.separated sign rows) := by
  cases rows with
  | nil => exact h.nil
  | cons row rest =>
      obtain ⟨hrow, hrest⟩ := List.forall_mem_cons.1 hrows
      apply h.append hrow
      apply h.flatMap
      intro other hother
      exact h.cons hsign (hrest other hother)

theorem IsCompositional.clause
    (h : IsCompositional P) {word : String} (hword : P [ofWord word]) {sign : Char}
    (hsign : P [ofSymbol sign]) {rows : List (List Tree)} (hrows : ∀ row ∈ rows, P row) :
    P (Source.clause word sign rows) := by
  rw [Source.clause]
  split
  · exact h.nil
  · exact h.cons hword (h.separated hsign hrows)

theorem TypeParameter.passesAngles (parameter : TypeParameter) : PassesAngles parameter.trees := by
  have h := isCompositional_passesAngles
  apply h.append
  · exact h.flatMap fun use _ => use.passesAngles
  · apply h.cons (h.word parameter.name.isName)
    apply h.clause (h.word (by decide +kernel)) (h.sign (by decide))
    intro row hrow
    obtain ⟨bound, -, rfl⟩ := List.mem_map.1 hrow
    exact h.type bound fun use _ => use.passesAngles

theorem isCompositional_areClauseParts :
    IsCompositional fun trees => ∀ tree ∈ trees, isClausePart tree where
  nil := by simp
  append := fun htrees hothers => List.forall_mem_append.2 ⟨htrees, hothers⟩
  word := fun _ => List.forall_mem_singleton.2 rfl
  sign := by
    have hsigns : ['.', ',', '?', '&', '@'].all fun sign => isClausePart (ofSymbol sign) := by decide
    intro sign hsign
    exact List.forall_mem_singleton.2 (List.all_eq_true.1 hsigns sign hsign)
  square := List.forall_mem_singleton.2 rfl
  angles := by
    intro trees htrees
    exact List.forall_mem_append.2
      ⟨List.forall_mem_cons.2 ⟨rfl, htrees⟩, List.forall_mem_singleton.2 rfl⟩

theorem ClassType.areClauseParts (type : ClassType) : ∀ tree ∈ type.trees, isClausePart tree := by
  have h := isCompositional_areClauseParts
  have huse : ∀ use : AnnotationUse, ∀ tree ∈ use.trees, isClausePart tree :=
    h.use fun _ => List.forall_mem_singleton.2 rfl
  exact h.append (h.segment type.first fun use _ => huse use) (h.segments type.more fun use _ => huse use)

theorem ClassDeclaration.areClauseParts (declaration : ClassDeclaration) :
    ∀ tree ∈ declaration.clauses, isClausePart tree := by
  have h := isCompositional_areClauseParts
  have htypes : ∀ types : List ClassType, ∀ row ∈ types.map ClassType.trees, ∀ tree ∈ row,
      isClausePart tree := by
    intro types row hrow
    obtain ⟨type, -, rfl⟩ := List.mem_map.1 hrow
    exact type.areClauseParts
  have hcomma : ∀ tree ∈ [ofSymbol ','], isClausePart tree := h.sign (by decide)
  apply h.append
  · apply h.append
    · exact h.cons (List.forall_mem_singleton.2 rfl) declaration.superclass.areClauseParts
    · exact h.clause (List.forall_mem_singleton.2 rfl) hcomma (htypes declaration.interfaces)
  · exact h.clause (List.forall_mem_singleton.2 rfl) hcomma (htypes declaration.permitted)

end Parts

section Heads

/-- A class type ends before further clauses and before a body. -/
theorem ClassDeclaration.exists_endsClassType (declaration : ClassDeclaration) (rest : List Tree) :
    ∃ tree more, clause "implements" ',' (declaration.interfaces.map ClassType.trees) ++
      (clause "permits" ',' (declaration.permitted.map ClassType.trees) ++
        enclosed .curly declaration.body :: rest) = tree :: more ∧ EndsClassType tree := by
  rw [clause, clause]
  split
  · split
    · exact ⟨_, _, rfl, rfl, rfl, rfl, rfl⟩
    · exact ⟨_, _, rfl, rfl, rfl, rfl, rfl⟩
  · exact ⟨_, _, rfl, rfl, rfl, rfl, rfl⟩

/-- No comment stands before a class type. -/
theorem ClassType.exists_trees_eq_cons (type : ClassType) :
    ∃ first rest, type.trees = first :: rest ∧ first.first.before = [] := by
  obtain ⟨⟨annotations, name, arguments⟩, more⟩ := type
  rw [trees, TypeSegment.trees]
  cases annotations with
  | nil => exact ⟨_, _, rfl, rfl⟩
  | cons use uses => exact ⟨_, _, rfl, rfl⟩

theorem ClassDeclaration.extendsClause?_clauses (declaration : ClassDeclaration) (rest : List Tree) :
    extendsClause? (declaration.clauses ++ enclosed .curly declaration.body :: rest) =
      declaration.head.superclass := by
  obtain ⟨tree, more, htrees, hends⟩ := declaration.exists_endsClassType rest
  have hrow : declaration.clauses ++ enclosed .curly declaration.body :: rest =
      ofWord "extends" :: (declaration.superclass.trees ++ tree :: more) := by
    rw [← htrees, clauses]
    simp only [List.append_assoc, List.cons_append]
  have htype := typeReference?_classType hends declaration.superclass more
  obtain ⟨first, others, hsame, hbefore⟩ := declaration.superclass.exists_trees_eq_cons
  have hextends : (ofWord "extends").isWord "extends" = true := rfl
  rw [hsame, List.cons_append] at hrow htype
  rw [hrow, extendsClause?, hextends, hbefore, htype]
  rfl

theorem ClassDeclaration.typeHead?_unmodified
    (declaration : ClassDeclaration) (names : List AnnotationNode) (rest : List Tree) :
    typeHead? names (declaration.unmodified ++ rest) =
      some ({ declaration.head with modifiers := names }, rest) := by
  have hparameters : PassesAngles
      (separated ',' (declaration.parameters.map TypeParameter.trees)) := by
    apply isCompositional_passesAngles.separated (isCompositional_passesAngles.sign (by decide))
    intro row hrow
    obtain ⟨parameter, -, rfl⟩ := List.mem_map.1 hrow
    exact parameter.passesAngles
  have hclauses : afterTypeArguments
      (angled (separated ',' (declaration.parameters.map TypeParameter.trees)) ++
        (declaration.clauses ++ enclosed .curly declaration.body :: rest)) =
      declaration.clauses ++ enclosed .curly declaration.body :: rest := by
    have hextends : (ofWord "extends").isSymbol '<' = false := rfl
    exact afterTypeArguments_angled hparameters hextends _
  have hbody : body? (declaration.clauses ++ enclosed .curly declaration.body :: rest) =
      some (declaration.body, rest) :=
    body?_of_isClausePart declaration.areClauseParts _ _ _ rest
  have hsuper := declaration.extendsClause?_clauses rest
  have hrow : declaration.unmodified ++ rest = ofWord "class" :: declaration.name.tree ::
      (angled (separated ',' (declaration.parameters.map TypeParameter.trees)) ++
        (declaration.clauses ++ enclosed .curly declaration.body :: rest)) := by
    rw [unmodified]
    simp only [List.append_assoc, List.cons_append, List.nil_append]
  have hkind : ∀ more, typeKind? (ofWord "class" :: declaration.name.tree :: more) = some .classType :=
    fun _ => rfl
  rw [hrow]
  unfold typeHead?
  rw [hkind]
  dsimp only
  rw [hclauses, hbody, hsuper]
  rfl

end Heads

section Modifiers

/-- The word before another one, or before an annotation, is a modifier. -/
theorem isModifier_ofWord
    {text : String} (h : text ∈ "sealed" :: modifierWords) {next : Tree}
    (hnext : next.isSymbol '@' || next.word?.any fun word => word ≠ "instanceof") (rest : List Tree) :
    isModifier (ofWord text :: next :: rest) := by
  have hword : (ofWord text).word? = some text := rfl
  rw [isModifier.eq_def]
  dsimp only
  rw [hword]
  split
  · rename_i hnone
    cases hnone
  · exact hnext
  · rename_i hnot hsome
    obtain rfl := Option.some.inj hsome
    rcases List.mem_cons.1 h with rfl | h
    · exact (hnot rfl).elim
    · exact List.contains_iff_mem.2 h

/-- Before a class, a row of modifiers begins with an annotation or a word. -/
theorem exists_modifierTrees_eq_cons (row : List DeclarationModifier) (rest : List Tree) :
    ∃ next others, row.flatMap DeclarationModifier.trees ++ ofWord "class" :: rest = next :: others ∧
      next.isSymbol '.' = false ∧ next.isGroup .round = false ∧
      (next.isSymbol '@' || next.word?.any fun word => word ≠ "instanceof") = true := by
  cases row with
  | nil => exact ⟨_, _, rfl, rfl, rfl, rfl⟩
  | cons modifier others =>
      cases modifier with
      | annotated use => exact ⟨_, _, rfl, rfl, rfl, rfl⟩
      | word text isModifier =>
          refine ⟨ofWord text, _, rfl, rfl, rfl, ?_⟩
          have hwords : ∀ text ∈ "sealed" :: modifierWords, text ≠ "instanceof" := by decide
          exact decide_eq_true (hwords text isModifier)

theorem modifiers_modifierTrees (row : List DeclarationModifier) (rest : List Tree) :
    modifiers (row.flatMap DeclarationModifier.trees ++ ofWord "class" :: rest) =
      (row.filterMap DeclarationModifier.node?, ofWord "class" :: rest) := by
  induction row with
  | nil => exact modifiers_ofWord (by decide) rest
  | cons modifier others ih =>
      obtain ⟨next, more, htrees, hdot, hround, hnext⟩ := exists_modifierTrees_eq_cons others rest
      rw [List.flatMap_cons, List.append_assoc]
      rw [htrees] at ih ⊢
      cases modifier with
      | annotated use =>
          have huse := annotation?_use hdot hround use more
          rw [DeclarationModifier.trees, modifiers_of_annotation? huse, ih]
          rfl
      | word text isModifier =>
          rw [DeclarationModifier.trees, List.singleton_append, modifiers_of_cons rfl,
            if_pos (isModifier_ofWord isModifier hnext more), ih]
          rfl

end Modifiers

namespace ClassDeclaration

variable (declaration : ClassDeclaration) (rest : List Tree)

theorem modifiers_trees :
    Source.modifiers (declaration.trees ++ rest) =
      (declaration.head.modifiers, declaration.unmodified ++ rest) := by
  rw [trees, List.append_assoc]
  exact modifiers_modifierTrees declaration.modifiers (declaration.unmodified ++ rest).tail

/-- The declaration is read at the top of a source. -/
theorem item?_trees :
    item? (declaration.trees ++ rest) = some (.type declaration.head, rest) := by
  have hnone : packageItem? declaration.head.modifiers (declaration.unmodified ++ rest) = none ∧
      importItem? (declaration.unmodified ++ rest) = none := ⟨rfl, rfl⟩
  rw [item?_eq_map_typeHead? (declaration.modifiers_trees rest) hnone.1 hnone.2,
    declaration.typeHead?_unmodified]
  rfl

/-- The declaration is read in a body. -/
theorem nextMembers_trees :
    nextMembers (declaration.trees ++ rest) = ([.type declaration.head], rest) :=
  nextMembers_of_typeHead? (declaration.modifiers_trees rest) (declaration.typeHead?_unmodified _ rest)

/-- The reader comes to the declaration at the top of the trees or in the body of a type it has come to.
What it reads before that does not matter. -/
inductive IsReadIn (declaration : ClassDeclaration) (trees : List Tree) : Prop where
  | top {before : List Item} {rest : List Tree}
      (h : items trees = before ++ items (declaration.trees ++ rest)) : IsReadIn declaration trees
  | inside {outer : TypeHead} {before : List Member} {rest : List Tree} (houter : IsRead trees outer)
      (h : outer.members = before ++ members (declaration.trees ++ rest)) : IsReadIn declaration trees

variable {declaration}

theorem IsReadIn.isRead {trees : List Tree} (h : declaration.IsReadIn trees) :
    IsRead trees declaration.head := by
  cases h with
  | @top before rest h =>
      apply IsRead.top
      rw [h, items_of_item? (declaration.item?_trees rest)]
      exact List.mem_append_right _ List.mem_cons_self
  | @inside outer before rest houter h =>
      apply houter.inside
      rw [h, members_of_nextMembers_cons (declaration.nextMembers_trees rest)]
      exact List.mem_append_right _ List.mem_cons_self

end ClassDeclaration

/-- A class with a superclass is read wherever a declaration is looked for, at every depth of a source.  What
is read as the superclass is the name of the class type if no name after the first is annotated, and only
then; the annotations inside its type arguments have to close their angle brackets. -/
theorem readUnit_extendedClass (declaration : ClassDeclaration) :
    (∀ rest, item? (declaration.trees ++ rest) = some (.type declaration.head, rest) ∧
      nextMembers (declaration.trees ++ rest) = ([.type declaration.head], rest)) ∧
    ∀ source path, declaration.IsReadIn (nest (tokens source)) →
      ∃ read place, (readUnit source path).HasPlace (read :: place) ∧ read.kind = .classType ∧
        read.name = declaration.name.text ∧
        read.superclass = some declaration.superclass.readName ∧
        (declaration.superclass.ClosesAngles →
          (read.superclass = some declaration.superclass.name ↔
            ∀ segment ∈ declaration.superclass.more, segment.annotations = [])) := by
  refine ⟨fun rest => ⟨declaration.item?_trees rest, declaration.nextMembers_trees rest⟩, ?_⟩
  intro source path hreads
  obtain ⟨levels, place, -, hplace⟩ := hreads.isRead.exists_hasPlace path
  have hread : (declaration.head.declaration levels).kind = .classType ∧
      (declaration.head.declaration levels).name = declaration.name.text ∧
      (declaration.head.declaration levels).superclass = some declaration.superclass.readName := by
    rw [TypeHead.declaration_eq]
    exact ⟨rfl, rfl, rfl⟩
  obtain ⟨hkind, hname, hsuper⟩ := hread
  refine ⟨_, place, hplace, hkind, hname, hsuper, ?_⟩
  intro hcloses
  rw [hsuper, Option.some_inj]
  exact declaration.superclass.readName_eq_name_iff hcloses

section Examples

/-- The name of a type parameter, a word of its own. -/
def parameterWord : NameWord :=
  ⟨"T", by decide +kernel, by decide⟩

/-- A class type of one name. -/
def ClassType.simple (name : NameWord) (arguments : List TypeArgument) : ClassType :=
  ⟨⟨[], name, arguments⟩, []⟩

/-- The type parameter as a type argument, an annotation before it. -/
def annotatedArgument (word : NameWord) (arguments : Option (List Tree)) : TypeArgument :=
  .type (.classes ⟨[⟨word, [], arguments⟩], parameterWord, []⟩ [] [])

/-- A class in the body of another one, with a superclass that has all that a class type may have. -/
def fleetSource : String :=
  "class Fleet extends Base \x7b final class Truck<T> extends @A lib.Map<@B(\"<>\") T, ? super int[]>.Entry<?>
    implements Open \x7b\x7d int n; \x7d"

/-- The inner class of the source. -/
def truckClass : ClassDeclaration where
  modifiers := [.word "final" (by decide)]
  name := ⟨"Truck", by decide +kernel, by decide⟩
  parameters := [⟨[], parameterWord, []⟩]
  superclass :=
    ⟨⟨[⟨⟨"A", by decide +kernel, by decide⟩, [], none⟩], ⟨"lib", by decide +kernel, by decide⟩, []⟩,
      [⟨[], ⟨"Map", by decide +kernel, by decide⟩,
        [annotatedArgument ⟨"B", by decide +kernel, by decide⟩ (some [.leaf ⟨[], .quoted "\"<>\""⟩]),
          .bounded [] false (.primitives [] "int" (by decide) [[]])]⟩,
        ⟨[], ⟨"Entry", by decide +kernel, by decide⟩, [.wildcard []]⟩]⟩
  interfaces := [.simple ⟨"Open", by decide +kernel, by decide⟩ []]
  permitted := []
  body := []

/-- The outer class of the source. -/
def fleetClass : ClassDeclaration where
  modifiers := []
  name := ⟨"Fleet", by decide +kernel, by decide⟩
  parameters := []
  superclass := .simple ⟨"Base", by decide +kernel, by decide⟩ []
  interfaces := []
  permitted := []
  body := truckClass.trees ++ [ofWord "int", ofWord "n", ofSymbol ';']

/-- No name after the first is annotated, so the superclass is read without anything around its names. -/
theorem readUnit_extendedClass_fleetSource :
    truckClass.IsReadIn (nest (tokens fleetSource)) ∧ truckClass.superclass.ClosesAngles ∧
      ∃ read place, (readUnit fleetSource none).HasPlace (read :: place) ∧ read.name = "Truck" ∧
        read.superclass = some "lib.Map.Entry" := by
  have htokens : tokens fleetSource = tokensAmong fleetClass.trees := by decide +kernel
  have hnest : nest (tokensAmong fleetClass.trees) = fleetClass.trees := rfl
  have hreads : truckClass.IsReadIn (nest (tokens fleetSource)) := by
    have hfleet : items fleetClass.trees = [.type fleetClass.head] := by
      have hitem := items_of_item? (fleetClass.item?_trees [])
      rwa [List.append_nil, items_nil] at hitem
    have houter : IsRead fleetClass.trees fleetClass.head := by
      apply IsRead.top
      rw [hfleet]
      exact List.mem_singleton_self _
    have hmembers : fleetClass.head.members = [] ++ members fleetClass.body := rfl
    rw [htokens, hnest]
    exact .inside houter hmembers
  have hcloses : truckClass.superclass.ClosesAngles := by
    unfold ClassType.ClosesAngles
    decide +kernel
  have hclean : ∀ segment ∈ truckClass.superclass.more, segment.annotations = [] := by
    exact List.forall_mem_cons.2 ⟨rfl, List.forall_mem_singleton.2 rfl⟩
  have hdotted : truckClass.superclass.name = "lib.Map.Entry" := by decide +kernel
  obtain ⟨read, place, hplace, -, hname, -, hiff⟩ :=
    (readUnit_extendedClass truckClass).2 fleetSource none hreads
  refine ⟨hreads, hcloses, read, place, hplace, hname, ?_⟩
  rw [(hiff hcloses).2 hclean, hdotted]

/-- A class that extends a class type. -/
def extendingClass (superclass : ClassType) : ClassDeclaration where
  modifiers := []
  name := ⟨"A", by decide +kernel, by decide⟩
  parameters := []
  superclass := superclass
  interfaces := []
  permitted := []
  body := []

/-- A class type whose second name is annotated. -/
def annotatedType : ClassType :=
  ⟨⟨[], ⟨"a", by decide +kernel, by decide⟩, []⟩,
    [⟨[⟨⟨"N", by decide +kernel, by decide⟩, [], none⟩], ⟨"B", by decide +kernel, by decide⟩, []⟩]⟩

/-- A class type with an angle bracket in a literal inside its type arguments. -/
def quotedType : ClassType :=
  ⟨⟨[], ⟨"Outer", by decide +kernel, by decide⟩,
      [annotatedArgument ⟨"N", by decide +kernel, by decide⟩ (some [.leaf ⟨[], .quoted "\">\""⟩])]⟩,
    [⟨[], ⟨"Inner", by decide +kernel, by decide⟩, []⟩]⟩

/-- An annotation between two names stays in the superclass that is read, and so do parts of one inside type
arguments that does not close its angle brackets. -/
theorem superclass_keeps_annotations :
    ((extendingClass annotatedType).IsReadIn (nest (tokens "class A extends a.@N B \x7b\x7d")) ∧
      annotatedType.name = "a.B" ∧
      (readUnit "class A extends a.@N B \x7b\x7d" none).types.map Declaration.superclass =
        [some "a.@NB"]) ∧
    (extendingClass quotedType).IsReadIn
        (nest (tokens "class A extends Outer<@N(\">\") T>.Inner \x7b\x7d")) ∧
      quotedType.name = "Outer.Inner" ∧
      (readUnit "class A extends Outer<@N(\">\") T>.Inner \x7b\x7d" none).types.map Declaration.superclass =
        [some "Outer\")T.Inner"] := by
  have htop : ∀ type : ClassType, (extendingClass type).IsReadIn (extendingClass type).trees := by
    intro type
    have hitems : items (extendingClass type).trees =
        [] ++ items ((extendingClass type).trees ++ []) := by
      rw [List.append_nil, List.nil_append]
    exact .top hitems
  have hannotated : tokens "class A extends a.@N B \x7b\x7d" =
      tokensAmong (extendingClass annotatedType).trees := by
    decide +kernel
  have hquoted : tokens "class A extends Outer<@N(\">\") T>.Inner \x7b\x7d" =
      tokensAmong (extendingClass quotedType).trees := by
    decide +kernel
  refine ⟨⟨?_, ?_, ?_⟩, ?_, ?_, ?_⟩
  · rw [hannotated]
    exact htop annotatedType
  · decide +kernel
  · rw [map_superclass_types_readUnit]
    decide +kernel
  · rw [hquoted]
    exact htop quotedType
  · decide +kernel
  · rw [map_superclass_types_readUnit]
    decide +kernel

end Examples

end ComponentMarkers.Source
