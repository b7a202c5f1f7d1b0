import ComponentMarkers.Proofs.Source.Lexing
import ComponentMarkers.Proofs.Source.Outline

/-!
# Printed trees

Trees whose brackets are paired and whose lexemes read back come out of their text unchanged: the lexer
finds the tokens between the blanks, and nesting puts them into the same groups again.
-/

namespace ComponentMarkers.Source

open Text Source.Tree

namespace Lexeme

/-- The text of the lexeme alone is read as the lexeme. -/
def readsBack (lexeme : Lexeme) : Bool :=
  match lexeme.text.toList with
  | [] => false
  | c :: rest => nextPiece c rest = (.lexeme lexeme, [])

end Lexeme

mutual

/-- The brackets of the tree are paired, nothing stands before its tokens, and they read back. -/
def Tree.IsPrinted : Tree → Prop
  | .leaf token =>
    token.before = [] ∧ token.lexeme.readsBack ∧ Bracket.opening? token.lexeme = none ∧
      Bracket.closing? token.lexeme = none
  | .group bracket opening inner closing =>
    opening = ⟨[], .symbol bracket.openingChar⟩ ∧
      closing = some ⟨[], .symbol bracket.closingChar⟩ ∧ ArePrinted inner

/-- All of the trees are printed. -/
def ArePrinted : List Tree → Prop
  | [] => True
  | tree :: rest => tree.IsPrinted ∧ ArePrinted rest

end

theorem arePrinted_iff {trees : List Tree} :
    ArePrinted trees ↔ ∀ tree ∈ trees, tree.IsPrinted := by
  induction trees with
  | nil => simp [ArePrinted]
  | cons tree rest ih => simp [ArePrinted, ih]

theorem Bracket.opening?_openingChar (bracket : Bracket) :
    Bracket.opening? (.symbol bracket.openingChar) = some bracket := by
  cases bracket <;> rfl

theorem Bracket.closing?_closingChar (bracket : Bracket) :
    Bracket.opening? (.symbol bracket.closingChar) = none ∧
      Bracket.closing? (.symbol bracket.closingChar) = some bracket := by
  cases bracket <;> exact ⟨rfl, rfl⟩

mutual

theorem Tree.IsPrinted.isPaired : {tree : Tree} → tree.IsPrinted → tree.IsPaired
  | .leaf token, h => by
    rw [Tree.IsPrinted] at h
    exact .leaf h.2.2.1 h.2.2.2
  | .group bracket opening inner closing, h => by
    rw [Tree.IsPrinted] at h
    obtain ⟨rfl, rfl, hinner⟩ := h
    have hclosing := bracket.closing?_closingChar
    exact .group bracket.opening?_openingChar hinner.arePaired hclosing.1 hclosing.2

theorem ArePrinted.arePaired : {trees : List Tree} → ArePrinted trees → ArePaired trees
  | [], _ => .nil
  | tree :: rest, h => by
    rw [ArePrinted] at h
    exact .cons h.1.isPaired h.2.arePaired

end

mutual

theorem readsBack_of_mem_tokens :
    (tree : Tree) → tree.IsPrinted → ∀ token ∈ tree.tokens,
      token.before = [] ∧ token.lexeme.readsBack
  | .leaf token, h => by
    rw [Tree.IsPrinted] at h
    intro other hother
    obtain rfl := List.mem_singleton.1 hother
    exact ⟨h.1, h.2.1⟩
  | .group bracket opening inner closing, h => by
    rw [Tree.IsPrinted] at h
    obtain ⟨rfl, rfl, hinner⟩ := h
    have hopening : (Lexeme.symbol bracket.openingChar).readsBack ∧
        (Lexeme.symbol bracket.closingChar).readsBack := by
      cases bracket <;> decide +kernel
    intro token htoken
    rw [Tree.tokens, List.cons_append, List.mem_cons, List.mem_append] at htoken
    rcases htoken with rfl | htoken | htoken
    · exact ⟨rfl, hopening.1⟩
    · exact readsBack_of_mem_tokensAmong inner hinner token htoken
    · obtain rfl := List.mem_singleton.1 htoken
      exact ⟨rfl, hopening.2⟩

theorem readsBack_of_mem_tokensAmong :
    (trees : List Tree) → ArePrinted trees → ∀ token ∈ Tree.tokensAmong trees,
      token.before = [] ∧ token.lexeme.readsBack
  | [], _ => by
    intro token htoken
    rw [Tree.tokensAmong] at htoken
    cases htoken
  | tree :: rest, h => by
    rw [ArePrinted] at h
    intro token htoken
    rw [Tree.tokensAmong, List.mem_append] at htoken
    rcases htoken with htoken | htoken
    · exact readsBack_of_mem_tokens tree h.1 token htoken
    · exact readsBack_of_mem_tokensAmong rest h.2 token htoken

end

section Printed

theorem arePrinted_append {trees others : List Tree} :
    ArePrinted (trees ++ others) ↔ ArePrinted trees ∧ ArePrinted others := by
  simp only [arePrinted_iff, List.mem_append, or_imp, forall_and]

theorem arePrinted_cons {tree : Tree} {rest : List Tree} :
    ArePrinted (tree :: rest) ↔ tree.IsPrinted ∧ ArePrinted rest := by
  rw [ArePrinted]

theorem arePrinted_nil : ArePrinted [] := by
  rw [ArePrinted]
  trivial

theorem isPrinted_ofWord {word : String} (h : (Lexeme.word word).readsBack) :
    (ofWord word).IsPrinted := by
  rw [ofWord, IsPrinted]
  exact ⟨rfl, h, rfl, rfl⟩

/-- The words that stand in outlines by themselves. -/
theorem isPrinted_of_mem_words {word : String}
    (h : word ∈ ["package", "import", "static", "extends", "int", "void", "class", "interface", "enum",
      "record", "@interface"]) : (ofWord word).IsPrinted := by
  have hall : ∀ word ∈ ["package", "import", "static", "extends", "int", "void", "class", "interface",
      "enum", "record", "@interface"], (Lexeme.word word).readsBack := by
    decide +kernel
  exact isPrinted_ofWord (hall word h)

/-- The signs that stand in outlines by themselves. -/
theorem isPrinted_of_mem_signs {char : Char} (h : char ∈ ['.', '*', ';', ',', '@', '=']) :
    (ofSymbol char).IsPrinted := by
  have hall : ['.', '*', ';', ',', '@', '='].all fun char => (Lexeme.symbol char).readsBack &&
      Bracket.opening? (.symbol char) = none && Bracket.closing? (.symbol char) = none := by
    decide +kernel
  have hsign := List.all_eq_true.1 hall char h
  rw [Bool.and_eq_true, Bool.and_eq_true, decide_eq_true_eq, decide_eq_true_eq] at hsign
  rw [ofSymbol, IsPrinted]
  exact ⟨rfl, hsign.1.1, hsign.1.2, hsign.2⟩

theorem isPrinted_enclosed {bracket : Bracket} {inner : List Tree} (h : ArePrinted inner) :
    (enclosed bracket inner).IsPrinted := by
  rw [enclosed, IsPrinted]
  exact ⟨rfl, rfl, h⟩

theorem Identifier.isPrinted_tree (name : Identifier) : name.tree.IsPrinted := by
  apply isPrinted_ofWord
  have hname := name.isName
  unfold Source.isName at hname
  split at hname
  · cases hname
  · rename_i c rest htext
    obtain ⟨hstart, hrest⟩ := Bool.and_eq_true_iff.1 hname
    have hblank : isBlank c = false := by
      rw [← Bool.not_eq_true]
      intro hblank
      rw [isNameStart_of_isBlank hblank] at hstart
      cases hstart
    have hsame : String.ofList (c :: rest) = name.text := by
      rw [← htext, String.ofList_toList]
    have hend : ∀ d ∈ ([] : List Char).head?, isNamePart d = false := by
      intro d hd
      cases hd
    have hpiece := namePiece_append c (List.all_eq_true.1 hrest) hend
    have hnone : (if c :: rest = "non".toList then afterSealed? [] else none) = none :=
      ite_self none
    rw [hnone, List.append_nil, hsame] at hpiece
    have hnext : nextPiece c rest = (.lexeme (.word name.text), []) := by
      rw [nextPiece, hblank, if_neg Bool.false_ne_true, if_pos hstart, hpiece]
    rw [Lexeme.readsBack, Lexeme.text, htext]
    exact decide_eq_true hnext

theorem arePrinted_segmentTrees (segments : List Identifier) :
    ArePrinted (segmentTrees segments) := by
  rw [arePrinted_iff]
  intro tree htree
  obtain ⟨segment, -, hmem⟩ := List.mem_flatMap.1 htree
  rcases List.mem_cons.1 hmem with rfl | hmem
  · exact isPrinted_of_mem_signs (by decide)
  · rw [List.mem_singleton.1 hmem]
    exact segment.isPrinted_tree

theorem DottedName.arePrinted_trees (name : DottedName) : ArePrinted name.trees := by
  rw [DottedName.trees, arePrinted_cons]
  exact ⟨name.first.isPrinted_tree, arePrinted_segmentTrees name.more⟩

theorem arePrinted_annotationTrees (annotations : List DottedName) :
    ArePrinted (annotationTrees annotations) := by
  rw [arePrinted_iff]
  intro tree htree
  obtain ⟨name, -, hmem⟩ := List.mem_flatMap.1 htree
  rcases List.mem_cons.1 hmem with rfl | hmem
  · exact isPrinted_of_mem_signs (by decide)
  · exact arePrinted_iff.1 name.arePrinted_trees tree hmem

theorem arePrinted_listTrees {ending : List Tree} (hending : ArePrinted ending)
    (names : List Identifier) : ArePrinted (listTrees ending names) := by
  match names with
  | [] => exact arePrinted_nil
  | [name] =>
      rw [listTrees, arePrinted_cons]
      exact ⟨name.isPrinted_tree, hending⟩
  | name :: next :: rest =>
      rw [listTrees, List.cons_append, arePrinted_cons, arePrinted_append, arePrinted_cons]
      exact ⟨name.isPrinted_tree, hending, isPrinted_of_mem_signs (by decide),
        arePrinted_listTrees hending (next :: rest)⟩

theorem arePrinted_constantTrees (constants : List ConstantOutline) :
    ArePrinted (constantTrees constants) := by
  match constants with
  | [] => exact arePrinted_nil
  | [constant] =>
      rw [constantTrees, arePrinted_append, arePrinted_cons]
      exact ⟨arePrinted_annotationTrees _, constant.name.isPrinted_tree, arePrinted_nil⟩
  | constant :: next :: rest =>
      rw [constantTrees, arePrinted_append, arePrinted_cons, arePrinted_cons]
      exact ⟨arePrinted_annotationTrees _, constant.name.isPrinted_tree,
        isPrinted_of_mem_signs (by decide), arePrinted_constantTrees (next :: rest)⟩

/-- What the form of a type adds to its name and its members is printed. -/
structure TypeForm.ArePartsPrinted (form : TypeForm) : Prop where
  keyword : (ofWord form.keyword).IsPrinted
  head : ArePrinted form.headTrees
  fieldModifiers : ArePrinted form.fieldModifiers
  fieldEnding : ArePrinted form.fieldEnding
  methodType : (ofWord form.methodType).IsPrinted
  methodEnding : form.methodEnding.IsPrinted
  separator : ∀ isEmpty, ArePrinted (form.separator isEmpty)

theorem TypeForm.arePartsPrinted (form : TypeForm) : form.ArePartsPrinted where
  keyword := by
    apply isPrinted_of_mem_words
    cases form <;> simp [TypeForm.keyword]
  head := by
    cases form with
    | classType superclass =>
        cases superclass with
        | none => exact arePrinted_nil
        | some name =>
            rw [headTrees, arePrinted_cons]
            exact ⟨isPrinted_of_mem_words (by decide), name.arePrinted_trees⟩
    | record =>
        rw [headTrees, arePrinted_cons]
        exact ⟨isPrinted_enclosed arePrinted_nil, arePrinted_nil⟩
    | _ => exact arePrinted_nil
  fieldModifiers := by
    cases form with
    | record =>
        rw [TypeForm.fieldModifiers, arePrinted_cons]
        exact ⟨isPrinted_of_mem_words (by decide), arePrinted_nil⟩
    | _ => exact arePrinted_nil
  fieldEnding := by
    have hzero : (Tree.leaf ⟨[], .number "0"⟩).IsPrinted := by
      rw [IsPrinted]
      exact ⟨rfl, by decide +kernel, rfl, rfl⟩
    rw [TypeForm.fieldEnding]
    by_cases habstract : form.isAbstract
    · rw [if_pos habstract, arePrinted_cons, arePrinted_cons]
      exact ⟨isPrinted_of_mem_signs (by decide), hzero, arePrinted_nil⟩
    · rw [if_neg habstract]
      exact arePrinted_nil
  methodType := by
    apply isPrinted_of_mem_words
    cases form <;> simp [TypeForm.methodType]
  methodEnding := by
    rw [TypeForm.methodEnding]
    by_cases habstract : form.isAbstract
    · rw [if_pos habstract]
      exact isPrinted_of_mem_signs (by decide)
    · rw [if_neg habstract]
      exact isPrinted_enclosed arePrinted_nil
  separator := by
    intro isEmpty
    have hmark : ArePrinted [ofSymbol ';'] := by
      rw [arePrinted_cons]
      exact ⟨isPrinted_of_mem_signs (by decide), arePrinted_nil⟩
    cases form with
    | enum constants =>
        cases isEmpty with
        | true => exact arePrinted_nil
        | false => exact hmark
    | _ => exact arePrinted_nil

mutual

theorem TypeOutline.arePrinted_trees : (outline : TypeOutline) → ArePrinted outline.trees
  | ⟨form, annotations, name, body⟩ => by
    have hform := form.arePartsPrinted
    have hinner : ArePrinted
        (constantTrees form.constants ++ form.separator body.isEmpty ++ body.trees form name) := by
      rw [arePrinted_append, arePrinted_append]
      exact ⟨⟨arePrinted_constantTrees _, hform.separator _⟩, body.arePrinted_trees form name⟩
    rw [TypeOutline.trees]
    simp only [arePrinted_append, arePrinted_cons]
    exact ⟨⟨arePrinted_annotationTrees _, hform.keyword, name.isPrinted_tree, hform.head⟩,
      isPrinted_enclosed hinner, arePrinted_nil⟩

theorem BodyOutline.arePrinted_trees {hasConstructors : Bool} (form : TypeForm)
    (owner : Identifier) : (body : BodyOutline hasConstructors) → ArePrinted (body.trees form owner)
  | .nil => arePrinted_nil
  | .fields annotations name more rest => by
    have hform := form.arePartsPrinted
    rw [BodyOutline.trees]
    simp only [arePrinted_append, List.cons_append, List.append_assoc, arePrinted_cons]
    exact ⟨arePrinted_annotationTrees _, hform.fieldModifiers, isPrinted_of_mem_words (by decide),
      arePrinted_listTrees hform.fieldEnding _, isPrinted_of_mem_signs (by decide),
      rest.arePrinted_trees form owner⟩
  | .method annotations name rest => by
    have hform := form.arePartsPrinted
    rw [BodyOutline.trees]
    simp only [arePrinted_append, arePrinted_cons]
    exact ⟨arePrinted_annotationTrees _, hform.methodType, name.isPrinted_tree,
      isPrinted_enclosed arePrinted_nil, hform.methodEnding, rest.arePrinted_trees form owner⟩
  | .constructor annotations rest => by
    rw [BodyOutline.trees]
    simp only [arePrinted_append, arePrinted_cons]
    exact ⟨arePrinted_annotationTrees _, owner.isPrinted_tree, isPrinted_enclosed arePrinted_nil,
      isPrinted_enclosed arePrinted_nil, rest.arePrinted_trees form owner⟩
  | .type inner rest => by
    rw [BodyOutline.trees, arePrinted_append]
    exact ⟨inner.arePrinted_trees, rest.arePrinted_trees form owner⟩

end

theorem PackageOutline.arePrinted_trees (outline : PackageOutline) : ArePrinted outline.trees := by
  rw [PackageOutline.trees]
  simp only [arePrinted_append, List.cons_append, List.append_assoc, arePrinted_cons]
  exact ⟨arePrinted_annotationTrees _, isPrinted_of_mem_words (by decide),
    outline.name.arePrinted_trees, isPrinted_of_mem_signs (by decide), arePrinted_nil⟩

theorem ImportOutline.arePrinted_trees (outline : ImportOutline) : ArePrinted outline.trees := by
  have hstatic : ArePrinted (if outline.isStatic then [ofWord "static"] else []) := by
    by_cases h : outline.isStatic
    · rw [if_pos h, arePrinted_cons]
      exact ⟨isPrinted_of_mem_words (by decide), arePrinted_nil⟩
    · rw [if_neg h]
      exact arePrinted_nil
  have hdemand : ArePrinted (if outline.onDemand then [ofSymbol '.', ofSymbol '*'] else []) := by
    by_cases h : outline.onDemand
    · rw [if_pos h, arePrinted_cons, arePrinted_cons]
      exact ⟨isPrinted_of_mem_signs (by decide), isPrinted_of_mem_signs (by decide), arePrinted_nil⟩
    · rw [if_neg h]
      exact arePrinted_nil
  rw [ImportOutline.trees]
  simp only [arePrinted_append, List.cons_append, List.append_assoc, arePrinted_cons]
  exact ⟨isPrinted_of_mem_words (by decide), hstatic, outline.name.arePrinted_trees, hdemand,
    isPrinted_of_mem_signs (by decide), arePrinted_nil⟩

theorem arePrinted_flatMap {α : Type} {print : α → List Tree}
    (h : ∀ outline, ArePrinted (print outline)) (outlines : List α) :
    ArePrinted (outlines.flatMap print) := by
  rw [arePrinted_iff]
  intro tree htree
  obtain ⟨outline, -, hmem⟩ := List.mem_flatMap.1 htree
  exact arePrinted_iff.1 (h outline) tree hmem

theorem UnitOutline.arePrinted_trees (outline : UnitOutline) : ArePrinted outline.trees := by
  have hpackage : ArePrinted ((outline.package.map PackageOutline.trees).getD []) := by
    cases outline.package with
    | none => exact arePrinted_nil
    | some package => exact package.arePrinted_trees
  rw [UnitOutline.trees, arePrinted_append, arePrinted_append]
  exact ⟨⟨hpackage, arePrinted_flatMap ImportOutline.arePrinted_trees _⟩,
    arePrinted_flatMap TypeOutline.arePrinted_trees _⟩

end Printed

end ComponentMarkers.Source
