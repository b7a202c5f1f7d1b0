import Mathlib.Data.List.TakeDrop
import Mathlib.Data.List.TakeWhile
import ComponentMarkers.Proofs.Source.Nesting
import ComponentMarkers.Proofs.Source.Pairing
import ComponentMarkers.Proofs.Source.Parsed
import ComponentMarkers.Proofs.Source.Suffixes

/-!
# Declared names are words

Whatever a source text holds, the names that its declarations introduce are words of the text.  So
none of them has a slash in it, and neither has the nested name of a class that is read from sources:
only the packages, whose names take comments along, may have slashes.
-/

namespace ComponentMarkers.Source

open Text

namespace Lexeme

/-- The lexeme is no word with a slash in it. -/
def IsSlashless (lexeme : Lexeme) : Prop :=
  ∀ text, lexeme = .word text → '/' ∉ text.toList

end Lexeme

section Lexer

theorem namePiece_isSlashless {c : Char} {rest after : List Char} {lexeme : Lexeme}
    (hstart : isNameStart c) (h : namePiece c rest = (.lexeme lexeme, after)) :
    lexeme.IsSlashless := by
  have hpart : isNamePart '/' = false := by decide +kernel
  have hslash : isNameStart '/' = false := by decide +kernel
  intro text htext
  unfold namePiece at h
  dsimp only at h
  split at h
  · obtain rfl := Lexeme.word.inj (htext ▸ Piece.lexeme.inj (Prod.mk.inj h).1)
    decide
  · obtain rfl := Lexeme.word.inj (htext ▸ Piece.lexeme.inj (Prod.mk.inj h).1)
    rw [String.toList_ofList]
    intro hmem
    rcases List.mem_cons.1 hmem with rfl | hmem
    · rw [hslash] at hstart
      cases hstart
    · have := List.mem_takeWhile_imp hmem
      rw [hpart] at this
      cases this

theorem markedPiece?_isSlashless {c : Char} {rest after : List Char} {lexeme : Lexeme}
    (h : markedPiece? c rest = some (.lexeme lexeme, after)) : lexeme.IsSlashless := by
  have hquoted : ∀ {inside opening tail},
      literalPiece inside opening tail = some (.lexeme lexeme, after) → lexeme.IsSlashless := by
    intro inside opening tail hliteral text htext
    obtain ⟨⟨found, _⟩, -, heq⟩ := Option.map_eq_some_iff.1 hliteral
    cases htext ▸ Piece.lexeme.inj (Prod.mk.inj heq).1
  unfold markedPiece? at h
  split at h
  · cases h
  · obtain ⟨⟨found, tail⟩, -, heq⟩ := Option.map_eq_some_iff.1 h
    cases heq
  · exact hquoted h
  · exact hquoted h
  · obtain ⟨⟨found, tail⟩, -, heq⟩ := Option.map_eq_some_iff.1 h
    intro text htext
    cases htext ▸ Piece.lexeme.inj (Prod.mk.inj heq).1
  · obtain ⟨tail, -, heq⟩ := Option.map_eq_some_iff.1 h
    intro text htext
    obtain rfl := Lexeme.word.inj (htext ▸ Piece.lexeme.inj (Prod.mk.inj heq).1)
    decide
  · cases h

theorem nextPiece_isSlashless {c : Char} {rest : List Char} {lexeme : Lexeme}
    (h : (nextPiece c rest).1 = .lexeme lexeme) : lexeme.IsSlashless := by
  unfold nextPiece at h
  split at h
  · cases h
  split at h
  · rename_i hstart
    exact namePiece_isSlashless hstart (Prod.ext h rfl)
  split at h
  · intro text htext
    cases htext ▸ Piece.lexeme.inj h
  split at h
  · rename_i result hmarked
    exact markedPiece?_isSlashless (hmarked.trans (congrArg some (Prod.ext h rfl)))
  · intro text htext
    dsimp only at h
    split at h
    · cases htext ▸ Piece.lexeme.inj h
    · cases h

theorem isSlashless_of_mem_tokensFrom {before : List String} {cs : List Char} {token : Token}
    (h : token ∈ tokensFrom before cs) : token.lexeme.IsSlashless := by
  fun_induction tokensFrom before cs with
  | case1 => cases h
  | case2 before c rest _ ih => exact ih h
  | case3 before c rest _ _ ih => exact ih h
  | case4 before c rest lexeme hpiece ih =>
      rcases List.mem_cons.1 h with rfl | h
      · exact nextPiece_isSlashless hpiece
      · exact ih h

/-- No word of a source text has a slash in it. -/
theorem isSlashless_of_mem_tokens {source : String} {token : Token} (h : token ∈ tokens source) :
    token.lexeme.IsSlashless := by
  unfold tokens at h
  split at h
  · exact isSlashless_of_mem_tokensFrom h
  · exact isSlashless_of_mem_tokensFrom h

end Lexer

section Rows

/-- No word among the tokens of the trees has a slash in it. -/
def AreSlashless (trees : List Tree) : Prop :=
  ∀ token ∈ Tree.tokensAmong trees, token.lexeme.IsSlashless

@[simp]
theorem areSlashless_nil : AreSlashless [] := by
  intro token htoken
  rw [Tree.tokensAmong] at htoken
  cases htoken

theorem areSlashless_cons {tree : Tree} {rest : List Tree} :
    AreSlashless (tree :: rest) ↔
      (∀ token ∈ tree.tokens, token.lexeme.IsSlashless) ∧ AreSlashless rest := by
  rw [AreSlashless, Tree.tokensAmong]
  exact List.forall_mem_append

theorem AreSlashless.rest {tree : Tree} {rest : List Tree} (h : AreSlashless (tree :: rest)) :
    AreSlashless rest :=
  (areSlashless_cons.1 h).2

theorem areSlashless_iff {trees : List Tree} :
    AreSlashless trees ↔ ∀ tree ∈ trees, ∀ token ∈ tree.tokens, token.lexeme.IsSlashless := by
  induction trees with
  | nil => simp
  | cons tree rest ih => rw [areSlashless_cons, ih, List.forall_mem_cons]

theorem AreSlashless.of_subset {trees others : List Tree} (h : AreSlashless trees)
    (hsub : others ⊆ trees) : AreSlashless others :=
  areSlashless_iff.2 fun tree htree => areSlashless_iff.1 h tree (hsub htree)

theorem areSlashless_group {bracket : Bracket} {opening : Token} {inner rest : List Tree}
    {closing : Option Token} :
    AreSlashless (.group bracket opening inner closing :: rest) ↔
      opening.lexeme.IsSlashless ∧ AreSlashless inner ∧
        (∀ token ∈ closing, token.lexeme.IsSlashless) ∧ AreSlashless rest := by
  rw [areSlashless_cons, Tree.tokens]
  simp only [List.cons_append, List.forall_mem_cons, List.forall_mem_append, Option.mem_toList,
    Option.mem_def, AreSlashless, and_assoc]

theorem AreSlashless.word {tree : Tree} {rest : List Tree} (h : AreSlashless (tree :: rest))
    {text : String} (hword : tree.word? = some text) : '/' ∉ text.toList := by
  have hfirst := (areSlashless_cons.1 h).1
  cases tree with
  | group => cases hword
  | leaf token =>
      obtain ⟨before, lexeme⟩ := token
      cases lexeme with
      | word found =>
          obtain rfl := Option.some.inj hword
          exact hfirst _ (List.mem_singleton.2 rfl) _ rfl
      | number => cases hword
      | quoted => cases hword
      | symbol => cases hword

end Rows

section Nest

/-- Neither the bracket of the group nor the trees before it have slashes in their words. -/
structure OpenGroup.IsSlashless (frame : OpenGroup) : Prop where
  opening : frame.opening.lexeme.IsSlashless
  earlier : AreSlashless frame.earlier

variable {current : List Tree} {frames : List OpenGroup}

theorem areSlashless_append {trees others : List Tree} :
    AreSlashless (trees ++ others) ↔ AreSlashless trees ∧ AreSlashless others := by
  simp only [areSlashless_iff, List.forall_mem_append]

theorem areSlashless_reverse {trees : List Tree} :
    AreSlashless trees.reverse ↔ AreSlashless trees := by
  simp only [areSlashless_iff, List.mem_reverse]

/-- What follows a bracket that is never closed is split, and no tree is lost or made. -/
theorem splitUnclosed_append (bracket : Bracket) (trees : List Tree) :
    (splitUnclosed bracket trees).1 ++ (splitUnclosed bracket trees).2 = trees := by
  cases bracket with
  | round =>
      rw [splitUnclosed, List.span_eq_takeWhile_dropWhile]
      exact List.takeWhile_append_dropWhile
  | square => rfl
  | curly => exact List.append_nil trees

theorem OpenGroup.IsSlashless.abandon {frame : OpenGroup} (h : frame.IsSlashless)
    (hcurrent : AreSlashless current) : AreSlashless (frame.abandon current) := by
  have hsplit := splitUnclosed_append frame.bracket current.reverse
  have hrow := areSlashless_reverse.2 hcurrent
  rw [← hsplit, areSlashless_append] at hrow
  rw [OpenGroup.abandon, areSlashless_append, areSlashless_reverse, areSlashless_group]
  exact ⟨hrow.2, h.opening, hrow.1, by simp, h.earlier⟩

theorem OpenGroup.IsSlashless.close {frame : OpenGroup} (h : frame.IsSlashless)
    (hcurrent : AreSlashless current) {closing : Token} (hclosing : closing.lexeme.IsSlashless) :
    AreSlashless (frame.close current closing) := by
  rw [OpenGroup.close, areSlashless_group]
  refine ⟨h.opening, areSlashless_reverse.2 hcurrent, ?_, h.earlier⟩
  rintro token ⟨⟩
  exact hclosing

theorem closeAll_areSlashless (hcurrent : AreSlashless current)
    (hframes : ∀ frame ∈ frames, frame.IsSlashless) : AreSlashless (closeAll current frames) := by
  induction frames generalizing current with
  | nil => exact areSlashless_reverse.2 hcurrent
  | cons frame rest ih =>
      obtain ⟨hframe, hrest⟩ := List.forall_mem_cons.1 hframes
      exact ih (hframe.abandon hcurrent) hrest

theorem closeThrough_areSlashless (bracket : Bracket) {closing : Token}
    (hclosing : closing.lexeme.IsSlashless) (hcurrent : AreSlashless current)
    (hframes : ∀ frame ∈ frames, frame.IsSlashless) :
    AreSlashless (closeThrough bracket closing current frames).1 ∧
      ∀ frame ∈ (closeThrough bracket closing current frames).2, frame.IsSlashless := by
  induction frames generalizing current with
  | nil => exact ⟨hcurrent, hframes⟩
  | cons frame rest ih =>
      obtain ⟨hframe, hrest⟩ := List.forall_mem_cons.1 hframes
      rw [closeThrough]
      split
      · exact ⟨hframe.close hcurrent hclosing, hrest⟩
      · exact ih (hframe.abandon hcurrent) hrest

theorem nestFrom_areSlashless {tokens : List Token}
    (htokens : ∀ token ∈ tokens, token.lexeme.IsSlashless) (hcurrent : AreSlashless current)
    (hframes : ∀ frame ∈ frames, frame.IsSlashless) :
    AreSlashless (nestFrom current frames tokens) := by
  fun_induction nestFrom current frames tokens with
  | case1 => exact closeAll_areSlashless hcurrent hframes
  | case2 current frames token rest bracket _ ih =>
      obtain ⟨htoken, hrest⟩ := List.forall_mem_cons.1 htokens
      exact ih hrest areSlashless_nil (List.forall_mem_cons.2 ⟨⟨htoken, hcurrent⟩, hframes⟩)
  | case3 current frames token rest bracket _ _ _ after left hclose ih =>
      obtain ⟨htoken, hrest⟩ := List.forall_mem_cons.1 htokens
      have hclosed := closeThrough_areSlashless bracket htoken hcurrent hframes
      rw [hclose] at hclosed
      exact ih hrest hclosed.1 hclosed.2
  | case4 current frames token rest bracket _ _ _ ih =>
      exact ih (List.forall_mem_cons.1 htokens).2 hcurrent hframes
  | case5 current frames token rest _ _ ih =>
      obtain ⟨htoken, hrest⟩ := List.forall_mem_cons.1 htokens
      refine ih hrest (areSlashless_cons.2 ⟨?_, hcurrent⟩) hframes
      exact List.forall_mem_singleton.2 htoken

/-- No word among the trees of a source text has a slash in it. -/
theorem nest_areSlashless (source : String) : AreSlashless (nest (tokens source)) :=
  nestFrom_areSlashless (fun _ => isSlashless_of_mem_tokens) areSlashless_nil (by simp)

end Nest

section Names

variable {names : List AnnotationNode} {trees after : List Tree}

/-- Neither the name of the type nor a word in its body has a slash in it. -/
structure TypeHead.IsSlashless (head : TypeHead) : Prop where
  name : '/' ∉ head.name.toList
  body : AreSlashless head.body

/-- Neither a name of the member nor a word in its body has a slash in it. -/
def Member.IsSlashless : Member → Prop
  | type head => head.IsSlashless
  | method _ _ name => '/' ∉ name.toList
  | constructor _ => True
  | fields _ _ names => ∀ name ∈ names, '/' ∉ name.toList
  | constant _ name => '/' ∉ name.toList

theorem body?_areSlashless {body : List Tree} (h : AreSlashless trees)
    (hbody : body? trees = some (body, after)) : AreSlashless body := by
  fun_induction body? trees with
  | case1 => cases hbody
  | case2 opening inner closing rest =>
      obtain ⟨rfl, -⟩ := Prod.mk.inj (Option.some.inj hbody)
      exact (areSlashless_group.1 h).2.1
  | case3 => cases hbody
  | case4 tree rest _ _ ih => exact ih h.rest hbody

theorem isSlashless_of_typeHead? {head : TypeHead} (h : AreSlashless trees)
    (hhead : typeHead? names trees = some (head, after)) : head.IsSlashless := by
  obtain ⟨keyword, name, rest, rfl, -, hname, hbody⟩ := exists_of_typeHead? hhead
  have hclauses := h.rest.rest.of_subset (afterTypeArguments_suffix rest).subset
  exact ⟨h.rest.word hname, body?_areSlashless hclauses hbody⟩

theorem slash_not_mem_of_mem_declarators (h : AreSlashless trees) :
    ∀ name ∈ (declarators trees).1, '/' ∉ name.toList := by
  fun_induction declarators trees with
  | case1 => simp
  | case2 tree rest _ _ ih => exact ih h.rest
  | case3 => simp
  | case4 tree rest name hname _ => exact List.forall_mem_singleton.2 (h.word hname)
  | case5 tree rest name hname mark more hafter hmark others left hrec ih =>
      have hfield := afterField_suffix rest
      rw [hafter] at hfield
      have hmore := (h.rest.of_subset hfield.subset).rest
      rw [hrec] at ih
      exact List.forall_mem_cons.2 ⟨h.word hname, ih hmore⟩
  | case6 tree rest name hname mark more hafter hmark =>
      exact List.forall_mem_singleton.2 (h.word hname)

theorem ReadsMember.isSlashless {member : Member} (h : ReadsMember trees member)
    (htrees : AreSlashless trees) : member.IsSlashless := by
  have hmodifiers := modifiers_suffix trees
  have hrow := ((annotations_suffix _).trans
    (afterTypeArguments_suffix (modifiers trees).2)).trans hmodifiers
  cases h with
  | type hhead => exact isSlashless_of_typeHead? (htrees.of_subset hmodifiers.subset) hhead
  | constructor => trivial
  | method htype hname =>
      have hsuffix := (typeReference?_suffix htype).trans hrow
      exact (htrees.of_subset hsuffix.subset).word hname
  | fields htype hnames =>
      have hsuffix := (typeReference?_suffix htype).trans hrow
      subst hnames
      exact slash_not_mem_of_mem_declarators (htrees.of_subset hsuffix.subset)
  | constant hnames hname =>
      exact (htrees.of_subset (suffix_of_modifiers hnames).subset).word hname

theorem TypeHead.IsSlashless.members {head : TypeHead} (h : head.IsSlashless) :
    ∀ member ∈ head.members, member.IsSlashless := by
  intro member hmember
  obtain ⟨row, hrow, hreads⟩ := head.exists_readsMember hmember
  exact hreads.isSlashless (h.body.of_subset hrow.subset)

theorem Member.IsSlashless.slash_not_mem
    {member : Member} (h : member.IsSlashless) {levels : Nat} {declaration : Declaration}
    (hmem : declaration ∈ member.declarations (TypeHead.declaration levels)) :
    '/' ∉ declaration.name.toList := by
  cases member with
  | type head =>
      obtain rfl := List.mem_singleton.1 hmem
      rw [head.declaration_eq]
      exact h.name
  | constructor =>
      obtain rfl := List.mem_singleton.1 hmem
      change '/' ∉ Declaration.constructorName.toList
      decide
  | fields =>
      obtain ⟨name, hname, rfl⟩ := List.mem_map.1 hmem
      exact h name hname
  | _ =>
      obtain rfl := List.mem_singleton.1 hmem
      exact h

end Names

/-- No name that is declared in a source text has a slash in it. -/
theorem every_slash_not_mem_of_mem_readUnit
    (source : String) (path : Option Path) {declaration : Declaration}
    (h : declaration ∈ (readUnit source path).types) :
    declaration.Every fun inner => '/' ∉ inner.name.toList := by
  obtain ⟨head, levels, hhead, rfl⟩ := exists_head_of_mem_types_readUnit h
  obtain ⟨names, row, after, hrow, hread⟩ := exists_typeHead?_of_mem_items hhead
  have hslashless := isSlashless_of_typeHead? ((nest_areSlashless source).of_subset hrow.subset) hread
  exact TypeHead.every_declaration (p := Member.IsSlashless)
    (fun outer houter => TypeHead.IsSlashless.members houter)
    (fun member levels hmember declaration => hmember.slash_not_mem) hslashless levels

end ComponentMarkers.Source
