import ComponentMarkers.Proofs.Source.AlikeUnits
import ComponentMarkers.Proofs.Source.Asides
import ComponentMarkers.Proofs.Source.Layout

/-!
# Layout does not change what is declared

Blanks may be put anywhere between two tokens of a source, and the unit that is read stays the same.  So
may comments, except where one is read: next to a dot, right after the word `extends`, and in what that
clause writes between angle brackets or in annotations.  There a comment gets into a name, or hides the
superclass; the declarations and their members are the same all the same.
-/

namespace ComponentMarkers.Source

open Text

/-- A place in a source after one of its pieces, all pieces up to it being whole. -/
structure Seam (source : String) where
  mark : List Char
  head : List Char
  after : List Char
  pieces : List Piece
  last : Piece
  /-- A byte-order mark may stand before the text. -/
  mark_eq : mark = [] ∨ mark = ['\uFEFF']
  source_eq : source.toList = mark ++ (head ++ after)
  readsTo : ReadsTo (head ++ after) (pieces ++ [last]) after

namespace Seam

variable {source : String} (seam : Seam source)

/-- The source with some layout at the place. -/
def insert (gap : List Layout) : String :=
  String.ofList (seam.mark ++ (seam.head ++ (layoutText gap ++ seam.after)))

/-- The layout is not taken for a part of the piece before the place. -/
def Takes (gap : List Layout) : Prop :=
  seam.last.EndsBefore (layoutText gap ++ seam.after)

/-- The lexemes before the place. -/
def lexemes : List Lexeme :=
  (seam.pieces ++ [seam.last]).filterMap Piece.lexeme?

/-- The lexeme after the place. -/
def next? : Option Lexeme :=
  (tokensFrom [] seam.after).head?.map Token.lexeme

/-- What is known of the tokens before the place. -/
def spot : Spot :=
  (seam.lexemes.foldl Spots.next .start).current

/-- No comment at the place is read. -/
def IsAside : Prop :=
  ∀ lexeme ∈ seam.next?, seam.spot.reads lexeme = false

end Seam

/-- The unit without its dotted names and superclasses. -/
def CompilationUnit.shape (unit : CompilationUnit) : CompilationUnit :=
  unit.rename anyName anyClass

section Tokens

theorem tokens_ofList
    {mark body : List Char} (hmark : mark = [] ∨ mark = ['\uFEFF'])
    (hbody : ∀ rest, body ≠ '\uFEFF' :: rest) :
    tokens (String.ofList (mark ++ body)) = tokensFrom [] body := by
  rw [tokens, String.toList_ofList]
  rcases hmark with rfl | rfl
  · rw [List.nil_append]
    split
    · rename_i rest
      exact absurd rfl (hbody rest)
    · rfl
  · rfl

theorem not_isWhole_stray (c : Char) (rest : List Char) : ¬ (stray c).IsWhole rest := by
  simp [stray, Piece.IsWhole]

/-- Only the first token keeps remarks that came before the text. -/
theorem tokensFrom_nil_or_cons (cs : List Char) :
    (∀ kept, tokensFrom kept cs = []) ∨
      ∃ own lexeme rest, ∀ kept, tokensFrom kept cs = ⟨kept.reverse ++ own, lexeme⟩ :: rest := by
  induction hlength : cs.length using Nat.strongRecOn generalizing cs with
  | ind length ih =>
      subst hlength
      rcases cs with _ | ⟨c, rest⟩
      · exact Or.inl tokensFrom_nil
      rcases hnext : nextPiece c rest with ⟨piece, after⟩
      have hshorter : after.length < (c :: rest).length := by
        have hle := nextPiece_length c rest
        rw [hnext] at hle
        exact Nat.lt_succ_of_le hle
      cases piece with
      | blank =>
          rcases ih _ hshorter after rfl with hnil | ⟨own, lexeme, tail, hcons⟩
          · exact Or.inl fun kept => by rw [tokensFrom_of_blank hnext, hnil]
          · exact Or.inr ⟨own, lexeme, tail, fun kept => by rw [tokensFrom_of_blank hnext, hcons]⟩
      | remark text =>
          rcases ih _ hshorter after rfl with hnil | ⟨own, lexeme, tail, hcons⟩
          · exact Or.inl fun kept => by rw [tokensFrom_of_remark hnext, hnil]
          · refine Or.inr ⟨text :: own, lexeme, tail, fun kept => ?_⟩
            rw [tokensFrom_of_remark hnext, hcons, List.reverse_cons, List.append_assoc,
              List.singleton_append]
      | lexeme lexeme =>
          refine Or.inr ⟨[], lexeme, tokensFrom [] after, fun kept => ?_⟩
          rw [tokensFrom_of_lexeme hnext, List.append_nil]

namespace Seam

variable {source : String} (seam : Seam source)

/-- The tokens before the place stay, and those after it too but for remarks before the first of them. -/
theorem exists_tokens :
    ∃ earlier kept, earlier.map Token.lexeme = seam.lexemes ∧
      tokens source = earlier ++ tokensFrom kept seam.after ∧
      ∀ gap, seam.Takes gap →
        tokens (seam.insert gap) = earlier ++ tokensFrom ((remarks gap).reverse ++ kept) seam.after := by
  obtain ⟨head, earlier, kept, hsplit, hhead, hearlier, htokens⟩ := seam.readsTo.exists_tokens []
  obtain rfl := List.append_cancel_right hsplit
  have hbody : ∀ other rest, seam.head ++ other ≠ '\uFEFF' :: rest := by
    intro other rest hmark
    obtain ⟨c, tail, hcons⟩ := List.exists_cons_of_ne_nil hhead
    rw [hcons] at hmark
    obtain rfl := (List.cons.inj hmark).1
    have hreads := seam.readsTo
    rw [hcons] at hreads
    cases hpieces : seam.pieces ++ [seam.last] with
    | nil => exact absurd hpieces (List.append_ne_nil_of_right_ne_nil _ (List.cons_ne_nil _ _))
    | cons piece pieces =>
        rw [hpieces] at hreads
        cases hreads with
        | cons hnext hwhole =>
            rw [nextPiece_byteOrderMark] at hnext
            obtain ⟨rfl, rfl⟩ := Prod.mk.inj hnext
            exact not_isWhole_stray _ _ hwhole
  have hsource : source = String.ofList (seam.mark ++ (seam.head ++ seam.after)) := by
    rw [← seam.source_eq, String.ofList_toList]
  have hall : tokens source = earlier ++ tokensFrom kept seam.after := by
    rw [← htokens seam.after (Or.inl rfl)]
    conv_lhs => rw [hsource]
    exact tokens_ofList seam.mark_eq (hbody seam.after)
  refine ⟨earlier, kept, hearlier, hall, fun gap htakes => ?_⟩
  by_cases hgap : gap = []
  · subst hgap
    rw [insert, layoutText, List.flatMap_nil, List.nil_append, ← hsource]
    exact hall
  · rw [insert, tokens_ofList seam.mark_eq (hbody _),
      htokens _ (Or.inr ⟨beginsWithLayout_layoutText hgap _, htakes⟩), tokensFrom_layoutText]

/-- The tokens agree wherever the layout is not read. -/
theorem tokenRowsAgree
    {reads : Spot → Lexeme → Bool} (hreads : ∀ lexeme ∈ seam.next?, reads seam.spot lexeme = false)
    {gap : List Layout} (htakes : seam.Takes gap) :
    TokenRowsAgree reads .start (tokens source) (tokens (seam.insert gap)) := by
  obtain ⟨earlier, kept, hearlier, htokens, hinsert⟩ := seam.exists_tokens
  rw [htokens, hinsert gap htakes]
  rcases tokensFrom_nil_or_cons seam.after with hnil | ⟨own, lexeme, rest, hcons⟩
  · rw [hnil, hnil]
    exact tokenRowsAgree_refl _ _
  · rw [hcons, hcons]
    apply tokenRowsAgree_of_not_reads
    rw [hearlier]
    apply hreads
    rw [next?, hcons]
    rfl

end Seam

end Tokens

section Units

variable {source : String}

/-- The unit is the same if only blanks are put in, and also with comments if the place is aside of the
names.  With comments at any place the declarations still have the same shape. -/
theorem readUnit_insert
    (seam : Seam source) (gap : List Layout) (htakes : seam.Takes gap) (path : Option Path) :
    (remarks gap = [] → readUnit (seam.insert gap) path = readUnit source path) ∧
      (pairUp [] (tokens source) →
        (readUnit (seam.insert gap) path).shape = (readUnit source path).shape ∧
          (seam.IsAside → readUnit (seam.insert gap) path = readUnit source path)) := by
  refine ⟨fun hblanks => ?_, fun hpaired => ⟨?_, fun haside => ?_⟩⟩
  · obtain ⟨earlier, kept, -, htokens, hinsert⟩ := seam.exists_tokens
    have hsame : tokens (seam.insert gap) = tokens source := by
      rw [hinsert gap htakes, hblanks, htokens]
      rfl
    rw [readUnit, readUnit, hsame]
  · have hagree : RowsAgree (fun _ _ => false) (.start .outside) (nest (tokens source))
        (nest (tokens (seam.insert gap))) :=
      (seam.tokenRowsAgree (fun _ _ => rfl) htakes).nest hpaired
    exact (hagree.alike.rename_unitOfItems path).symm
  · have hagree := (seam.tokenRowsAgree haside htakes).nest hpaired
    have hsame := hagree.same.rename_unitOfItems path
    rw [CompilationUnit.rename_id, CompilationUnit.rename_id] at hsame
    exact hsame.symm

end Units

section Superclasses

/-- A class with a superclass. -/
def derivedSource : String :=
  "class A extends B {}"

theorem readsTo_derivedSource
    {pieces : List Piece} {after : List Char} (h : ReadsTo (' ' :: "B {}".toList) pieces after) :
    ReadsTo ('c' :: "lass A extends B {}".toList)
      (.lexeme (.word "class") :: .blank :: .lexeme (.word "A") :: .blank ::
        .lexeme (.word "extends") :: pieces) after := by
  have hclass : nextPiece 'c' "lass A extends B {}".toList =
      (.lexeme (.word "class"), ' ' :: "A extends B {}".toList) := by
    decide +kernel
  have hname : nextPiece 'A' " extends B {}".toList =
      (.lexeme (.word "A"), ' ' :: "extends B {}".toList) := by
    decide +kernel
  have hextends : nextPiece 'e' "xtends B {}".toList =
      (.lexeme (.word "extends"), ' ' :: "B {}".toList) := by
    decide +kernel
  have hblank : isBlank ' ' := by decide
  exact .cons hclass trivial (.cons (nextPiece_of_isBlank hblank _) trivial (.cons hname trivial
    (.cons (nextPiece_of_isBlank hblank _) trivial (.cons hextends trivial h))))

/-- The place after the word `extends`. -/
def seamAfterExtends : Seam derivedSource where
  mark := []
  head := "class A extends".toList
  after := " B {}".toList
  pieces := [.lexeme (.word "class"), .blank, .lexeme (.word "A"), .blank]
  last := .lexeme (.word "extends")
  mark_eq := Or.inl rfl
  source_eq := rfl
  readsTo := readsTo_derivedSource .nil

/-- The place after the superclass. -/
def seamAfterSuperclass : Seam derivedSource where
  mark := []
  head := "class A extends B".toList
  after := " {}".toList
  pieces := [.lexeme (.word "class"), .blank, .lexeme (.word "A"), .blank,
    .lexeme (.word "extends"), .blank]
  last := .lexeme (.word "B")
  mark_eq := Or.inl rfl
  source_eq := rfl
  readsTo := by
    have hname : nextPiece 'B' " {}".toList = (.lexeme (.word "B"), ' ' :: "{}".toList) := by
      decide +kernel
    have hblank : isBlank ' ' := by decide
    exact readsTo_derivedSource (.cons (nextPiece_of_isBlank hblank _) trivial
      (.cons hname trivial .nil))

/-- A comment after a blank. -/
def commentGap : List Layout :=
  [.blank ' ' (by decide), .block ['c'] (by decide)]

theorem Seam.takes_commentGap
    {source : String} (seam : Seam source) {lexeme : Lexeme} (hlast : seam.last = .lexeme lexeme) :
    seam.Takes commentGap := by
  rw [Takes, hlast]
  exact lexeme.endsBefore_of_isBlank (by decide) _

theorem pairUp_derivedSource : pairUp [] (tokens derivedSource) := by
  decide +kernel

/-- Behind the superclass a comment changes nothing. -/
theorem readUnit_insert_derivedSource :
    seamAfterSuperclass.Takes commentGap ∧ pairUp [] (tokens derivedSource) ∧
      seamAfterSuperclass.IsAside ∧
        readUnit "class A extends B /*c*/ {}" none = readUnit derivedSource none := by
  have htakes : seamAfterSuperclass.Takes commentGap := seamAfterSuperclass.takes_commentGap rfl
  have haside : seamAfterSuperclass.IsAside := by
    have hnext : seamAfterSuperclass.next? = some (.symbol '{') := by decide +kernel
    intro lexeme hlexeme
    rw [hnext] at hlexeme
    obtain rfl := Option.some.inj hlexeme
    decide +kernel
  exact ⟨htakes, pairUp_derivedSource, haside,
    ((readUnit_insert seamAfterSuperclass commentGap htakes none).2 pairUp_derivedSource).2 haside⟩

/-- In front of the superclass a comment hides it. -/
theorem exists_readUnit_insert_ne :
    ∃ (source : String) (seam : Seam source) (gap : List Layout), seam.Takes gap ∧
      pairUp [] (tokens source) ∧ readUnit (seam.insert gap) none ≠ readUnit source none := by
  have hplain : (readUnit derivedSource none).types.map Declaration.superclass = [some "B"] := by
    rw [map_superclass_types_readUnit]
    decide +kernel
  have hcommented : (readUnit (seamAfterExtends.insert commentGap) none).types.map
      Declaration.superclass = [none] := by
    rw [map_superclass_types_readUnit]
    decide +kernel
  refine ⟨derivedSource, seamAfterExtends, commentGap, seamAfterExtends.takes_commentGap rfl,
    pairUp_derivedSource, fun hsame => ?_⟩
  rw [hsame, hplain] at hcommented
  cases hcommented

end Superclasses

end ComponentMarkers.Source
