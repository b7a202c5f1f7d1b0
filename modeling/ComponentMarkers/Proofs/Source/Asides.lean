import ComponentMarkers.Proofs.Source.Spots
import ComponentMarkers.Proofs.Source.Suffixes

/-!
# Comments beside names

The class of an `extends` clause is the same when comments differ only where none is read, and so is
every dotted name: such rows are alike, with the same names.  The spots along the tokens of a source are
those along its rows, as long as its brackets pair up.
-/

namespace ComponentMarkers.Source

open Source.Tree

section Classes

variable {spot : Spot} {trees trees' : List Tree}

/-- So many type arguments at least are open, if it is by them that the name holds everything. -/
structure Spot.Covers (spot : Spot) (level : Nat) : Prop where
  holds : spot.clause.holds
  level_le : ∀ depth, spot.clause = .arguments depth → level ≤ depth

theorem Spot.covers_after_open (h : spot.clause ≠ .outside) (before : List String) :
    (spot.after (.leaf ⟨before, .symbol '<'⟩)).Covers 1 := by
  obtain ⟨clause, afterDot⟩ := spot
  cases clause with
  | outside => exact absurd rfl h
  | arguments level => exact ⟨rfl, fun depth hdepth => by cases hdepth; exact Nat.le_add_left 1 level⟩
  | annotated => exact ⟨rfl, fun depth hdepth => by cases hdepth⟩
  | within => exact ⟨rfl, fun depth hdepth => by cases hdepth⟩
  | opening => exact ⟨rfl, fun depth hdepth => by cases hdepth; exact Nat.le_refl 1⟩
  | named => exact ⟨rfl, fun depth hdepth => by cases hdepth; exact Nat.le_refl 1⟩

theorem Spot.Covers.after_open {level : Nat} (h : spot.Covers level) (before : List String) :
    (spot.after (.leaf ⟨before, .symbol '<'⟩)).Covers (level + 1) := by
  obtain ⟨clause, afterDot⟩ := spot
  obtain ⟨hholds, hlevel⟩ := h
  cases clause with
  | arguments depth =>
      refine ⟨rfl, fun found hfound => ?_⟩
      cases hfound
      exact Nat.succ_le_succ (hlevel depth rfl)
  | annotated => exact ⟨rfl, fun depth hdepth => by cases hdepth⟩
  | within => exact ⟨rfl, fun depth hdepth => by cases hdepth⟩
  | _ => cases hholds

theorem Spot.Covers.after_close
    {level : Nat} (h : spot.Covers level) (hlevel : ¬ level ≤ 1) (before : List String) :
    (spot.after (.leaf ⟨before, .symbol '>'⟩)).Covers (level - 1) := by
  obtain ⟨clause, afterDot⟩ := spot
  obtain ⟨hholds, hle⟩ := h
  cases clause with
  | arguments depth =>
      have hdepth := hle depth rfl
      have hmore : ¬ depth ≤ 1 := by omega
      have hnext : (Spot.after ⟨.arguments depth, afterDot⟩ (.leaf ⟨before, .symbol '>'⟩)).clause =
          .arguments (depth - 1) := if_neg hmore
      refine ⟨by rw [hnext]; rfl, fun found hfound => ?_⟩
      rw [hnext] at hfound
      cases hfound
      omega
  | annotated => exact ⟨rfl, fun depth hdepth => by cases hdepth⟩
  | within => exact ⟨rfl, fun depth hdepth => by cases hdepth⟩
  | _ => cases hholds

theorem Spot.Covers.after_quiet
    {level : Nat} (h : spot.Covers level) {tree : Tree} (hquiet : isQuiet tree) :
    (spot.after tree).Covers level := by
  have hsame := Spot.after_clause_eq h.holds hquiet
  refine ⟨hsame.symm ▸ h.holds, fun depth hdepth => ?_⟩
  rw [hsame] at hdepth
  exact h.level_le depth hdepth

theorem Spot.ne_outside_of_holds (h : spot.clause.holds) : spot.clause ≠ .outside := by
  intro houtside
  rw [houtside] at h
  cases h

/-- Type arguments of a name are the same. -/
theorem RowsAgree.angleGroup?_eq
    {level : Nat} {inner after : List Tree} (h : RowsAgree Spot.reads spot trees trees')
    (hcovers : spot.Covers level) (hgroup : angleGroup? level trees = some (inner, after)) :
    ∃ after' last, angleGroup? level trees' = some (inner, after') ∧ last.clause ≠ .outside ∧
      RowsAgree Spot.reads last after after' := by
  fun_induction angleGroup? level trees generalizing inner after spot trees' with
  | case1 => cases hgroup
  | case2 level tree rest hopen ih =>
      obtain ⟨⟨found, tail⟩, hrest, heq⟩ := Option.map_eq_some_iff.1 hgroup
      obtain ⟨rfl, rfl⟩ := Prod.mk.inj heq
      obtain ⟨before, rfl⟩ := exists_leaf_of_isSymbol hopen
      cases h with
      | cons htree hrow =>
          obtain rfl := htree.eq_of_leaf (Spot.reads_of_holds hcovers.holds _)
          obtain ⟨after', last, hother, hlast, hafter⟩ := ih hrow (hcovers.after_open before) hrest
          refine ⟨after', last, ?_, hlast, hafter⟩
          rw [angleGroup?, if_pos hopen, hother]
          rfl
  | case3 level tree rest hopen hclose hlevel =>
      obtain ⟨rfl, rfl⟩ := Prod.mk.inj (Option.some.inj hgroup)
      obtain ⟨before, rfl⟩ := exists_leaf_of_isSymbol hclose
      cases h with
      | @cons _ _ _ _ row htree hrow =>
          obtain rfl := htree.eq_of_leaf (Spot.reads_of_holds hcovers.holds _)
          refine ⟨row, _, ?_, Spot.after_ne_outside (Spot.ne_outside_of_holds hcovers.holds) rfl, hrow⟩
          rw [angleGroup?, if_neg hopen, if_pos hclose, if_pos hlevel]
  | case4 level tree rest hopen hclose hlevel ih =>
      obtain ⟨⟨found, tail⟩, hrest, heq⟩ := Option.map_eq_some_iff.1 hgroup
      obtain ⟨rfl, rfl⟩ := Prod.mk.inj heq
      obtain ⟨before, rfl⟩ := exists_leaf_of_isSymbol hclose
      cases h with
      | cons htree hrow =>
          obtain rfl := htree.eq_of_leaf (Spot.reads_of_holds hcovers.holds _)
          obtain ⟨after', last, hother, hlast, hafter⟩ :=
            ih hrow (hcovers.after_close hlevel before) hrest
          refine ⟨after', last, ?_, hlast, hafter⟩
          rw [angleGroup?, if_neg hopen, if_pos hclose, if_neg hlevel, hother]
          rfl
  | case5 => cases hgroup
  | case6 level tree rest hopen hclose hend ih =>
      obtain ⟨⟨found, tail⟩, hrest, heq⟩ := Option.map_eq_some_iff.1 hgroup
      obtain ⟨rfl, rfl⟩ := Prod.mk.inj heq
      have hnot := hend
      rw [Bool.not_eq_true, Bool.or_eq_false_iff] at hnot
      have hquiet : isQuiet tree := isQuiet_iff.2
        ⟨hnot.2, hnot.1, Bool.not_eq_true _ ▸ hopen, Bool.not_eq_true _ ▸ hclose⟩
      cases h with
      | cons htree hrow =>
          obtain rfl := htree.eq_of_holds hcovers.holds hnot.2
          obtain ⟨after', last, hother, hlast, hafter⟩ :=
            ih hrow (hcovers.after_quiet hquiet) hrest
          refine ⟨after', last, ?_, hlast, hafter⟩
          rw [angleGroup?, if_neg hopen, if_neg hclose, if_neg hend, hother]
          rfl

theorem Spot.reads_open (h : spot.clause ≠ .outside) : spot.reads (.symbol '<') := by
  obtain ⟨clause, afterDot⟩ := spot
  cases clause with
  | outside => exact absurd rfl h
  | _ => simp [reads, Clause.holds]

/-- Type arguments after a name are the same, and the name may go on after them. -/
theorem RowsAgree.afterTypeArguments_eq
    (h : RowsAgree Spot.reads spot trees trees') (hspot : spot.clause ≠ .outside) :
    ∃ arguments last, trees = arguments ++ afterTypeArguments trees ∧
      trees' = arguments ++ afterTypeArguments trees' ∧ last.clause ≠ .outside ∧
        RowsAgree Spot.reads last (afterTypeArguments trees) (afterTypeArguments trees') := by
  rcases htypes : typeArguments? trees with _ | ⟨inner, after⟩
  · have hother : typeArguments? trees' = none := by
      rcases h.alike.typeArguments?.neither_or_both with
        ⟨-, hother⟩ | ⟨_, _, _, _, hone, -⟩
      · exact hother
      · rw [htypes] at hone
        cases hone
    rw [afterTypeArguments, htypes, afterTypeArguments, hother]
    exact ⟨[], spot, rfl, rfl, hspot, h⟩
  · rcases trees with _ | ⟨tree, rest⟩
    · cases htypes
    have hrow := htypes
    rw [typeArguments?] at hrow
    by_cases hopen : tree.isSymbol '<'
    · rw [if_pos hopen, angleGroup?, if_pos hopen] at hrow
      obtain ⟨⟨found, tail⟩, hgroup, heq⟩ := Option.map_eq_some_iff.1 hrow
      obtain ⟨rfl, rfl⟩ := Prod.mk.inj heq
      obtain ⟨before, rfl⟩ := exists_leaf_of_isSymbol hopen
      cases h with
      | @cons _ _ _ _ rest' htree hrest =>
          obtain rfl := htree.eq_of_leaf (Spot.reads_open hspot)
          obtain ⟨after', last, hother, hlast, hafter⟩ :=
            hrest.angleGroup?_eq (Spot.covers_after_open hspot before) hgroup
          have htypes' : typeArguments? (.leaf ⟨before, .symbol '<'⟩ :: rest') =
              some (.leaf ⟨before, .symbol '<'⟩ :: found, after') := by
            rw [typeArguments?, if_pos hopen, angleGroup?, if_pos hopen, hother]
            rfl
          rw [afterTypeArguments, htypes, afterTypeArguments, htypes']
          refine ⟨.leaf ⟨before, .symbol '<'⟩ :: found, last, ?_, ?_, hlast, hafter⟩
          · rw [angleGroup?_append hgroup]
            rfl
          · rw [angleGroup?_append hother]
            rfl
    · rw [if_neg hopen] at hrow
      cases hrow

theorem RowsAlike.length_eq {f : String → String} {g : Option String → Option String} :
    {trees trees' : List Tree} → RowsAlike f g trees trees' → trees'.length = trees.length
  | [], [], _ => rfl
  | _ :: _, _ :: _, .cons _ hrest _ _ => congrArg (· + 1) hrest.length_eq

theorem Spot.after_extends_ne_outside (spot : Spot) (before : List String) :
    (spot.after (.leaf ⟨before, .word "extends"⟩)).clause ≠ .outside := by
  obtain ⟨clause, afterDot⟩ := spot
  cases clause with
  | _ => exact Clause.noConfusion

/-- A comment right after the word is read. -/
theorem Spot.reads_after_extends (spot : Spot) (before : List String) (lexeme : Lexeme) :
    (spot.after (.leaf ⟨before, .word "extends"⟩)).reads lexeme := by
  obtain ⟨clause, afterDot⟩ := spot
  cases clause with
  | _ => simp [after, next, reads, Clause.next, Clause.holds]

theorem Spot.after_dot_ne_outside (h : spot.clause ≠ .outside) (before : List String) :
    (spot.after (.leaf ⟨before, .symbol '.'⟩)).clause ≠ .outside :=
  Spot.after_ne_outside h rfl

/-- After a dot an annotation belongs to the name. -/
theorem Spot.holds_after_at (h : spot.clause ≠ .outside) (before before' : List String) :
    ((spot.after (.leaf ⟨before, .symbol '.'⟩)).after (.leaf ⟨before', .symbol '@'⟩)).clause.holds := by
  obtain ⟨clause, afterDot⟩ := spot
  cases clause with
  | outside => exact absurd rfl h
  | _ => rfl

/-- The name is the same from a dot up to its next word. -/
theorem RowsAgree.eq_after_dot
    {before : List String} {taken more row : List Tree} {word : Tree}
    (h : RowsAgree Spot.reads (spot.after (.leaf ⟨before, .symbol '.'⟩)) (taken ++ word :: more) row)
    (hspot : spot.clause ≠ .outside) (hquiet : ∀ tree ∈ taken, isQuiet tree)
    (hsign : ∀ tree ∈ taken.head?, tree.isSymbol '@') (hword : word.word?.isSome) :
    ∃ more' last, row = taken ++ word :: more' ∧ last.clause ≠ .outside ∧
      RowsAgree Spot.reads last more more' := by
  have hafter := Spot.after_dot_ne_outside hspot before
  have hquietWord := isQuiet_of_word? hword
  rcases taken with _ | ⟨sign, rest⟩
  · obtain ⟨text, hsome⟩ := Option.isSome_iff_exists.1 hword
    obtain ⟨before', rfl⟩ := exists_leaf_of_word? hsome
    cases h with
    | @cons _ _ _ _ more' htree hrest =>
        obtain rfl := htree.eq_of_leaf (Spot.reads_after_dot spot before _)
        exact ⟨more', _, rfl, Spot.after_ne_outside hafter rfl, hrest⟩
  · obtain ⟨before', rfl⟩ := exists_leaf_of_isSymbol (hsign sign rfl)
    rw [List.cons_append] at h
    cases h with
    | @cons _ _ _ _ row' htree hrest =>
        obtain rfl := htree.eq_of_leaf (Spot.reads_after_dot spot before _)
        have hall : ∀ tree ∈ rest ++ [word], isQuiet tree :=
          List.forall_mem_append.2 ⟨(List.forall_mem_cons.1 hquiet).2,
            List.forall_mem_singleton.2 hquietWord⟩
        rw [List.append_cons] at hrest
        obtain ⟨more', last, rfl, hlast, hmore⟩ :=
          hrest.eq_of_holds (Spot.holds_after_at hspot before before') hall
        refine ⟨more', last, ?_, Spot.ne_outside_of_holds hlast, hmore⟩
        rw [List.append_assoc]
        rfl

theorem nextTypeName?_of_annotations
    {dot word : Tree} {rest taken more : List Tree} (hdot : dot.isSymbol '.')
    (hrest : rest = taken ++ word :: more) (hannotations : (annotations rest).2 = word :: more)
    (hword : word.word?.isSome) :
    nextTypeName? (dot :: rest) = some (dot :: (taken ++ [word]), more) := by
  have htake : rest.take (rest.length - more.length) = taken ++ [word] := by
    rw [hrest, List.append_cons, List.length_append, Nat.add_sub_cancel, List.take_left]
  rw [nextTypeName?, if_pos hdot, hannotations]
  dsimp only
  rw [if_pos hword, htake]

/-- A further name of a class type is the same. -/
theorem RowsAgree.nextTypeName?_eq
    (h : RowsAgree Spot.reads spot trees trees') (hspot : spot.clause ≠ .outside) :
    nextTypeName? trees = none ∧ nextTypeName? trees' = none ∨
      ∃ name more more' last, nextTypeName? trees = some (name, more) ∧
        nextTypeName? trees' = some (name, more') ∧ last.clause ≠ .outside ∧
          RowsAgree Spot.reads last more more' := by
  rcases h.alike.nextTypeName?.neither_or_both with
    hneither | ⟨name, more, name', more', hone, hother, -⟩
  · exact Or.inl hneither
  right
  rcases trees with _ | ⟨dot, rest⟩
  · cases hone
  rw [nextTypeName?] at hone
  split at hone
  · rename_i hdot
    split at hone
    · cases hone
    · rename_i word after hannotations
      split at hone
      · rename_i hword
        obtain ⟨rfl, rfl⟩ := Prod.mk.inj (Option.some.inj hone)
        obtain ⟨taken, hrest, hquiet, hsign⟩ := exists_append_annotations rest
        rw [hannotations] at hrest
        obtain ⟨before, rfl⟩ := exists_leaf_of_isSymbol hdot
        cases h with
        | @cons _ _ _ _ rest' htree hrow =>
            obtain rfl := htree.eq_of_leaf (Spot.reads_dot spot)
            have hlengths := hrow.alike.annotations.2.length_eq
            have hagree := hrow
            rw [hrest] at hagree
            obtain ⟨more', last, hrest', hlast, hmore⟩ :=
              hagree.eq_after_dot hspot hquiet hsign hword
            have hannotations' : (annotations rest').2 = word :: more' := by
              obtain ⟨taken', hsplit, -⟩ := exists_append_annotations rest'
              have hsame : taken' ++ (annotations rest').2 = taken ++ word :: more' :=
                hsplit.symm.trans hrest'
              apply List.append_inj_right' hsame
              rw [hlengths, hannotations, List.length_cons, List.length_cons, hmore.alike.length_eq]
            refine ⟨_, _, more', last, nextTypeName?_of_annotations hdot hrest hannotations hword,
              nextTypeName?_of_annotations hdot hrest' hannotations' hword, hlast, hmore⟩
      · cases hone
  · cases hone

/-- What is written of a class type is the same. -/
theorem RowsAgree.classTypeTail_eq
    (h : RowsAgree Spot.reads spot trees trees') (hspot : spot.clause ≠ .outside) :
    (classTypeTail trees').1 = (classTypeTail trees).1 := by
  induction hlength : trees.length using Nat.strongRecOn generalizing spot trees trees' with
  | ind length ih =>
      subst hlength
      obtain ⟨arguments, middle, htrees, htrees', hmiddle, hrow⟩ := h.afterTypeArguments_eq hspot
      have htake : ∀ {row}, row = arguments ++ afterTypeArguments row →
          row.take (row.length - (afterTypeArguments row).length) = arguments := by
        intro row hsplit
        have hlength := congrArg List.length hsplit
        rw [List.length_append] at hlength
        rw [hlength, Nat.add_sub_cancel]
        conv_lhs => rw [hsplit]
        rw [List.take_left]
      rw [Source.classTypeTail_eq, Source.classTypeTail_eq trees]
      rcases hrow.nextTypeName?_eq hmiddle with
        ⟨hone, hother⟩ | ⟨name, more, more', last, hone, hother, hlast, hmore⟩
      · rw [hone, hother]
      · have hshorter : more.length < trees.length :=
          Nat.lt_of_lt_of_le (nextTypeName?_length hone) (afterTypeArguments_length trees)
        rw [hone, hother]
        dsimp only
        rw [htake htrees, htake htrees', ih _ hshorter hmore hlast rfl]

/-- The class that a type names is the same. -/
theorem RowsAgree.typeReference?_eq
    (h : RowsAgree Spot.reads spot trees trees') (hspot : spot.clause ≠ .outside) :
    (typeReference? trees').map Prod.fst = (typeReference? trees).map Prod.fst := by
  have hlengths := h.alike.annotations.2.length_eq
  obtain ⟨taken, htrees, hquiet, -⟩ := exists_append_annotations trees
  obtain ⟨other, htrees', -⟩ := exists_append_annotations trees'
  have hagree := h
  rw [htrees] at hagree
  obtain ⟨taken', after', last, hsplit, hlength, hlast, hrow⟩ := hagree.drop hspot hquiet
  have hafter : (annotations trees').2 = after' := by
    apply List.append_inj_right' (htrees'.symm.trans hsplit)
    rw [hlengths, hrow.alike.length_eq]
  rw [typeReference?, typeReference?, hafter]
  generalize (annotations trees).2 = row at hrow ⊢
  cases hrow with
  | nil => rfl
  | @cons _ tree tree' rest rest' htree hrest =>
      dsimp only
      rw [htree.alike.word?_eq]
      cases hword : tree.word? with
      | none => rfl
      | some word =>
          obtain ⟨before, rfl⟩ := exists_leaf_of_word? hword
          have htail := hrest.classTypeTail_eq (Spot.after_ne_outside hlast rfl)
          have hrestLengths := hrest.alike.classTypeTail.length_eq
          have hfinalLengths := hrest.alike.classTypeTail.afterDimensions.length_eq
          dsimp only
          split
          · rw [hrest.alike.length_eq, hrest.alike.afterDimensions.length_eq]
            rfl
          · rw [hrestLengths, hfinalLengths, htail]
            rfl

/-- An `extends` clause is read the same. -/
theorem RowsAgree.extendsClause?_eq (h : RowsAgree Spot.reads spot trees trees') :
    extendsClause? trees = extendsClause? trees' := by
  cases h with
  | nil => rfl
  | @cons _ keyword keyword' rest rest' hkeyword hrest =>
      cases hrest with
      | nil => rfl
      | @cons _ type type' more more' htype hmore =>
          rw [extendsClause?, extendsClause?, hkeyword.alike.isWord_eq]
          by_cases hextends : keyword.isWord "extends"
          · obtain ⟨before, rfl⟩ := exists_leaf_of_word? (eq_of_beq hextends)
            have hfirst : type'.first = type.first :=
              (htype.first_eq.2 (Spot.reads_after_extends spot before _)).symm
            have hclass := RowsAgree.typeReference?_eq (.cons htype hmore)
              (Spot.after_extends_ne_outside spot before)
            rw [hfirst]
            generalize typeReference? (type :: more) = one at hclass ⊢
            generalize typeReference? (type' :: more') = other at hclass ⊢
            cases one with
            | none =>
                obtain rfl := Option.map_eq_none_iff.1 hclass
                rfl
            | some read =>
                obtain ⟨read', rfl, hsame⟩ := Option.map_eq_some_iff.1 hclass
                rw [Option.map_some, Option.map_some]
                dsimp only
                rw [hsame]
          · rw [Bool.not_eq_true] at hextends
            rw [hextends]
            rfl

theorem namesAgree_id : NamesAgree Spot.reads id id := by
  intro spot trees trees' h
  have hmap : ∀ found : Option (String × List Tree),
      found.map (id ∘ dottedText ∘ Prod.fst) = (found.map Prod.fst).map dottedText := by
    intro found
    rw [Option.map_map]
    rfl
  refine ⟨?_, congrArg (Option.bind · ExtendsClause.className?) h.extendsClause?_eq⟩
  rw [hmap, hmap, h.dottedName?_eq]

/-- Rows that agree where comments are read have the same names. -/
theorem RowsAgree.same (h : RowsAgree Spot.reads spot trees trees') : RowsAlike id id trees trees' :=
  h.alike_of_namesAgree namesAgree_id

end Classes

/-- The spots of the groups that are open at a place, innermost first: that of the place itself, and
those after the groups around it. -/
structure Spots where
  current : Spot
  around : List Spot

namespace Spots

/-- The spots at the begin of a source. -/
def start : Spots :=
  ⟨.start .outside, []⟩

/-- The spots after a token. -/
def next (spots : Spots) (lexeme : Lexeme) : Spots :=
  match Bracket.opening? lexeme, Bracket.closing? lexeme with
  | some bracket, _ =>
    ⟨.start (spots.current.clause.inside bracket),
      .start (spots.current.clause.past bracket) :: spots.around⟩
  | none, some _ =>
    match spots.around with
    | [] => spots
    | after :: around => ⟨after, around⟩
  | none, none => ⟨spots.current.next lexeme, spots.around⟩

end Spots

section Tokens

variable (reads : Spot → Lexeme → Bool)

/-- The tokens are the same but for comments that are not read at their spots. -/
inductive TokenRowsAgree : Spots → List Token → List Token → Prop where
  | nil {spots : Spots} : TokenRowsAgree spots [] []
  | cons {spots : Spots} {token token' : Token} {rest rest' : List Token}
      (htoken : TokensAgree reads spots.current token token')
      (hrest : TokenRowsAgree (spots.next token.lexeme) rest rest') :
      TokenRowsAgree spots (token :: rest) (token' :: rest')

variable {reads}

theorem tokenRowsAgree_refl (spots : Spots) (tokens : List Token) :
    TokenRowsAgree reads spots tokens tokens := by
  induction tokens generalizing spots with
  | nil => exact .nil
  | cons token rest ih => exact .cons ⟨rfl, fun _ => rfl⟩ (ih _)

/-- Rows that differ before one token agree if a comment there is not read. -/
theorem tokenRowsAgree_of_not_reads
    {spots : Spots} {earlier : List Token} {lexeme : Lexeme} (rest : List Token)
    (before before' : List String)
    (h : reads ((earlier.map Token.lexeme).foldl Spots.next spots).current lexeme = false) :
    TokenRowsAgree reads spots (earlier ++ ⟨before, lexeme⟩ :: rest)
      (earlier ++ ⟨before', lexeme⟩ :: rest) := by
  induction earlier generalizing spots with
  | nil =>
      refine .cons ⟨rfl, fun hreads => ?_⟩ (tokenRowsAgree_refl _ rest)
      rw [show reads spots.current lexeme = false from h] at hreads
      cases hreads
  | cons token others ih => exact .cons ⟨rfl, fun _ => rfl⟩ (ih h)

mutual

/-- The spots after the tokens of a paired tree are those around it. -/
theorem Tree.IsPaired.exists_agree {spot : Spot} {around : List Spot} {rest row : List Token} :
    {tree : Tree} → tree.IsPaired →
      TokenRowsAgree reads ⟨spot, around⟩ (tree.tokens ++ rest) row →
        ∃ tree' rest', row = tree'.tokens ++ rest' ∧ tree'.IsPaired ∧ Tree.Agree reads spot tree tree' ∧
          TokenRowsAgree reads ⟨spot.after tree, around⟩ rest rest'
  | .leaf token, .leaf hopening hclosing, h => by
    rw [Tree.tokens, List.singleton_append] at h
    cases h with
    | @cons _ _ token' _ rest' htoken hrest =>
        have hnext : Spots.next ⟨spot, around⟩ token.lexeme = ⟨spot.next token.lexeme, around⟩ := by
          rw [Spots.next, hopening, hclosing]
        rw [hnext] at hrest
        have hpaired : (Tree.leaf token').IsPaired := by
          rw [htoken.1] at hopening hclosing
          exact .leaf hopening hclosing
        exact ⟨.leaf token', rest', rfl, hpaired, .leaf htoken, hrest⟩
  | .group bracket opening inner (some closing), .group hopening hinner hnot hclosing, h => by
    rw [Tree.tokens, List.cons_append, List.cons_append, List.append_assoc] at h
    cases h with
    | @cons _ _ opening' _ middle hfirst hmiddle =>
        have hnext : Spots.next ⟨spot, around⟩ opening.lexeme =
            ⟨.start (spot.clause.inside bracket), .start (spot.clause.past bracket) :: around⟩ := by
          rw [Spots.next, hopening]
        rw [hnext] at hmiddle
        obtain ⟨inner', row', rfl, hinner', hagree, hrow⟩ := hinner.exists_agree hmiddle
        cases hrow with
        | @cons _ _ closing' _ rest' hlast hrest =>
            have hback : Spots.next ⟨inner.foldl Spot.after (.start (spot.clause.inside bracket)),
                .start (spot.clause.past bracket) :: around⟩ closing.lexeme =
                  ⟨.start (spot.clause.past bracket), around⟩ := by
              rw [Spots.next, hnot, hclosing]
            rw [hback] at hrest
            have hpaired : (Tree.group bracket opening' inner' (some closing')).IsPaired := by
              rw [hfirst.1] at hopening
              rw [hlast.1] at hnot hclosing
              exact .group hopening hinner' hnot hclosing
            refine ⟨.group bracket opening' inner' (some closing'), rest', ?_, hpaired,
              .group hfirst hagree hlast, hrest⟩
            simp only [Tree.tokens, Option.toList_some, List.cons_append, List.append_assoc,
              List.nil_append]

theorem ArePaired.exists_agree {spot : Spot} {around : List Spot} {rest row : List Token} :
    {trees : List Tree} → ArePaired trees →
      TokenRowsAgree reads ⟨spot, around⟩ (Tree.tokensAmong trees ++ rest) row →
        ∃ trees' rest', row = Tree.tokensAmong trees' ++ rest' ∧ ArePaired trees' ∧
          RowsAgree reads spot trees trees' ∧
            TokenRowsAgree reads ⟨trees.foldl Spot.after spot, around⟩ rest rest'
  | [], _, h => ⟨[], row, rfl, .nil, .nil, h⟩
  | tree :: others, .cons htree hothers, h => by
    rw [Tree.tokensAmong, List.append_assoc] at h
    obtain ⟨tree', _, rfl, htree', hfirst, hrow⟩ := htree.exists_agree h
    obtain ⟨trees', rest', rfl, htrees', hmore, hrest⟩ := hothers.exists_agree hrow
    refine ⟨tree' :: trees', rest', ?_, .cons htree' htrees', .cons hfirst hmore, hrest⟩
    rw [Tree.tokensAmong, List.append_assoc]

end

/-- Tokens that agree nest into rows that agree. -/
theorem TokenRowsAgree.nest
    {tokens tokens' : List Token} (h : TokenRowsAgree reads .start tokens tokens')
    (hpaired : pairUp [] tokens) :
    RowsAgree reads (.start .outside) (Source.nest tokens) (Source.nest tokens') := by
  obtain ⟨trees, htrees, rfl⟩ := exists_arePaired_of_pairUp hpaired
  rw [← List.append_nil (Tree.tokensAmong trees)] at h
  obtain ⟨trees', rest', rfl, htrees', hagree, hrest⟩ := htrees.exists_agree h
  obtain rfl : rest' = [] := by
    cases hrest
    rfl
  rw [List.append_nil, htrees.nest_tokensAmong, htrees'.nest_tokensAmong]
  exact hagree

end Tokens

end ComponentMarkers.Source
