import ComponentMarkers.Proofs.Source.Lexing
import Mathlib.Data.List.Infix

/-!
# Layout between tokens

Blanks and comments that are put between two pieces of a text leave its tokens as they are, but for the
comments kept with the token after them.  What is put there must not be taken for a part of the piece
before: no comment stands right after a slash, and nothing but the end of the line after a line comment.
-/

namespace ComponentMarkers.Source

open Text

/-- What may stand between two tokens: a blank, a block comment, or a line comment with the end of its
line. -/
inductive Layout where
  | blank (char : Char) (hblank : isBlank char)
  | block (body : List Char) (hbody : ¬ ['*', '/'] <:+: body)
  | line (body : List Char) (hbody : '\n' ∉ body)

namespace Layout

/-- The characters of the layout. -/
def text : Layout → List Char
  | blank char _ => [char]
  | block body _ => '/' :: '*' :: (body ++ ['*', '/'])
  | line body _ => '/' :: '/' :: (body ++ ['\n'])

/-- The comment in the layout. -/
def remark? : Layout → Option String
  | blank _ _ => none
  | block body _ => some (String.ofList ('/' :: '*' :: (body ++ ['*', '/'])))
  | line body _ => some (String.ofList ('/' :: '/' :: body))

end Layout

/-- The characters of some layout. -/
def layoutText (gap : List Layout) : List Char :=
  gap.flatMap Layout.text

/-- The comments in some layout. -/
def remarks (gap : List Layout) : List String :=
  gap.filterMap Layout.remark?

section Gaps

/-- A block comment ends at the first place where it can. -/
theorem commentEnd_append
    {body : List Char} (hbody : ¬ ['*', '/'] <:+: body) (seen rest : List Char) :
    commentEnd seen (body ++ '*' :: '/' :: rest) = some (seen.reverse ++ body ++ ['*', '/'], rest) := by
  induction body generalizing seen with
  | nil =>
      rw [List.nil_append, commentEnd]
      simp
  | cons c more ih =>
      have hmore : ¬ ['*', '/'] <:+: more := fun h => hbody (List.infix_cons h)
      rw [List.cons_append, commentEnd, ih hmore]
      · simp
      · intro tail hc htail
        rcases more with _ | ⟨d, others⟩
        · exact absurd (List.cons.inj htail).1 (by decide)
        · obtain rfl := (List.cons.inj htail).1
          exact hbody ⟨[], others, by rw [hc]; rfl⟩

theorem slash_is_mark : isBlank '/' = false ∧ isNameStart '/' = false ∧ '/'.isDigit = false := by
  decide +kernel

theorem nextPiece_block {body : List Char} (hbody : ¬ ['*', '/'] <:+: body) (rest : List Char) :
    nextPiece '/' ('*' :: (body ++ ['*', '/'] ++ rest)) =
      (.remark (String.ofList ('/' :: '*' :: (body ++ ['*', '/']))), rest) := by
  have hend := commentEnd_append hbody ['*', '/'] rest
  rw [nextPiece_of_mark slash_is_mark, markedPiece?, List.append_assoc, List.cons_append,
    List.singleton_append, hend]
  rfl

theorem nextPiece_line {body : List Char} (hbody : '\n' ∉ body) (rest : List Char) :
    nextPiece '/' ('/' :: (body ++ ['\n'] ++ rest)) =
      (.remark (String.ofList ('/' :: '/' :: body)), '\n' :: rest) := by
  have hline : ∀ c ∈ body, (c ≠ '\n' : Bool) := by
    intro c hc
    rw [decide_eq_true_eq]
    rintro rfl
    exact hbody hc
  have hend : ∀ c ∈ ('\n' :: rest).head?, (c ≠ '\n' : Bool) = false := by
    intro c hc
    obtain rfl := Option.some.inj hc
    rfl
  rw [nextPiece_of_mark slash_is_mark, List.append_assoc, List.singleton_append,
    markedPiece?_lineComment hline hend]

/-- Of the layout before a token its comments are kept. -/
theorem tokensFrom_layoutText (gap : List Layout) (before : List String) (rest : List Char) :
    tokensFrom before (layoutText gap ++ rest) = tokensFrom ((remarks gap).reverse ++ before) rest := by
  induction gap generalizing before with
  | nil => rfl
  | cons layout others ih =>
      have hremarks : remarks (layout :: others) = layout.remark?.toList ++ remarks others := by
        cases layout <;> rfl
      rw [layoutText, List.flatMap_cons, List.append_assoc, ← layoutText, hremarks,
        List.reverse_append, List.append_assoc]
      cases layout with
      | blank char hblank =>
          rw [Layout.text, List.singleton_append,
            tokensFrom_of_blank (nextPiece_of_isBlank hblank _), ih]
          rfl
      | block body hbody =>
          have hpiece := nextPiece_block hbody (layoutText others ++ rest)
          rw [Layout.text, List.cons_append, List.cons_append, tokensFrom_of_remark hpiece, ih]
          rfl
      | line body hbody =>
          have hpiece := nextPiece_line hbody (layoutText others ++ rest)
          have hblank : isBlank '\n' := by decide
          rw [Layout.text, List.cons_append, List.cons_append, tokensFrom_of_remark hpiece,
            tokensFrom_of_blank (nextPiece_of_isBlank hblank _), ih]
          rfl

end Gaps

section Seams

/-- The text begins with a blank or with the slash of a comment. -/
def BeginsWithLayout (cs : List Char) : Prop :=
  ∃ c rest, cs = c :: rest ∧ (isBlank c ∨ c = '/')

theorem beginsWithLayout_layoutText {gap : List Layout} (h : gap ≠ []) (rest : List Char) :
    BeginsWithLayout (layoutText gap ++ rest) := by
  obtain ⟨layout, others, rfl⟩ := List.exists_cons_of_ne_nil h
  rw [layoutText, List.flatMap_cons, List.append_assoc]
  cases layout with
  | blank char hblank => exact ⟨char, _, rfl, Or.inl hblank⟩
  | block body => exact ⟨'/', _, rfl, Or.inr rfl⟩
  | line body => exact ⟨'/', _, rfl, Or.inr rfl⟩

/-- A word without blanks and slashes does not reach into layout. -/
theorem exists_of_append_eq_append
    {word head other rest : List Char} (h : head ++ other = word ++ rest)
    (hword : word.all fun c => !isBlank c && c != '/') (hother : BeginsWithLayout other) :
    ∃ more, head = word ++ more ∧ rest = more ++ other := by
  rcases List.append_eq_append_iff.1 h with ⟨more, hmore, hlayout⟩ | ⟨more, hmore, hrest⟩
  · -- The word would go on with the first character of the layout.
    obtain ⟨c, tail, rfl, hc⟩ := hother
    rcases more with _ | ⟨d, others⟩
    · exact ⟨[], by rw [hmore, List.append_nil, List.append_nil], hlayout.symm⟩
    · obtain rfl := (List.cons.inj hlayout).1
      have hsign := List.all_eq_true.1 hword c (by rw [hmore]; simp)
      rw [Bool.and_eq_true, Bool.not_eq_true', bne_iff_ne] at hsign
      rcases hc with hc | hc
      · rw [hsign.1] at hc
        cases hc
      · exact absurd hc hsign.2
  · exact ⟨more, hmore, hrest⟩

theorem LacksAhead.of_append
    {word : String} {head after other : List Char} (h : LacksAhead word (head ++ after))
    (hword : word.toList.all fun c => !isBlank c && c != '/') (hother : BeginsWithLayout other) :
    LacksAhead word (head ++ other) := by
  rw [LacksAhead, Option.eq_none_iff_forall_not_mem] at h ⊢
  intro rest hrest
  obtain ⟨more, rfl, -⟩ :=
    exists_of_append_eq_append (afterText?_eq_some_iff.1 hrest) hword hother
  apply h (more ++ after)
  rw [Option.mem_def, afterText?_eq_some_iff, List.append_assoc]

/-- Where `-sealed` is no whole word before some text, it is none before layout in its place. -/
theorem afterSealed?_of_append
    {head after other : List Char} (h : afterSealed? (head ++ after) = none)
    (hends : head = "-sealed".toList → ∀ c ∈ after.head?, isNamePart c = false)
    (hother : BeginsWithLayout other) : afterSealed? (head ++ other) = none := by
  rw [Option.eq_none_iff_forall_not_mem] at h ⊢
  intro rest hrest
  obtain ⟨hsplit, hpart⟩ := afterSealed?_eq_some_iff.1 hrest
  obtain ⟨more, rfl, rfl⟩ := exists_of_append_eq_append hsplit (by decide) hother
  apply h (more ++ after)
  rw [Option.mem_def, afterSealed?_eq_some_iff]
  refine ⟨List.append_assoc _ _ _, ?_⟩
  rcases more with _ | ⟨c, others⟩
  · exact hends (List.append_nil _)
  · exact hpart

/-- A piece that ends before other pieces still does when what follows these is layout. -/
theorem Piece.EndsBefore.of_append
    {piece : Piece} {head after other : List Char} (h : piece.EndsBefore (head ++ after))
    (hhead : head ≠ [])
    (hsealed : head = "-sealed".toList → ∀ c ∈ after.head?, isNamePart c = false)
    (hother : BeginsWithLayout other) : piece.EndsBefore (head ++ other) := by
  have hfirst : (head ++ other).head? = (head ++ after).head? := by
    obtain ⟨c, rest, rfl⟩ := List.exists_cons_of_ne_nil hhead
    rfl
  cases piece with
  | blank => trivial
  | remark text =>
      intro hline
      rw [hfirst]
      exact h hline
  | lexeme lexeme =>
      cases lexeme with
      | word text =>
          rcases h with hword | ⟨hpart, hlacks⟩
          · exact Or.inl hword
          · refine Or.inr ⟨by rw [hfirst]; exact hpart, fun hnon => ?_⟩
            exact afterSealed?_of_append (hlacks hnon) hsealed hother
      | number text =>
          intro c hc
          rw [hfirst] at hc
          exact h c hc
      | quoted text =>
          intro hquotes
          rw [hfirst]
          exact h hquotes
      | symbol char =>
          refine ⟨fun hslash => by rw [hfirst]; exact h.1 hslash, fun hat => ?_⟩
          exact (h.2 hat).of_append (by decide) hother

namespace Piece

/-- The token that the piece is, if it is one, after the remarks that have been kept, last one first. -/
def token? (kept : List String) : Piece → Option Token
  | .lexeme found => some ⟨kept.reverse, found⟩
  | _ => none

/-- The remarks that are kept after the piece, last one first. -/
def keep (kept : List String) : Piece → List String
  | .blank => kept
  | .remark text => text :: kept
  | .lexeme _ => []

/-- The lexeme that the piece is. -/
def lexeme? : Piece → Option Lexeme
  | .lexeme found => some found
  | _ => none

end Piece

theorem tokensFrom_of_nextPiece
    {kept : List String} {c : Char} {rest after : List Char} {piece : Piece}
    (h : nextPiece c rest = (piece, after)) :
    tokensFrom kept (c :: rest) = (piece.token? kept).toList ++ tokensFrom (piece.keep kept) after := by
  cases piece with
  | blank => exact tokensFrom_of_blank h
  | remark text => exact tokensFrom_of_remark h
  | lexeme lexeme => exact tokensFrom_of_lexeme h

theorem Piece.map_lexeme_token? (piece : Piece) (kept : List String) :
    (piece.token? kept).toList.map Token.lexeme = piece.lexeme?.toList := by
  cases piece <;> rfl

theorem ReadsTo.length_le {cs after : List Char} {pieces : List Piece} (h : ReadsTo cs pieces after) :
    after.length ≤ cs.length := by
  induction h with
  | nil => exact Nat.le_refl _
  | @cons c rest middle after piece pieces hnext _ _ ih =>
      have hle := nextPiece_length c rest
      rw [hnext] at hle
      exact Nat.le_succ_of_le (Nat.le_trans ih hle)

/-- A place right behind `-sealed` that the pieces lead to is the end of the word. -/
theorem ReadsTo.ends_after_sealed
    {after : List Char} {pieces : List Piece} (h : ReadsTo ("-sealed".toList ++ after) pieces after) :
    ∀ c ∈ after.head?, isNamePart c = false := by
  have hsign : isBlank '-' = false ∧ isNameStart '-' = false ∧ '-'.isDigit = false := by
    decide +kernel
  have hletters : isBlank 's' = false ∧ isNameStart 's' ∧
      ['e', 'a', 'l', 'e', 'd'].all isNamePart := by
    decide +kernel
  have hword : "-sealed".toList = '-' :: 's' :: ['e', 'a', 'l', 'e', 'd'] := rfl
  rw [hword, List.cons_append, List.cons_append] at h
  cases h with
  | @cons _ _ _ _ _ _ hnext _ hrest =>
      rw [nextPiece_of_mark hsign] at hnext
      obtain rfl := (Prod.mk.inj hnext).2
      cases hrest with
      | @cons _ _ middle _ _ _ hnext _ hrest =>
          have hmiddle : middle = after.dropWhile isNamePart := by
            have hnon : ∀ name : List Char, 's' :: name ≠ "non".toList := fun name hname =>
              absurd (List.cons.inj hname).1 (by decide)
            rw [nextPiece, hletters.1, if_neg Bool.false_ne_true, if_pos hletters.2.1, namePiece,
              if_neg (hnon _)] at hnext
            exact (Prod.mk.inj hnext).2.symm.trans (List.dropWhile_append_of_pos (List.all_eq_true.1 hletters.2.2))
          -- What follows the word is reached, so none of it was taken for a part of the word.
          have hle := hrest.length_le
          rw [hmiddle] at hle
          rw [← (List.dropWhile_suffix isNamePart).eq_of_length_le hle]
          exact head?_dropWhile isNamePart after

/-- The tokens up to a place do not depend on what follows there, as long as it is the same or layout
that the last piece ends before. -/
theorem ReadsTo.exists_tokens
    {cs after : List Char} {pieces : List Piece} {last : Piece}
    (h : ReadsTo cs (pieces ++ [last]) after) (kept : List String) :
    ∃ head earlier kept', cs = head ++ after ∧ head ≠ [] ∧
      earlier.map Token.lexeme = (pieces ++ [last]).filterMap Piece.lexeme? ∧
      ∀ other, other = after ∨ BeginsWithLayout other ∧ last.EndsBefore other →
        tokensFrom kept (head ++ other) = earlier ++ tokensFrom kept' other := by
  induction pieces generalizing cs kept with
  | nil =>
      cases h with
      | @cons c rest middle _ _ _ hnext hwhole hrest =>
          cases hrest
          obtain ⟨hends, taken, rfl, hall⟩ := nextPiece_spec hnext hwhole
          refine ⟨c :: taken, (last.token? kept).toList, last.keep kept, rfl, List.cons_ne_nil _ _, ?_,
            fun other hother => ?_⟩
          · rw [last.map_lexeme_token?, List.nil_append]
            cases last <;> rfl
          · apply tokensFrom_of_nextPiece
            apply hall
            rcases hother with rfl | ⟨-, hother⟩
            · exact hends
            · exact hother
  | cons piece pieces ih =>
      cases h with
      | @cons c rest middle _ _ _ hnext hwhole hrest =>
          obtain ⟨hends, taken, rfl, hall⟩ := nextPiece_spec hnext hwhole
          obtain ⟨head, earlier, kept', rfl, hhead, hearlier, htokens⟩ := ih hrest (piece.keep kept)
          refine ⟨c :: (taken ++ head), (piece.token? kept).toList ++ earlier, kept', ?_,
            List.cons_ne_nil _ _, ?_, fun other hother => ?_⟩
          · rw [List.cons_append, List.append_assoc]
          · rw [List.map_append, piece.map_lexeme_token?, hearlier, List.cons_append]
            cases piece <;> rfl
          · have hpiece : piece.EndsBefore (head ++ other) := by
              rcases hother with rfl | ⟨hlayout, -⟩
              · exact hends
              · refine hends.of_append hhead (fun hsealed => ?_) hlayout
                rw [hsealed] at hrest
                exact hrest.ends_after_sealed
            rw [List.cons_append, List.append_assoc, tokensFrom_of_nextPiece (hall _ hpiece),
              htokens other hother, List.append_assoc]

end Seams

end ComponentMarkers.Source
