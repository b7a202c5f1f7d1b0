import ComponentMarkers.Source.Lexer
import Mathlib.Data.List.TakeWhile

/-!
# Pieces of a text

Where a piece ends is settled by the piece and by the few characters after it.  `EndsBefore` says which
characters may follow a piece without being taken for a part of it; whatever follows in their place, the
same piece is read.  So a text can be continued in another way after any of its tokens.

A piece is whole unless it is a stray character, as the quote of an unclosed literal is, or the slash
of an unclosed comment.  Whether those are closed is a matter of the whole text.
-/

namespace ComponentMarkers.Source

open Text

/-- No blank is a character of a name. -/
theorem isNamePart_of_isBlank {c : Char} (h : isBlank c) : isNamePart c = false := by
  let codes := List.range' 0x09 5 ++ [0x20, 0x85, 0xA0, 0x1680] ++ List.range' 0x2000 11 ++
    [0x2028, 0x2029, 0x202F, 0x205F, 0x3000]
  have hcodes : ∀ n ∈ codes, isNamePart (Char.ofNat n) = false := by
    decide +kernel
  have hmem : c.toNat ∈ codes := by
    simp only [isBlank, Bool.or_eq_true, Bool.and_eq_true, decide_eq_true_eq, beq_iff_eq] at h
    simp only [codes, List.mem_append, List.mem_range'_1, List.mem_cons, List.not_mem_nil, or_false]
    omega
  rw [← Char.ofNat_toNat c]
  exact hcodes _ hmem

theorem isNamePart_of_isNameStart {c : Char} (h : isNameStart c) : isNamePart c := by
  rw [isNamePart, h]
  rfl

theorem isNameStart_of_isBlank {c : Char} (h : isBlank c) : isNameStart c = false := by
  have hpart := isNamePart_of_isBlank h
  rw [isNamePart, Bool.or_eq_false_iff, Bool.or_eq_false_iff] at hpart
  exact hpart.1.1

/-- The text does not go on with the word. -/
def LacksAhead (word : String) (rest : List Char) : Prop :=
  afterText? word.toList rest = none

/-- The characters may follow the piece: none of them is taken for a part of it. -/
def Piece.EndsBefore : Piece → List Char → Prop
  | .blank, _ => True
  | .remark text, rest => ['/', '/'] <+: text.toList → ∀ c ∈ rest.head?, c = '\n'
  | .lexeme (.word text), rest =>
    text = "@interface" ∨
      (∀ c ∈ rest.head?, isNamePart c = false) ∧ (text = "non" → afterSealed? rest = none)
  | .lexeme (.number _), rest => ∀ c ∈ rest.head?, (isNamePart c || c == '.') = false
  | .lexeme (.quoted text), rest => text = "\"\"" → rest.head? ≠ some '"'
  | .lexeme (.symbol c), rest =>
    (c = '/' → ∀ d ∈ rest.head?, d ≠ '/' ∧ d ≠ '*') ∧ (c = '@' → LacksAhead "interface" rest)

/-- The piece is no stray character and, `rest` following it, not the begin of an unclosed comment. -/
def Piece.IsWhole : Piece → List Char → Prop
  | .remark text, _ => 2 ≤ text.length
  | .lexeme (.symbol '/'), rest => rest.head? ≠ some '*'
  | _, _ => True

/-- A lexeme ends before every blank. -/
theorem Lexeme.endsBefore_of_isBlank
    (lexeme : Lexeme) {c : Char} (hblank : isBlank c) (rest : List Char) :
    (Piece.lexeme lexeme).EndsBefore (c :: rest) := by
  have hpart := isNamePart_of_isBlank hblank
  have hne : ∀ d, isBlank d = false → c ≠ d := by
    rintro d hd rfl
    rw [hd] at hblank
    cases hblank
  have hlacks : ∀ d word, isBlank d = false → afterText? (d :: word) (c :: rest) = none := by
    intro d word hd
    rw [afterText?, if_neg (Ne.symm (hne d hd))]
  have hhead : ∀ d ∈ (c :: rest).head?, d = c := fun d hd => (Option.some.inj hd).symm
  cases lexeme with
  | word text =>
      refine Or.inr ⟨fun d hd => ?_, fun _ => ?_⟩
      · rw [hhead d hd]
        exact hpart
      · rw [afterSealed?, show "-sealed".toList = '-' :: "sealed".toList from rfl,
          hlacks _ _ (by decide), Option.filter_none]
  | number text =>
      intro d hd
      rw [hhead d hd, hpart, Bool.false_or, beq_eq_false_iff_ne]
      exact hne '.' (by decide)
  | quoted text =>
      intro _ hquote
      exact hne '"' (by decide) (Option.some.inj hquote)
  | symbol char =>
      refine ⟨fun _ d hd => ?_, fun _ => hlacks 'i' "nterface".toList (by decide)⟩
      rw [hhead d hd]
      exact ⟨hne '/' (by decide), hne '*' (by decide)⟩

/-- Reading from the begin of the text one gets through whole pieces to the text `after`. -/
inductive ReadsTo : List Char → List Piece → List Char → Prop where
  | nil {cs : List Char} : ReadsTo cs [] cs
  | cons {c : Char} {rest middle after : List Char} {piece : Piece} {pieces : List Piece}
      (hnext : nextPiece c rest = (piece, middle)) (hwhole : piece.IsWhole middle)
      (hrest : ReadsTo middle pieces after) : ReadsTo (c :: rest) (piece :: pieces) after

section Literals

/-- The least number of characters that can close what is open. -/
def closingLength : List Inside → Nat
  | [] => 0
  | .textBlock :: outer => closingLength outer + 3
  | _ :: outer => closingLength outer + 1

theorem closingLength_pos (innermost : Inside) (outer : List Inside) :
    1 ≤ closingLength (innermost :: outer) := by
  cases innermost
  all_goals
    simp only [closingLength]
    omega

/-- A character of a literal that neither escapes the next one nor closes anything is passed over. -/
theorem literalEnd_cons_of_plain
    {literal : Inside} {c : Char} {rest : List Char} (hcode : literal ≠ .code) (hescape : c ≠ '\\')
    (hblock : ∀ more, literal = .textBlock → c = '"' → rest ≠ '"' :: '"' :: more)
    (hquotes : literal = .quotes → c ≠ '"') (outer : List Inside) (seen : List Char) :
    literalEnd (literal :: outer) seen (c :: rest) =
      literalEnd (literal :: outer) (c :: seen) rest := by
  rw [literalEnd]
  · exact fun _ h _ _ => hcode h
  · exact fun h _ => hcode h
  · exact fun h _ => hcode h
  · exact fun h _ => hcode h
  · exact hcode
  · exact fun _ h _ => hescape h
  · exact fun _ _ h _ => hescape h
  · exact hblock
  · exact hquotes

/-- The characters close what is open, whatever comes after them. -/
structure IsClosedBy (inside : List Inside) (seen taken : List Char) : Prop where
  length_le : closingLength inside ≤ taken.length
  end_eq : ∀ other, literalEnd inside seen (taken ++ other) =
    some (seen.reverse ++ taken, other)

/-- Characters that open or close something stand before those that close the rest. -/
theorem IsClosedBy.prepend
    {inside next : List Inside} {seen new taken : List Char}
    (h : IsClosedBy next (new.reverse ++ seen) taken)
    (hlength : closingLength inside ≤ closingLength next + new.length)
    (hstep : ∀ other, literalEnd inside seen (new ++ (taken ++ other)) =
      literalEnd next (new.reverse ++ seen) (taken ++ other)) :
    IsClosedBy inside seen (new ++ taken) := by
  constructor
  · have hrest := h.length_le
    rw [List.length_append]
    omega
  · intro other
    rw [List.append_assoc, hstep, h.end_eq, List.reverse_append, List.reverse_reverse,
      List.append_assoc]

/-- Whether two quotes come next is settled by two characters. -/
theorem not_quotes_of_append
    {taken after : List Char} (hlength : 2 ≤ taken.length)
    (hno : ∀ rest, taken ++ after = '"' :: '"' :: rest → False) (other rest : List Char) :
    taken ++ other = '"' :: '"' :: rest → False := by
  match taken, hlength with
  | a :: b :: tail, _ =>
      intro hquotes
      simp only [List.cons_append, List.cons.injEq] at hquotes
      obtain ⟨rfl, rfl, -⟩ := hquotes
      exact hno (tail ++ after) rfl

/-- A literal that is closed is so whatever comes after it. -/
theorem exists_isClosedBy
    {inside : List Inside} {seen cs text after : List Char}
    (h : literalEnd inside seen cs = some (text, after)) :
    ∃ taken, cs = taken ++ after ∧ IsClosedBy inside seen taken := by
  fun_induction literalEnd inside seen cs with
  | case1 seen rest =>
      obtain ⟨rfl, rfl⟩ : seen.reverse = text ∧ rest = after := by simpa using h
      exact ⟨[], rfl, Nat.zero_le _, fun other => by simp [literalEnd]⟩
  | case2 outer seen rest ih =>
      obtain ⟨taken, rfl, htaken⟩ := ih h
      refine ⟨['"', '"', '"'] ++ taken, rfl, htaken.prepend ?_ fun other => ?_⟩
      · simp only [closingLength]
        omega
      · simp [literalEnd]
  | case3 outer seen rest hno ih =>
      obtain ⟨taken, rfl, htaken⟩ := ih h
      -- Two more quotes would have opened a text block, and fewer characters close nothing.
      have hlength : 2 ≤ taken.length := by
        have hle := htaken.length_le
        simp only [closingLength] at hle
        omega
      refine ⟨['"'] ++ taken, rfl, htaken.prepend ?_ fun other => ?_⟩
      · simp only [closingLength]
        omega
      · rw [List.singleton_append, literalEnd]
        · rfl
        · exact not_quotes_of_append hlength hno other
  | case4 outer seen rest ih =>
      obtain ⟨taken, rfl, htaken⟩ := ih h
      refine ⟨['{'] ++ taken, rfl, htaken.prepend ?_ fun other => ?_⟩
      · simp only [closingLength]
        omega
      · simp [literalEnd]
  | case5 outer seen rest ih =>
      obtain ⟨taken, rfl, htaken⟩ := ih h
      refine ⟨['}'] ++ taken, rfl, htaken.prepend ?_ fun other => ?_⟩
      · simp only [closingLength, List.length_singleton]
        omega
      · simp [literalEnd]
  | case6 outer seen c rest _ hquote hopen hclose ih =>
      obtain ⟨taken, rfl, htaken⟩ := ih h
      refine ⟨[c] ++ taken, rfl, htaken.prepend (Nat.le_add_right _ _) fun other => ?_⟩
      rw [List.singleton_append, literalEnd]
      · rfl
      · exact fun _ hc _ => hquote hc
      · exact hquote
      · exact hopen
      · exact hclose
  | case7 literal outer seen rest hcode ih =>
      obtain ⟨taken, rfl, htaken⟩ := ih h
      refine ⟨['\\', '{'] ++ taken, rfl, htaken.prepend ?_ fun other => ?_⟩
      · simp only [closingLength]
        omega
      · simp [literalEnd]
  | case8 literal outer seen c rest hcode hopen ih =>
      obtain ⟨taken, rfl, htaken⟩ := ih h
      refine ⟨['\\', c] ++ taken, rfl, htaken.prepend (Nat.le_add_right _ _) fun other => ?_⟩
      simp [literalEnd]
  | case9 outer seen rest ih =>
      obtain ⟨taken, rfl, htaken⟩ := ih h
      refine ⟨['"', '"', '"'] ++ taken, rfl, htaken.prepend (Nat.le_refl _) fun other => ?_⟩
      simp [literalEnd]
  | case10 outer seen rest ih =>
      obtain ⟨taken, rfl, htaken⟩ := ih h
      refine ⟨['"'] ++ taken, rfl, htaken.prepend (Nat.le_refl _) fun other => ?_⟩
      simp [literalEnd]
  | case11 literal outer seen c rest _ _ _ _ hcode _ hescape hblock hquotes ih =>
      obtain ⟨taken, rfl, htaken⟩ := ih h
      have hplain : c ≠ '\\' := by
        rintro rfl
        match taken, Nat.le_trans (closingLength_pos literal outer) htaken.length_le with
        | a :: tail, _ => exact hescape a (tail ++ after) rfl rfl
      have hblock : ∀ other more, literal = .textBlock → c = '"' →
          taken ++ other ≠ '"' :: '"' :: more := by
        intro other more hliteral hc
        have hlength : 2 ≤ taken.length := by
          have hle := htaken.length_le
          rw [hliteral] at hle
          simp only [closingLength] at hle
          omega
        exact not_quotes_of_append hlength (fun rest => hblock rest hliteral hc) other more
      refine ⟨[c] ++ taken, rfl, htaken.prepend (Nat.le_add_right _ _) fun other => ?_⟩
      exact literalEnd_cons_of_plain hcode hplain (hblock other) hquotes outer seen
  | case12 => cases h

/-- A character literal that is closed is so whatever comes after it. -/
theorem characterEnd_spec
    {seen cs text after : List Char} (h : characterEnd seen cs = some (text, after)) :
    ∃ taken, cs = taken ++ after ∧ taken ≠ [] ∧
      ∀ other, characterEnd seen (taken ++ other) = some (seen.reverse ++ taken, other) := by
  fun_induction characterEnd seen cs with
  | case1 => cases h
  | case2 seen c rest ih =>
      obtain ⟨taken, rfl, -, hend⟩ := ih h
      refine ⟨'\\' :: c :: taken, rfl, List.cons_ne_nil _ _, fun other => ?_⟩
      rw [List.cons_append, List.cons_append, characterEnd, hend]
      simp
  | case3 seen rest =>
      obtain ⟨-, rfl⟩ : _ ∧ rest = after := by simpa using h
      exact ⟨['\''], rfl, List.cons_ne_nil _ _, fun other => by simp [characterEnd]⟩
  | case4 => cases h
  | case5 seen c rest hescape hquote hline ih =>
      obtain ⟨taken, rfl, hne, hend⟩ := ih h
      refine ⟨c :: taken, rfl, List.cons_ne_nil _ _, fun other => ?_⟩
      match taken, hne with
      | a :: tail, _ =>
          rw [List.cons_append, characterEnd, if_neg hline, hend]
          · simp
          · exact fun _ _ hc _ => hescape a (tail ++ after) hc rfl
          · exact hquote

/-- A comment that is closed is so whatever comes after it. -/
theorem commentEnd_spec
    {seen cs text after : List Char} (h : commentEnd seen cs = some (text, after)) :
    ∃ taken, cs = taken ++ after ∧ text = seen.reverse ++ taken ∧ taken ≠ [] ∧
      ∀ other, commentEnd seen (taken ++ other) = some (text, other) := by
  fun_induction commentEnd seen cs with
  | case1 => cases h
  | case2 seen rest =>
      obtain ⟨rfl, rfl⟩ : _ = text ∧ rest = after := by simpa using h
      refine ⟨['*', '/'], rfl, by simp, List.cons_ne_nil _ _, fun other => ?_⟩
      simp [commentEnd]
  | case3 seen c rest hno ih =>
      obtain ⟨taken, rfl, rfl, hne, hend⟩ := ih h
      refine ⟨c :: taken, rfl, by simp, List.cons_ne_nil _ _, fun other => ?_⟩
      match taken, hne with
      | a :: tail, _ =>
          rw [List.cons_append, commentEnd, hend]
          intro _ hc hslash
          obtain ⟨rfl, -⟩ := List.cons.inj hslash
          exact hno (tail ++ after) hc rfl

end Literals

section Pieces

theorem afterText?_eq_some_iff {word rest after : List Char} :
    afterText? word rest = some after ↔ rest = word ++ after := by
  fun_induction afterText? word rest with
  | case1 rest => simp
  | case2 word c rest ih =>
      rw [ih]
      simp
  | case3 w word c rest hne => simp [Ne.symm hne]
  | case4 w word => simp

/-- The characters of a class end before the first one that is not in it. -/
theorem takeWhile_dropWhile_append
    {p : Char → Bool} {taken other : List Char} (htaken : ∀ c ∈ taken, p c)
    (hother : ∀ c ∈ other.head?, p c = false) :
    (taken ++ other).takeWhile p = taken ∧ (taken ++ other).dropWhile p = other := by
  rw [List.takeWhile_append_of_pos htaken, List.dropWhile_append_of_pos htaken]
  cases other with
  | nil => simp
  | cons c rest => simp [hother c rfl]

theorem head?_dropWhile (p : Char → Bool) (cs : List Char) :
    ∀ c ∈ (cs.dropWhile p).head?, p c = false := by
  intro c hc
  have h := List.head?_dropWhile_not p cs
  rw [Option.mem_def.1 hc] at h
  simpa using h

theorem signs_not_in_names :
    isNameStart '@' = false ∧ isNamePart '@' = false ∧ isNamePart '-' = false := by
  decide +kernel

/-- A text that begins as a name is not the word that is read with a sign before it. -/
theorem ne_of_isNameStart {c : Char} (hstart : isNameStart c) (name : List Char) :
    String.ofList (c :: name) ≠ "@interface" := by
  intro h
  have hlist : c :: name = "@interface".toList := by rw [← h, String.toList_ofList]
  have hsign : c = '@' := (List.cons.inj hlist).1
  rw [hsign, signs_not_in_names.1] at hstart
  cases hstart

/-- The text goes on with `-sealed`, and the word ends there. -/
theorem afterSealed?_eq_some_iff {rest after : List Char} :
    afterSealed? rest = some after ↔
      rest = "-sealed".toList ++ after ∧ ∀ d ∈ after.head?, isNamePart d = false := by
  rw [afterSealed?, Option.filter_eq_some_iff, afterText?_eq_some_iff, Bool.not_eq_true',
    Option.any_eq_false]
  simp only [Option.mem_def]

/-- The name at the head of the characters, its end being known. -/
theorem namePiece_append
    (c : Char) {name more : List Char} (hname : ∀ d ∈ name, isNamePart d)
    (hmore : ∀ d ∈ more.head?, isNamePart d = false) :
    namePiece c (name ++ more) =
      match if c :: name = "non".toList then afterSealed? more else none with
      | some rest => (.lexeme (.word "non-sealed"), rest)
      | none => (.lexeme (.word (String.ofList (c :: name))), more) := by
  obtain ⟨htake, hdrop⟩ := takeWhile_dropWhile_append hname hmore
  unfold namePiece
  generalize (name ++ more).takeWhile isNamePart = taken at htake
  generalize (name ++ more).dropWhile isNamePart = left at hdrop
  subst htake hdrop
  rfl

theorem namePiece_spec
    {c : Char} {rest after : List Char} {piece : Piece} (hstart : isNameStart c)
    (h : namePiece c rest = (piece, after)) :
    piece.EndsBefore after ∧ ∃ taken, rest = taken ++ after ∧
      ∀ other, piece.EndsBefore other → namePiece c (taken ++ other) = (piece, other) := by
  obtain ⟨name, more, rfl, hname, hmore⟩ : ∃ name more, rest = name ++ more ∧
      (∀ d ∈ name, isNamePart d) ∧ ∀ d ∈ more.head?, isNamePart d = false :=
    ⟨rest.takeWhile isNamePart, rest.dropWhile isNamePart,
      List.takeWhile_append_dropWhile.symm, fun _ => List.mem_takeWhile_imp,
      head?_dropWhile isNamePart rest⟩
  rw [namePiece_append c hname hmore] at h
  split at h
  · -- The word is `non-sealed`.
    rename_i found hfound
    obtain ⟨rfl, rfl⟩ := Prod.mk.inj h
    by_cases hnon : c :: name = "non".toList
    · rw [if_pos hnon, afterSealed?_eq_some_iff] at hfound
      obtain ⟨rfl, hends⟩ := hfound
      have hword : "non-sealed" = "non" → False := by decide
      refine ⟨Or.inr ⟨hends, fun h => absurd h hword⟩, name ++ "-sealed".toList,
        (List.append_assoc _ _ _).symm, ?_⟩
      intro other hother
      have hhead := (hother.resolve_left (by decide)).1
      have hsign : ∀ d ∈ ("-sealed".toList ++ other).head?, isNamePart d = false := by
        intro d hd
        obtain rfl := Option.some.inj hd
        exact signs_not_in_names.2.2
      rw [List.append_assoc, namePiece_append c hname hsign, if_pos hnon,
        afterSealed?_eq_some_iff.2 ⟨rfl, hhead⟩]
    · rw [if_neg hnon] at hfound
      cases hfound
  · rename_i hnone
    obtain ⟨rfl, rfl⟩ := Prod.mk.inj h
    have hnon : String.ofList (c :: name) = "non" ↔ c :: name = "non".toList := by
      rw [← String.toList_inj, String.toList_ofList]
    refine ⟨Or.inr ⟨hmore, ?_⟩, name, rfl, ?_⟩
    · intro hname
      rw [if_pos (hnon.1 hname)] at hnone
      exact hnone
    · intro other hends
      rcases hends with hword | ⟨hhead, hlacks⟩
      · exact absurd hword (ne_of_isNameStart hstart name)
      · rw [namePiece_append c hname hhead]
        by_cases hname : c :: name = "non".toList
        · rw [if_pos hname, hlacks (hnon.2 hname)]
        · rw [if_neg hname]

/-- What is neither a blank nor the begin of a name or number is a mark of its own or begins one. -/
theorem nextPiece_of_mark
    {c : Char} (h : isBlank c = false ∧ isNameStart c = false ∧ c.isDigit = false)
    (rest : List Char) :
    nextPiece c rest =
      match markedPiece? c rest with
      | some result => result
      | none => (if isSymbol c then .lexeme (.symbol c) else stray c, rest) := by
  obtain ⟨hblank, hstart, hdigit⟩ := h
  rw [nextPiece, hblank, hstart, hdigit]
  rfl

/-- A byte-order mark is a stray character, and so is a part of no lexeme. -/
theorem nextPiece_byteOrderMark (rest : List Char) :
    nextPiece '\uFEFF' rest = (stray '\uFEFF', rest) := by
  have hmark : isBlank '\uFEFF' = false ∧ isNameStart '\uFEFF' = false ∧
      '\uFEFF'.isDigit = false := by
    decide +kernel
  rw [nextPiece_of_mark hmark]
  rfl

theorem exists_of_literalPiece
    {inside : Inside} {opening rest after : List Char} {piece : Piece}
    (h : literalPiece inside opening rest = some (piece, after)) :
    ∃ taken, rest = taken ++ after ∧ closingLength [inside] ≤ taken.length ∧
      piece = .lexeme (.quoted (String.ofList (opening ++ taken))) ∧
      ∀ other, literalPiece inside opening (taken ++ other) = some (piece, other) := by
  obtain ⟨⟨text, tail⟩, hend, heq⟩ := Option.map_eq_some_iff.1 h
  obtain ⟨rfl, rfl⟩ := Prod.mk.inj heq
  obtain ⟨taken, rfl, htaken⟩ := exists_isClosedBy hend
  rw [htaken.end_eq] at hend
  obtain ⟨rfl, -⟩ := Prod.mk.inj (Option.some.inj hend)
  refine ⟨taken, rfl, htaken.length_le, by rw [List.reverse_reverse], fun other => ?_⟩
  rw [literalPiece, htaken.end_eq]
  rfl

/-- A line comment goes up to the end of its line. -/
theorem markedPiece?_lineComment
    {body other : List Char} (hbody : ∀ c ∈ body, (c ≠ '\n' : Bool))
    (hother : ∀ c ∈ other.head?, (c ≠ '\n' : Bool) = false) :
    markedPiece? '/' ('/' :: (body ++ other)) =
      some (.remark (String.ofList ('/' :: '/' :: body)), other) := by
  obtain ⟨htake, hdrop⟩ := takeWhile_dropWhile_append hbody hother
  rw [markedPiece?, htake, hdrop]

/-- Only of two quotes with nothing between them it matters what follows. -/
theorem endsBefore_of_ne_quotes {text : List Char} (h : text ≠ ['"', '"']) (rest : List Char) :
    (Piece.lexeme (.quoted (String.ofList text))).EndsBefore rest := by
  intro hquotes
  rw [← String.toList_inj, String.toList_ofList] at hquotes
  exact absurd hquotes h

/-- A quote that opens no text block opens none either when something else follows the literal. -/
theorem not_quotes_of_endsBefore
    {taken after other : List Char} (hlength : 1 ≤ taken.length)
    (hno : ∀ rest, taken ++ after = '"' :: '"' :: rest → False)
    (hends : (Piece.lexeme (.quoted (String.ofList ('"' :: taken)))).EndsBefore other)
    (rest : List Char) : taken ++ other = '"' :: '"' :: rest → False := by
  match taken, hlength with
  | [c], _ =>
      intro hquotes
      obtain ⟨rfl, rfl⟩ := List.cons.inj hquotes
      exact hends rfl rfl
  | c :: d :: more, _ =>
      exact not_quotes_of_append (Nat.le_add_left _ _) hno other rest

/-- A line comment goes up to the end of its line. -/
theorem markedPiece?_lineComment_spec (tail : List Char) :
    (Piece.remark (String.ofList ('/' :: '/' :: tail.takeWhile (· ≠ '\n')))).EndsBefore
        (tail.dropWhile (· ≠ '\n')) ∧
      ∃ taken, '/' :: tail = taken ++ tail.dropWhile (· ≠ '\n') ∧
        ∀ other,
          (Piece.remark (String.ofList ('/' :: '/' :: tail.takeWhile (· ≠ '\n')))).EndsBefore other →
          markedPiece? '/' (taken ++ other) =
            some (.remark (String.ofList ('/' :: '/' :: tail.takeWhile (· ≠ '\n'))), other) := by
  have hline : ∀ d ∈ tail.takeWhile (· ≠ '\n'), (d ≠ '\n' : Bool) :=
    fun d hd => List.mem_takeWhile_imp (p := (· ≠ '\n')) hd
  refine ⟨?_, '/' :: tail.takeWhile (· ≠ '\n'), ?_, ?_⟩
  · intro _ d hd
    simpa using head?_dropWhile (· ≠ '\n') tail d hd
  · rw [List.cons_append, List.takeWhile_append_dropWhile]
  · intro other hends
    have hslashes : ['/', '/'] <+:
        (String.ofList ('/' :: '/' :: tail.takeWhile (· ≠ '\n'))).toList := by
      rw [String.toList_ofList]
      exact ⟨_, rfl⟩
    apply markedPiece?_lineComment hline
    intro d hd
    simp [hends hslashes d hd]

/-- Two quotes are all of a literal only if no third one follows. -/
theorem markedPiece?_quotes_spec
    {rest after : List Char} {piece : Piece} (hno : ∀ tail, rest = '"' :: '"' :: tail → False)
    (h : literalPiece .quotes ['"'] rest = some (piece, after)) :
    piece.EndsBefore after ∧ ∃ taken, rest = taken ++ after ∧
      ∀ other, piece.EndsBefore other → markedPiece? '"' (taken ++ other) = some (piece, other) := by
  obtain ⟨taken, rfl, hlength, rfl, hall⟩ := exists_of_literalPiece h
  refine ⟨?_, taken, rfl, fun other hends => ?_⟩
  · intro hquotes hhead
    have hlist : ['"'] ++ taken = ['"', '"'] := by
      rw [← String.toList_ofList (l := ['"'] ++ taken), hquotes]
      rfl
    obtain rfl : taken = ['"'] := by simpa using hlist
    obtain ⟨tail, rfl⟩ := List.head?_eq_some_iff.1 hhead
    exact hno tail rfl
  · rw [markedPiece?, hall]
    exact not_quotes_of_endsBefore hlength hno hends

theorem markedPiece?_spec
    {c : Char} {rest after : List Char} {piece : Piece}
    (h : markedPiece? c rest = some (piece, after)) :
    piece.EndsBefore after ∧ ∃ taken, rest = taken ++ after ∧
      ∀ other, piece.EndsBefore other → markedPiece? c (taken ++ other) = some (piece, other) := by
  unfold markedPiece? at h
  split at h
  · rename_i tail
    obtain ⟨rfl, rfl⟩ := Prod.mk.inj (Option.some.inj h)
    exact markedPiece?_lineComment_spec tail
  · -- A block comment is closed within itself, and so are the literals below.
    rename_i tail
    obtain ⟨⟨text, final⟩, hend, heq⟩ := Option.map_eq_some_iff.1 h
    obtain ⟨rfl, rfl⟩ := Prod.mk.inj heq
    obtain ⟨taken, rfl, rfl, -, hall⟩ := commentEnd_spec hend
    refine ⟨?_, '*' :: taken, rfl, ?_⟩
    · intro hslashes
      rw [String.toList_ofList] at hslashes
      obtain ⟨_, hfalse⟩ := hslashes
      simp at hfalse
    · intro other _
      rw [List.cons_append, markedPiece?, hall]
      rfl
  · rename_i tail
    obtain ⟨taken, rfl, hlength, rfl, hall⟩ := exists_of_literalPiece h
    have hlong : ['"', '"', '"'] ++ taken ≠ ['"', '"'] := by simp
    exact ⟨endsBefore_of_ne_quotes hlong after, '"' :: '"' :: taken, rfl, fun other _ => hall other⟩
  · rename_i hno
    exact markedPiece?_quotes_spec hno h
  · rename_i tail
    obtain ⟨⟨text, final⟩, hend, heq⟩ := Option.map_eq_some_iff.1 h
    obtain ⟨rfl, rfl⟩ := Prod.mk.inj heq
    obtain ⟨taken, rfl, -, hall⟩ := characterEnd_spec hend
    rw [hall] at hend
    obtain ⟨rfl, -⟩ := Prod.mk.inj (Option.some.inj hend)
    have hquote : ['\''].reverse ++ taken ≠ ['"', '"'] := by simp
    refine ⟨endsBefore_of_ne_quotes hquote _, taken, rfl, fun other _ => ?_⟩
    rw [markedPiece?, hall]
    rfl
  · rename_i tail
    obtain ⟨final, hend, heq⟩ := Option.map_eq_some_iff.1 h
    obtain ⟨rfl, rfl⟩ := Prod.mk.inj heq
    rw [afterText?_eq_some_iff] at hend
    subst hend
    refine ⟨Or.inl rfl, "interface".toList, rfl, ?_⟩
    intro other _
    rw [markedPiece?, afterText?_eq_some_iff.2 rfl]
    rfl
  · cases h

/-- Nothing marked begins with a character that may follow a sign of its own. -/
theorem markedPiece?_eq_none
    {c : Char} {rest : List Char} (h : (Piece.lexeme (.symbol c)).EndsBefore rest)
    (hquote : c ≠ '"' ∧ c ≠ '\'') : markedPiece? c rest = none := by
  obtain ⟨hslash, hat⟩ := h
  unfold markedPiece?
  split
  · exact absurd rfl (hslash rfl '/' rfl).1
  · exact absurd rfl (hslash rfl '*' rfl).2
  · exact absurd rfl hquote.1
  · exact absurd rfl hquote.1
  · exact absurd rfl hquote.2
  · rw [hat rfl]
    rfl
  · rfl

theorem endsBefore_of_markedPiece?_eq_none
    {c : Char} {rest : List Char} (h : markedPiece? c rest = none)
    (hwhole : (Piece.lexeme (.symbol c)).IsWhole rest) :
    (Piece.lexeme (.symbol c)).EndsBefore rest := by
  constructor
  · rintro rfl d hd
    obtain ⟨tail, rfl⟩ := List.head?_eq_some_iff.1 hd
    constructor
    · rintro rfl
      cases h
    · rintro rfl
      exact hwhole rfl
  · rintro rfl
    exact Option.map_eq_none_iff.1 h

/-- A whole piece is read in the same way whatever follows it, as long as it ends before that. -/
theorem nextPiece_spec
    {c : Char} {rest after : List Char} {piece : Piece} (h : nextPiece c rest = (piece, after))
    (hwhole : piece.IsWhole after) :
    piece.EndsBefore after ∧ ∃ taken, rest = taken ++ after ∧
      ∀ other, piece.EndsBefore other → nextPiece c (taken ++ other) = (piece, other) := by
  by_cases hblank : isBlank c
  · rw [nextPiece, if_pos hblank] at h
    obtain ⟨rfl, rfl⟩ := Prod.mk.inj h
    refine ⟨trivial, [], rfl, fun other _ => ?_⟩
    rw [nextPiece, if_pos hblank]
    rfl
  by_cases hstart : isNameStart c
  · rw [nextPiece, if_neg hblank, if_pos hstart] at h
    obtain ⟨hends, taken, hrest, hall⟩ := namePiece_spec hstart h
    refine ⟨hends, taken, hrest, fun other hother => ?_⟩
    rw [nextPiece, if_neg hblank, if_pos hstart]
    exact hall other hother
  by_cases hdigit : c.isDigit
  · rw [nextPiece, if_neg hblank, if_neg hstart, if_pos hdigit] at h
    obtain ⟨rfl, rfl⟩ := Prod.mk.inj h
    refine ⟨head?_dropWhile _ rest, rest.takeWhile fun d => isNamePart d || d == '.',
      List.takeWhile_append_dropWhile.symm, fun other hother => ?_⟩
    obtain ⟨htake, hdrop⟩ := takeWhile_dropWhile_append (fun _ => List.mem_takeWhile_imp) hother
    rw [nextPiece, if_neg hblank, if_neg hstart, if_pos hdigit, htake, hdrop]
  have hmark : isBlank c = false ∧ isNameStart c = false ∧ c.isDigit = false := by
    simp only [hblank, hstart, hdigit, and_self]
  rw [nextPiece_of_mark hmark] at h
  cases hmarked : markedPiece? c rest with
  | some result =>
      rw [hmarked] at h
      obtain rfl : result = (piece, after) := h
      obtain ⟨hends, taken, hrest, hall⟩ := markedPiece?_spec hmarked
      refine ⟨hends, taken, hrest, fun other hother => ?_⟩
      rw [nextPiece_of_mark hmark, hall other hother]
  | none =>
      rw [hmarked] at h
      by_cases hsymbol : isSymbol c
      · obtain ⟨rfl, rfl⟩ : Piece.lexeme (.symbol c) = piece ∧ rest = after := by
          simpa [hsymbol] using h
        refine ⟨endsBefore_of_markedPiece?_eq_none hmarked hwhole, [], rfl, fun other hother => ?_⟩
        have hquote : c ≠ '"' ∧ c ≠ '\'' := by
          constructor
          all_goals
            rintro rfl
            revert hsymbol
            decide
        rw [nextPiece_of_mark hmark, List.nil_append, markedPiece?_eq_none hother hquote, hsymbol]
        rfl
      · -- A stray character is not whole.
        obtain ⟨rfl, rfl⟩ : stray c = piece ∧ rest = after := by
          simpa [hsymbol] using h
        simp [stray, Piece.IsWhole] at hwhole

end Pieces

section Tokens

variable {before : List String} {c : Char} {rest after : List Char}

theorem tokensFrom_nil (before : List String) : tokensFrom before [] = [] := by
  unfold tokensFrom
  rfl

theorem tokensFrom_of_blank (h : nextPiece c rest = (.blank, after)) :
    tokensFrom before (c :: rest) = tokensFrom before after := by
  rw [tokensFrom.eq_def]
  dsimp only
  rw [h]

theorem tokensFrom_of_remark {text : String} (h : nextPiece c rest = (.remark text, after)) :
    tokensFrom before (c :: rest) = tokensFrom (text :: before) after := by
  rw [tokensFrom.eq_def]
  dsimp only
  rw [h]

theorem tokensFrom_of_lexeme {lexeme : Lexeme} (h : nextPiece c rest = (.lexeme lexeme, after)) :
    tokensFrom before (c :: rest) = ⟨before.reverse, lexeme⟩ :: tokensFrom [] after := by
  rw [tokensFrom.eq_def]
  dsimp only
  rw [h]

theorem nextPiece_of_isBlank (h : isBlank c) (rest : List Char) :
    nextPiece c rest = (.blank, rest) := by
  rw [nextPiece, if_pos h]

end Tokens

end ComponentMarkers.Source
