import ComponentMarkers.Json.Reader
import ComponentMarkers.Proofs.Json.Spelling

/-!
# Reading what is spelled

A reader takes a part off the begin of a text whatever gap stands before it and whatever comes after it,
as long as a value may end there.  So texts, names and records are read back from any of their spellings.
Every value is read back by a reader of values; hence no text spells two values.
-/

namespace ComponentMarkers

namespace JsonText

/-! ## Gaps and strings -/

theorem afterGap_append {gap : List Char} (h : IsGap gap) (cs : List Char) :
    afterGap (gap ++ cs) = afterGap cs :=
  List.dropWhile_append_of_pos h

theorem afterGap_cons {c : Char} (h : ¬ isGap c) (cs : List Char) : afterGap (c :: cs) = c :: cs :=
  List.dropWhile_cons_of_neg h

/-- Behind a value there is nothing, a gap, a comma or the end of an array or object. -/
def EndsValue (rest : List Char) : Prop :=
  ∀ c ∈ rest.head?, isGap c ∨ c = ',' ∨ c = ']' ∨ c = '\x7d'

theorem endsValue_append {gap rest : List Char} (hgap : IsGap gap) (hrest : EndsValue rest) :
    EndsValue (gap ++ rest) := by
  rcases gap with _ | ⟨c, more⟩
  · exact hrest
  · intro d hd
    exact Or.inl (hgap d (Option.some.inj hd ▸ List.mem_cons_self))

theorem fourDigits_append {n : Nat} {digits : List Char} (h : SpellsUnit n digits) (rest : List Char) :
    fourDigits (digits ++ rest) = .ok (n, rest) := by
  obtain ⟨ha, hb, hc, hd⟩ := h
  rename_i a b c d x y z w
  have hsize : ¬ (String.ofList [a, b, c, d]).utf8ByteSize < 4 := by
    have hpos := fun e : Char => e.utf8Size_pos
    have ha := hpos a
    have hb := hpos b
    have hc := hpos c
    have hd := hpos d
    simp
    omega
  have htake : ([a, b, c, d] ++ rest).take 4 = [a, b, c, d] := by simp
  unfold fourDigits
  rw [htake, if_neg hsize]
  simp only [List.cons_append, List.nil_append, ha, hb, hc, hd]

/-- No character has the number of a unit. -/
theorem not_isUnit (c : Char) : ¬ isLowUnit c.toNat ∧ ¬ isHighUnit c.toNat := by
  have hvalid : c.toNat < 0xD800 ∨ 0xDFFF < c.toNat ∧ c.toNat < 0x110000 := c.valid
  simp only [isLowUnit, isHighUnit, Bool.and_eq_true, decide_eq_true_eq]
  omega

theorem stringRest_of_escaped {c : Char} {cs after : List Char} (h : escaped cs = .ok (c, after)) :
    stringRest ('\\' :: cs) = (stringRest after).map fun (chars, final) => (c :: chars, final) := by
  rw [stringRest, if_neg (by decide), if_pos rfl]
  split
  · rename_i fault hfault
    rw [h] at hfault
    cases hfault
  · rename_i char rest hok
    rw [h] at hok
    obtain ⟨rfl, rfl⟩ := Prod.mk.inj (Except.ok.inj hok)
    rfl

/-- A spelling of a character is read as that character, whatever comes after it. -/
theorem stringRest_append_char {c : Char} {first : List Char} (h : SpellsChar c first) (rest : List Char) :
    stringRest (first ++ rest) =
      (stringRest rest).map fun (chars, final) => (c :: chars, final) := by
  rcases h with ⟨hquote, hbackslash, hcontrol⟩ | hletter | hunit | ⟨hhigh, hlow, hfirst, hsecond, hc⟩
  · rw [List.singleton_append, stringRest, if_neg hquote, if_neg hbackslash,
      if_neg (Nat.not_lt.2 hcontrol)]
  · rename_i letter
    have hne : letter ≠ 'u' := by
      rintro rfl
      simp [shortEscape?] at hletter
    rw [List.cons_append, List.singleton_append]
    apply stringRest_of_escaped
    simp [escaped, hletter]
  · obtain ⟨hlow, hhigh⟩ := not_isUnit c
    rw [List.cons_append, List.cons_append]
    apply stringRest_of_escaped
    rw [escaped, unitChar, fourDigits_append hunit]
    simp only [hlow, hhigh, Bool.false_eq_true, if_false, Char.ofNat_toNat]
  · rename_i high low first second
    have hnotLow : ¬ isLowUnit high := by
      simp only [isLowUnit, isHighUnit, Bool.and_eq_true, decide_eq_true_eq] at hhigh ⊢
      omega
    rw [List.cons_append, List.cons_append, List.append_assoc, List.cons_append, List.cons_append]
    apply stringRest_of_escaped
    rw [escaped, unitChar, fourDigits_append hfirst]
    simp only [hnotLow, hhigh, Bool.false_eq_true, if_true, if_false, pairedUnit,
      fourDigits_append hsecond, hlow, ← hc, Char.ofNat_toNat]

theorem stringRest_append {chars inner : List Char} (h : SpellsChars chars inner) (rest : List Char) :
    stringRest (inner ++ '"' :: rest) = .ok (chars, rest) := by
  induction chars generalizing inner with
  | nil =>
      obtain rfl : inner = [] := h
      rw [List.nil_append, stringRest, if_pos rfl]
  | cons c chars ih =>
      obtain ⟨first, more, hfirst, hmore, rfl⟩ := h
      rw [List.append_assoc, stringRest_append_char hfirst, ih hmore]
      rfl

end JsonText

namespace JsonReader

open JsonText

/-! ## Texts and names -/

/-- Every part of a form is read as one result, whatever gap stands before it and whatever comes after
it. -/
def Reads {α : Type} (reader : JsonReader α) (form : List Char → Prop) (a : α) : Prop :=
  ∀ gap cs rest, IsGap gap → form cs → EndsValue rest → reader (gap ++ (cs ++ rest)) = .ok (a, rest)

section

variable {α β : Type} {reader : JsonReader α} {form : List Char → Prop} {a : α}

theorem Reads.map (h : Reads reader form a) (f : α → β) :
    Reads (fun cs => (reader cs).map fun (a, rest) => (f a, rest)) form (f a) := by
  intro gap cs rest hgap hcs hrest
  dsimp only
  rw [h gap cs rest hgap hcs hrest, Except.map]

/-- A text that is nothing but a part of the form is read. -/
theorem Reads.whole (h : Reads reader form a) {text : String} (htext : form text.toList) :
    whole reader text = .ok a := by
  have hread := h [] text.toList [] (by simp [IsGap]) htext (by simp [EndsValue])
  rw [List.nil_append, List.append_nil] at hread
  rw [JsonReader.whole, hread]
  rfl

/-- A quoted text ends with its quote, whatever comes after it. -/
theorem text_append {gap quoted : List Char} {s : String} (hgap : IsGap gap)
    (hquoted : SpellsText s quoted) (rest : List Char) :
    text (gap ++ (quoted ++ rest)) = .ok (s, rest) := by
  obtain ⟨inner, hinner, rfl⟩ := hquoted
  rw [text, afterGap_append hgap, List.cons_append, afterGap_cons (by decide), List.append_assoc,
    List.singleton_append]
  dsimp only
  rw [if_pos rfl, stringRest_append hinner, Except.map, String.ofList_toList]

theorem reads_text (s : String) : Reads text (JsonValue.string s).Spells s :=
  fun _ _ rest hgap hcs _ => text_append hgap hcs rest

theorem reads_named {ofName? : String → Option α} {name : String} (h : ofName? name = some a) :
    Reads (named ofName?) (JsonValue.string name).Spells a := by
  intro gap cs rest hgap hcs hrest
  rw [named, reads_text name gap cs rest hgap hcs hrest]
  dsimp only
  rw [h]

theorem reads_oneOf {ofName? : String → Option α} {name : String} (h : ofName? name = some a) :
    Reads (oneOf ofName?) (JsonValue.string name).Spells a := by
  intro gap cs rest hgap hcs hrest
  have hread := reads_named h [] cs rest (by simp [IsGap]) hcs hrest
  obtain ⟨inner, -, rfl⟩ := hcs
  rw [oneOf, afterGap_append hgap, List.cons_append, afterGap_cons (by decide)]
  dsimp only
  rw [if_neg (by decide), if_pos rfl]
  exact hread

end

/-! ## Records -/

theorem afterMark_append {gap : List Char} (h : IsGap gap) {mark : Char} (hmark : ¬ isGap mark)
    (rest : List Char) : afterMark mark (gap ++ mark :: rest) = .ok rest := by
  rw [afterMark, afterGap_append h, afterGap_cons hmark]
  exact if_pos rfl

theorem nextField_end {gap : List Char} (h : IsGap gap) (isFirst : Bool) (rest : List Char) :
    nextField isFirst (gap ++ '\x7d' :: rest) = .ok (none, rest) := by
  rw [nextField, afterGap_append h, afterGap_cons (by decide)]
  exact if_pos rfl

theorem nextField_first
    {gap quoted : List Char} {name : String} (hgap : IsGap gap) (hquoted : SpellsText name quoted)
    (rest : List Char) : nextField true (gap ++ (quoted ++ rest)) = .ok (some name, rest) := by
  obtain ⟨inner, hinner, rfl⟩ := hquoted
  rw [nextField, afterGap_append hgap, List.cons_append, afterGap_cons (by decide),
    List.append_assoc, List.singleton_append]
  dsimp only
  rw [if_neg (by decide), if_pos rfl, if_pos rfl, stringRest_append hinner, Except.map,
    String.ofList_toList]

theorem nextField_next
    {before gap quoted : List Char} {name : String} (hbefore : IsGap before) (hgap : IsGap gap)
    (hquoted : SpellsText name quoted) (rest : List Char) :
    nextField false (before ++ ',' :: (gap ++ (quoted ++ rest))) = .ok (some name, rest) := by
  obtain ⟨inner, hinner, rfl⟩ := hquoted
  rw [nextField, afterGap_append hbefore, afterGap_cons (by decide)]
  dsimp only
  rw [if_neg (by decide), if_neg Bool.false_ne_true, if_pos rfl, afterGap_append hgap,
    List.cons_append, afterGap_cons (by decide), List.append_assoc, List.singleton_append]
  dsimp only
  rw [if_pos rfl, stringRest_append hinner, Except.map, String.ofList_toList]

section Records

variable {α β : Type} {fields : FieldPair α β} {v w : JsonValue} {a : α} {b : β}

/-- The value of a field is read after its colon. -/
theorem Reads.after_colon {reader : JsonReader α} {form : List Char → Prop} (h : Reads reader form a)
    {before gap part rest : List Char} (hbefore : IsGap before) (hgap : IsGap gap)
    (hpart : form part) (hrest : EndsValue rest) :
    (afterMark ':' (before ++ ':' :: (gap ++ (part ++ rest)))).bind reader = .ok (a, rest) := by
  rw [afterMark_append hbefore (by decide)]
  exact h gap part rest hgap hpart hrest

section Fields

variable {bound : Nat} {isFirst : Bool} {cs rest after : List Char}

theorem fieldsFrom_firstName {b? : Option β}
    (hnext : nextField isFirst cs = .ok (some fields.firstName, rest))
    (hvalue : (afterMark ':' rest).bind fields.first = .ok (a, after)) :
    fieldsFrom fields (bound + 1) isFirst none b? cs =
      fieldsFrom fields bound false (some a) b? after := by
  rw [fieldsFrom, hnext]
  dsimp only
  rw [if_pos rfl, Option.isSome_none, if_neg Bool.false_ne_true, hvalue]

theorem fieldsFrom_secondName {a? : Option α} (hne : fields.firstName ≠ fields.secondName)
    (hnext : nextField isFirst cs = .ok (some fields.secondName, rest))
    (hvalue : (afterMark ':' rest).bind fields.second = .ok (b, after)) :
    fieldsFrom fields (bound + 1) isFirst a? none cs =
      fieldsFrom fields bound false a? (some b) after := by
  rw [fieldsFrom, hnext]
  dsimp only
  rw [if_neg hne.symm, if_pos rfl, Option.isSome_none, if_neg Bool.false_ne_true, hvalue]

theorem fieldsFrom_end (hnext : nextField isFirst cs = .ok (none, rest)) :
    fieldsFrom fields (bound + 1) isFirst (some a) (some b) cs = .ok ((a, b), rest) := by
  rw [fieldsFrom, hnext]

end Fields

/-- A record is read from an object that has its two fields in order. -/
theorem reads_record
    (fields : FieldPair α β) (hne : fields.firstName ≠ fields.secondName) (hfirst : Reads fields.first v.Spells a)
    (hsecond : Reads fields.second w.Spells b) :
    Reads (record fields)
      (JsonValue.object [(fields.firstName, v), (fields.secondName, w)]).Spells (a, b) := by
  intro gap cs rest hgap hcs _
  obtain ⟨inner, hinner, rfl⟩ := (JsonValue.spells_object _ _).1 hcs
  obtain ⟨before, part, after, more, hbefore, hpart, hafter, hmore, rfl⟩ := hinner
  obtain ⟨otherBefore, otherPart, otherAfter, hotherBefore, hotherPart, hotherAfter, rfl⟩ := hmore
  obtain ⟨quoted, colonGap, valueGap, value, hquoted, hcolonGap, hvalueGap, hvalue, rfl⟩ := hpart
  obtain ⟨otherQuoted, otherColonGap, otherValueGap, otherValue, hotherQuoted, hotherColonGap,
    hotherValueGap, hotherValue, rfl⟩ := hotherPart
  simp only [List.cons_append, List.append_assoc, List.nil_append]
  rw [record, afterGap_append hgap, afterGap_cons (by decide)]
  dsimp only
  rw [if_neg (by decide), if_pos rfl]
  -- Every step of the reader takes a character at least, and there are three of them.
  generalize hbound : List.length _ = bound
  obtain ⟨n, rfl⟩ : ∃ n, bound = n + 2 := ⟨bound - 2, by simp at hbound; omega⟩
  have hcomma : EndsValue (after ++ ',' :: (otherBefore ++ (otherQuoted ++ (otherColonGap ++
      ':' :: (otherValueGap ++ (otherValue ++ (otherAfter ++ '\x7d' :: rest))))))) :=
    endsValue_append hafter (by simp [EndsValue])
  have hclosing : EndsValue (otherAfter ++ '\x7d' :: rest) :=
    endsValue_append hotherAfter (by simp [EndsValue])
  rw [fieldsFrom_firstName (nextField_first hbefore hquoted _)
      (hfirst.after_colon hcolonGap hvalueGap hvalue hcomma),
    fieldsFrom_secondName hne (nextField_next hafter hotherBefore hotherQuoted _)
      (hsecond.after_colon hotherColonGap hotherValueGap hotherValue hclosing),
    fieldsFrom_end (nextField_end hotherAfter false rest)]

end Records

/-! ## Values -/

/-- Reads items with commas between them up to a closing bracket.  Every item takes at least one
character, so `bound` may be the length of the text and one more. -/
def itemsFrom {α : Type} (closing : Char) (item : JsonReader α) :
    (bound : Nat) → (isFirst : Bool) → JsonReader (List α)
  | 0, _, _ => .error .ended
  | bound + 1, isFirst, cs =>
    match afterGap cs with
    | [] => .error .ended
    | c :: rest =>
      if isFirst && c = closing then
        .ok ([], rest)
      else
        match item (c :: rest) with
        | .error fault => .error fault
        | .ok (first, after) =>
          match afterGap after with
          | [] => .error .ended
          | d :: more =>
            if d = closing then
              .ok ([first], more)
            else if d = ',' then
              (itemsFrom closing item bound false more).map fun (others, final) =>
                (first :: others, final)
            else
              .error .malformed

/-- Reads a name and the value after it. -/
def field {α : Type} (value : JsonReader α) : JsonReader (String × α) := fun cs =>
  match text cs with
  | .error fault => .error fault
  | .ok (name, rest) =>
    ((afterMark ':' rest).bind value).map fun (value, final) => ((name, value), final)

/-- Reads a count of any size. -/
def anyCount : JsonReader Nat := fun cs =>
  let digits := cs.takeWhile Char.isDigit
  if digits.head? = some '0' ∧ digits ≠ ['0'] then .error .malformed
  else .ok (digitsValue digits, cs.dropWhile Char.isDigit)

/-- Reads a value that is nested less than `bound` levels deep. -/
def valueFrom : (bound : Nat) → JsonReader JsonValue
  | 0, _ => .error .ended
  | bound + 1, cs =>
    match afterGap cs with
    | [] => .error .ended
    | c :: rest =>
      if c = 'n' then (wordRest "ull".toList rest).map fun final => (.null, final)
      else if c = 't' then (wordRest "rue".toList rest).map fun final => (.bool true, final)
      else if c = 'f' then (wordRest "alse".toList rest).map fun final => (.bool false, final)
      else if c = '"' then (text (c :: rest)).map fun (s, final) => (.string s, final)
      else if c = '[' then
        (itemsFrom ']' (valueFrom bound) bound true rest).map fun (entries, final) =>
          (.array entries, final)
      else if c = '\x7b' then
        (itemsFrom '\x7d' (field (valueFrom bound)) bound true rest).map fun (fields, final) =>
          (.object fields, final)
      else if c.isDigit then (anyCount (c :: rest)).map fun (n, final) => (.number n, final)
      else .error .malformed

/-- Reads a value. -/
def value : JsonReader JsonValue := fun cs =>
  valueFrom (cs.length + 1) cs

/-- A part of the form begins with a character that neither belongs to a gap nor ends an array or
object. -/
def Begins (form : List Char → Prop) : Prop :=
  ∀ cs, form cs → ∃ c tail, cs = c :: tail ∧ ¬ isGap c ∧ c ≠ ']' ∧ c ≠ '\x7d'

section Items

variable {α : Type} {item : JsonReader α} {form : α → List Char → Prop} {closing : Char}
  {limit : Nat}

/-- One item, with what stands behind it. -/
theorem itemsFrom_item
    (hclosing : closing = ']' ∨ closing = '\x7d') {shape : List Char → Prop} {a : α}
    (hbegins : Begins shape) (hitem : Reads item shape a) {before part after : List Char}
    (hbefore : IsGap before) (hpart : shape part) (hafter : IsGap after) {d : Char} (hd : d = closing ∨ d = ',')
    (more : List Char) (bound : Nat) (isFirst : Bool) :
    itemsFrom closing item (bound + 1) isFirst (before ++ (part ++ (after ++ d :: more))) =
      if d = closing then .ok ([a], more)
      else (itemsFrom closing item bound false more).map fun (others, final) =>
        (a :: others, final) := by
  have hends : ¬ isGap d ∧ EndsValue (d :: more) := by
    rcases hd with rfl | rfl
    · rcases hclosing with rfl | rfl <;> simp [EndsValue, isGap]
    · simp [EndsValue, isGap]
  obtain ⟨c, tail, hcons, hgap, hbracket, hbrace⟩ := hbegins part hpart
  have hread := hitem [] part (after ++ d :: more) (by simp [IsGap]) hpart
    (endsValue_append hafter hends.2)
  have hne : ¬ c = closing := by
    rcases hclosing with rfl | rfl
    · exact hbracket
    · exact hbrace
  rw [List.nil_append, hcons, List.cons_append] at hread
  rw [itemsFrom, afterGap_append hbefore, hcons, List.cons_append, afterGap_cons hgap]
  dsimp only
  rw [if_neg (by simp [hne]), hread]
  dsimp only
  rw [afterGap_append hafter, afterGap_cons hends.1]
  dsimp only
  by_cases hlast : d = closing
  · rw [if_pos hlast, if_pos hlast]
  · rw [if_neg hlast, if_neg hlast, if_pos (hd.resolve_left hlast)]

/-- Listed items that are not too long are read one after the other. -/
theorem itemsFrom_append
    (hclosing : closing = ']' ∨ closing = '\x7d') (hbegins : ∀ a, Begins (form a))
    (hitem : ∀ a, Reads item (fun cs => form a cs ∧ cs.length < limit) a)
    {items : List α} {inner : List Char} (hinner : Listed (items.map form) inner)
    (hlimit : inner.length < limit) {bound : Nat} (hbound : inner.length < bound) {isFirst : Bool}
    (hfirst : items = [] → isFirst) (rest : List Char) :
    itemsFrom closing item bound isFirst (inner ++ closing :: rest) = .ok (items, rest) := by
  have hbegins' : ∀ a, Begins fun cs => form a cs ∧ cs.length < limit :=
    fun a cs hcs => hbegins a cs hcs.1
  have hcomma : ¬ ',' = closing := by rcases hclosing with rfl | rfl <;> decide
  induction items generalizing inner bound isFirst with
  | nil =>
      obtain ⟨n, rfl⟩ := Nat.exists_eq_add_of_lt hbound
      have hclosingGap : ¬ isGap closing := by rcases hclosing with rfl | rfl <;> decide
      rw [itemsFrom, afterGap_append hinner, afterGap_cons hclosingGap]
      simp [hfirst rfl]
  | cons a others ih =>
      obtain ⟨n, rfl⟩ := Nat.exists_eq_add_of_lt hbound
      rcases others with _ | ⟨next, others⟩
      · obtain ⟨before, part, after, hbefore, hpart, hafter, rfl⟩ := hinner
        simp only [List.length_append] at hlimit
        rw [List.append_assoc, List.append_assoc, itemsFrom_item hclosing (hbegins' a) (hitem a)
          hbefore ⟨hpart, by omega⟩ hafter (Or.inl rfl), if_pos rfl]
      · obtain ⟨before, part, after, more, hbefore, hpart, hafter, hmore, rfl⟩ := hinner
        simp only [List.length_append, List.length_cons] at hlimit hbound ⊢
        rw [List.append_assoc, List.append_assoc, List.append_assoc, List.cons_append,
          itemsFrom_item hclosing (hbegins' a) (hitem a) hbefore ⟨hpart, by omega⟩ hafter
            (Or.inr rfl), if_neg hcomma, ih hmore (by omega) (by omega) (by simp)]
        rfl

end Items

/-! ## Every value -/

theorem begins_spellsText (s : String) : Begins (SpellsText s) := by
  rintro cs ⟨inner, -, rfl⟩
  exact ⟨'"', _, rfl, by decide, by decide, by decide⟩

theorem begins_spellsField (field : String × JsonValue) : Begins (JsonValue.SpellsField field) := by
  rintro cs ⟨quoted, before, after, part, hquoted, -, -, -, rfl⟩
  obtain ⟨c, tail, rfl, hc⟩ := begins_spellsText field.1 quoted hquoted
  exact ⟨c, _, rfl, hc⟩

/-- A digit is none of the characters by which other things are told. -/
theorem not_of_isDigit {c : Char} (h : c.isDigit) :
    ¬ isGap c ∧ c ∉ [',', ']', '\x7d', 'n', 't', 'f', '"', '[', '\x7b'] := by
  simp only [isGap, Bool.or_eq_true, decide_eq_true_eq, List.mem_cons, List.not_mem_nil, or_false]
  constructor
  · rintro (((rfl | rfl) | rfl) | rfl) <;> exact absurd h (by decide)
  · rintro (rfl | rfl | rfl | rfl | rfl | rfl | rfl | rfl | rfl) <;> exact absurd h (by decide)

theorem begins_spells (value : JsonValue) : Begins value.Spells := by
  intro cs hcs
  cases value with
  | null =>
      obtain rfl : cs = _ := hcs
      exact ⟨'n', _, rfl, by decide, by decide, by decide⟩
  | bool b =>
      cases b with
      | true =>
          obtain rfl : cs = _ := hcs
          exact ⟨'t', _, rfl, by decide, by decide, by decide⟩
      | false =>
          obtain rfl : cs = _ := hcs
          exact ⟨'f', _, rfl, by decide, by decide, by decide⟩
  | number n =>
      obtain ⟨c, tail, rfl⟩ := List.exists_cons_of_ne_nil hcs.ne_nil
      obtain ⟨hgap, hnot⟩ := not_of_isDigit (hcs.isDigit c List.mem_cons_self)
      simp only [List.mem_cons, List.not_mem_nil, or_false, not_or] at hnot
      exact ⟨c, tail, rfl, hgap, hnot.2.1, hnot.2.2.1⟩
  | string s => exact begins_spellsText s cs hcs
  | array entries =>
      obtain ⟨inner, -, rfl⟩ := hcs
      exact ⟨'[', _, rfl, by decide, by decide, by decide⟩
  | object fields =>
      obtain ⟨inner, -, rfl⟩ := hcs
      exact ⟨'\x7b', _, rfl, by decide, by decide, by decide⟩

theorem anyCount_append {n : Nat} {digits rest : List Char} (h : SpellsNumber n digits)
    (hrest : EndsValue rest) : anyCount (digits ++ rest) = .ok (n, rest) := by
  have hstop : rest.takeWhile Char.isDigit = [] ∧ rest.dropWhile Char.isDigit = rest := by
    rcases rest with _ | ⟨c, more⟩
    · simp
    · have hc : ¬ c.isDigit := by
        intro hdigit
        obtain ⟨hgap, hnot⟩ := not_of_isDigit hdigit
        rcases hrest c rfl with hmem | rfl | rfl | rfl
        · exact hgap hmem
        all_goals exact hnot (by decide)
      simp [hc]
  rw [anyCount, List.takeWhile_append_of_pos h.isDigit, List.dropWhile_append_of_pos h.isDigit,
    hstop.1, hstop.2, List.append_nil, if_neg (fun hzero => hzero.2 (h.eq_of_zero hzero.1)), h.value_eq]

theorem Reads.field {item : JsonReader JsonValue} {limit : Nat} {field : String × JsonValue}
    (h : Reads item (fun cs => field.2.Spells cs ∧ cs.length < limit) field.2) :
    Reads (JsonReader.field item) (fun cs => JsonValue.SpellsField field cs ∧ cs.length < limit)
      field := by
  rintro gap cs rest hgap ⟨⟨quoted, before, after, part, hquoted, hbefore, hafter, hpart, rfl⟩,
    hlength⟩ hrest
  simp only [List.append_assoc, List.cons_append]
  simp only [List.length_append, List.length_cons] at hlength
  rw [JsonReader.field, text_append hgap hquoted]
  dsimp only
  rw [h.after_colon hbefore hafter ⟨hpart, by omega⟩ hrest]
  rfl

/-- A value that is not too long is read. -/
theorem reads_valueFrom (bound : Nat) (value : JsonValue) :
    Reads (valueFrom bound) (fun cs => value.Spells cs ∧ cs.length < bound) value := by
  induction bound generalizing value with
  | zero =>
      rintro gap cs rest - ⟨-, hlength⟩
      exact absurd hlength (Nat.not_lt_zero _)
  | succ bound ih =>
      rintro gap cs rest hgap ⟨hcs, hlength⟩ hrest
      rw [valueFrom, afterGap_append hgap]
      cases value with
      | null =>
          obtain rfl : cs = _ := hcs
          rfl
      | bool b =>
          cases b with
          | true =>
              obtain rfl : cs = _ := hcs
              rfl
          | false =>
              obtain rfl : cs = _ := hcs
              rfl
      | number n =>
          have hread := anyCount_append hcs hrest
          obtain ⟨c, tail, rfl⟩ := List.exists_cons_of_ne_nil hcs.ne_nil
          have hdigit := hcs.isDigit c List.mem_cons_self
          obtain ⟨hgap, hnot⟩ := not_of_isDigit hdigit
          simp only [List.mem_cons, List.not_mem_nil, or_false, not_or] at hnot
          obtain ⟨-, -, -, hn, ht, hf, hquote, hbracket, hbrace⟩ := hnot
          rw [List.cons_append] at hread ⊢
          rw [afterGap_cons hgap]
          dsimp only
          rw [if_neg hn, if_neg ht, if_neg hf, if_neg hquote, if_neg hbracket, if_neg hbrace,
            if_pos hdigit, hread]
          rfl
      | string s =>
          have hread := reads_text s [] cs rest (by simp [IsGap]) hcs hrest
          obtain ⟨inner, -, rfl⟩ := hcs
          rw [List.nil_append, List.cons_append] at hread
          rw [List.cons_append, afterGap_cons (by decide)]
          dsimp only
          rw [if_neg (by decide), if_neg (by decide), if_neg (by decide), if_pos rfl, hread]
          rfl
      | array entries =>
          obtain ⟨inner, hinner, rfl⟩ := (JsonValue.spells_array _ _).1 hcs
          simp only [List.length_cons, List.length_append, List.length_nil] at hlength
          have hitems := itemsFrom_append (Or.inl rfl) begins_spells ih hinner (by omega)
            (show inner.length < bound by omega) (fun _ => rfl) rest
          rw [List.cons_append, afterGap_cons (by decide), List.append_assoc, List.singleton_append]
          dsimp only
          rw [if_neg (by decide), if_neg (by decide), if_neg (by decide), if_neg (by decide),
            if_pos rfl, hitems]
          rfl
      | object fields =>
          obtain ⟨inner, hinner, rfl⟩ := (JsonValue.spells_object _ _).1 hcs
          simp only [List.length_cons, List.length_append, List.length_nil] at hlength
          have hitems := itemsFrom_append (Or.inr rfl) begins_spellsField
            (fun field => (ih field.2).field) hinner (by omega)
            (show inner.length < bound by omega) (fun _ => rfl) rest
          rw [List.cons_append, afterGap_cons (by decide), List.append_assoc, List.singleton_append]
          dsimp only
          rw [if_neg (by decide), if_neg (by decide), if_neg (by decide), if_neg (by decide),
            if_neg (by decide), if_pos rfl, hitems]
          rfl

/-- Every value is read from any of its spellings. -/
theorem reads_value (v : JsonValue) : Reads value v.Spells v := by
  intro gap cs rest hgap hcs hrest
  refine reads_valueFrom _ v gap cs rest hgap ⟨hcs, ?_⟩ hrest
  simp only [List.length_append]
  omega

end JsonReader

/-- No text spells two values. -/
theorem JsonValue.Spells.unique
    {v w : JsonValue} {cs : List Char} (hv : v.Spells cs) (hw : w.Spells cs) : v = w := by
  have hcs : (String.ofList cs).toList = cs := String.toList_ofList
  rw [← hcs] at hv hw
  exact Except.ok.inj ((JsonReader.reads_value v).whole hv |>.symm.trans
    ((JsonReader.reads_value w).whole hw))

end ComponentMarkers
