import ComponentMarkers.Json.Text
import Mathlib.Data.List.Forall2
import Mathlib.Data.List.Induction
import Mathlib.Tactic.SplitIfs

/-!
# What JSON texts spell

A JSON text spells a value: a word, a count in decimal digits, a text between quotes in which characters
may be written out after a backslash, an array or an object.  Gaps may stand around the entries of arrays
and around the names and values of fields.  The texts that are given out, compact or over several lines,
are spellings of their values.
-/

namespace ComponentMarkers

open JsonText

/-! ## The grammar -/

namespace JsonText

/-- Nothing but characters that may stand between the parts of a text. -/
def IsGap (cs : List Char) : Prop :=
  ∀ c ∈ cs, isGap c

/-- Four hexadecimal digits that write a number. -/
inductive SpellsUnit : Nat → List Char → Prop where
  | digits {a b c d : Char} {x y z w : Nat} (ha : hexValue? a = some x) (hb : hexValue? b = some y)
      (hc : hexValue? c = some z) (hd : hexValue? d = some w) :
      SpellsUnit (((x * 16 + y) * 16 + z) * 16 + w) [a, b, c, d]

/-- A character between quotes: as it is, after a backslash by a letter or by its number, or by the two
units that stand for it. -/
inductive SpellsChar (c : Char) : List Char → Prop where
  | plain (hquote : c ≠ '"') (hbackslash : c ≠ '\\') (hcontrol : 32 ≤ c.toNat) : SpellsChar c [c]
  | short {letter : Char} (h : shortEscape? letter = some c) : SpellsChar c ['\\', letter]
  | unit {digits : List Char} (h : SpellsUnit c.toNat digits) : SpellsChar c ('\\' :: 'u' :: digits)
  | pair {high low : Nat} {first second : List Char} (hhigh : isHighUnit high)
      (hlow : isLowUnit low) (hfirst : SpellsUnit high first) (hsecond : SpellsUnit low second)
      (hc : c.toNat = 0x10000 + (high - 0xD800) * 0x400 + (low - 0xDC00)) :
      SpellsChar c ('\\' :: 'u' :: (first ++ '\\' :: 'u' :: second))

/-- Characters between quotes, one after the other. -/
def SpellsChars : List Char → List Char → Prop
  | [], cs => cs = []
  | c :: chars, cs => ∃ first rest, SpellsChar c first ∧ SpellsChars chars rest ∧ cs = first ++ rest

/-- A text with its quotes. -/
def SpellsText (s : String) (cs : List Char) : Prop :=
  ∃ inner, SpellsChars s.toList inner ∧ cs = '"' :: (inner ++ ['"'])

/-- Decimal digits that write a number; only zero itself begins with a zero. -/
structure SpellsNumber (n : Nat) (digits : List Char) : Prop where
  ne_nil : digits ≠ []
  isDigit : ∀ c ∈ digits, c.isDigit
  eq_of_zero : digits.head? = some '0' → digits = ['0']
  value_eq : digitsValue digits = n

/-- Parts of some forms, with commas between them and gaps around each. -/
def Listed : List (List Char → Prop) → List Char → Prop
  | [], cs => IsGap cs
  | [form], cs => ∃ before part after, IsGap before ∧ form part ∧ IsGap after ∧
    cs = before ++ (part ++ after)
  | form :: next :: forms, cs => ∃ before part after more, IsGap before ∧ form part ∧ IsGap after ∧
    Listed (next :: forms) more ∧ cs = before ++ (part ++ (after ++ ',' :: more))

/-- A name, a colon and a part of some form, with gaps on both sides of the colon. -/
def SpellsNamed (name : String) (form : List Char → Prop) (cs : List Char) : Prop :=
  ∃ quoted before after part, SpellsText name quoted ∧ IsGap before ∧ IsGap after ∧ form part ∧
    cs = quoted ++ (before ++ ':' :: (after ++ part))

end JsonText

namespace JsonValue

mutual

/-- A text spells a value. -/
def Spells : JsonValue → List Char → Prop
  | null, cs => cs = "null".toList
  | bool true, cs => cs = "true".toList
  | bool false, cs => cs = "false".toList
  | number n, cs => SpellsNumber n cs
  | string s, cs => SpellsText s cs
  | array entries, cs => ∃ inner, Listed (entryForms entries) inner ∧ cs = '[' :: (inner ++ [']'])
  | object fields, cs =>
    ∃ inner, Listed (fieldForms fields) inner ∧ cs = '\x7b' :: (inner ++ ['\x7d'])

/-- The forms of the entries of an array. -/
def entryForms : List JsonValue → List (List Char → Prop)
  | [] => []
  | entry :: entries => entry.Spells :: entryForms entries

/-- The forms of the fields of an object. -/
def fieldForms : List (String × JsonValue) → List (List Char → Prop)
  | [] => []
  | (name, value) :: fields => SpellsNamed name value.Spells :: fieldForms fields

end

/-- A text spells a field: its name and its value. -/
def SpellsField (field : String × JsonValue) : List Char → Prop :=
  SpellsNamed field.1 field.2.Spells

theorem entryForms_eq_map (entries : List JsonValue) : entryForms entries = entries.map Spells := by
  induction entries with
  | nil => rw [entryForms, List.map_nil]
  | cons entry entries ih => rw [entryForms, ih, List.map_cons]

theorem fieldForms_eq_map (fields : List (String × JsonValue)) :
    fieldForms fields = fields.map SpellsField := by
  induction fields with
  | nil => rw [fieldForms, List.map_nil]
  | cons field fields ih =>
      rw [fieldForms, ih, List.map_cons, SpellsField]

theorem spells_array (entries : List JsonValue) (cs : List Char) :
    (array entries).Spells cs ↔
      ∃ inner, Listed (entries.map Spells) inner ∧ cs = '[' :: (inner ++ [']']) := by
  rw [Spells, entryForms_eq_map]

theorem spells_object (fields : List (String × JsonValue)) (cs : List Char) :
    (object fields).Spells cs ↔
      ∃ inner, Listed (fields.map SpellsField) inner ∧ cs = '\x7b' :: (inner ++ ['\x7d']) := by
  rw [Spells, fieldForms_eq_map]

/-- What holds of an array or object if it holds of all that is in it, holds of every value. -/
theorem induction {P : JsonValue → Prop} (null : P null) (bool : ∀ b, P (bool b))
    (number : ∀ n, P (number n)) (string : ∀ s, P (string s))
    (array : ∀ entries, (∀ entry ∈ entries, P entry) → P (array entries))
    (object : ∀ fields, (∀ field ∈ fields, P field.2) → P (object fields)) (value : JsonValue) :
    P value :=
  @JsonValue.rec P (fun entries => ∀ entry ∈ entries, P entry)
    (fun fields => ∀ field ∈ fields, P field.2) (fun field => P field.2) null bool number string
    array object (by simp) (fun _ _ hentry hentries => List.forall_mem_cons.2 ⟨hentry, hentries⟩)
    (by simp) (fun _ _ hfield hfields => List.forall_mem_cons.2 ⟨hfield, hfields⟩)
    (fun _ _ hvalue => hvalue) value

/-! ## What is given out -/

theorem hexValue?_hexDigit {n : Nat} (h : n < 16) : hexValue? (hexDigit n) = some n := by
  have hall : ∀ k : Fin 16, hexValue? (hexDigit k) = some k.val := by decide
  exact hall ⟨n, h⟩

/-- A character is given out in one of its spellings. -/
theorem spellsChar_escapeChar (c : Char) : SpellsChar c (escapeChar c) := by
  rw [escapeChar]
  split_ifs with hquote hbackslash hback hform hline hreturn htab hcontrol
  · exact .short (by simp [shortEscape?, hquote])
  · exact .short (by simp [shortEscape?, hbackslash])
  · exact .short (by simp [shortEscape?, hback])
  · exact .short (by simp [shortEscape?, hform])
  · exact .short (by simp [shortEscape?, hline])
  · exact .short (by simp [shortEscape?, hreturn])
  · exact .short (by simp [shortEscape?, htab])
  · refine .unit ?_
    have hzero : hexValue? '0' = some 0 := by decide
    have hdigits := SpellsUnit.digits hzero hzero
      (hexValue?_hexDigit (n := c.toNat / 16) (by omega))
      (hexValue?_hexDigit (n := c.toNat % 16) (by omega))
    have hvalue : ((0 * 16 + 0) * 16 + c.toNat / 16) * 16 + c.toNat % 16 = c.toNat := by omega
    rwa [hvalue] at hdigits
  · exact .plain hquote hbackslash (Nat.not_lt.1 hcontrol)

theorem spellsText_quote (s : String) : SpellsText s (quote s).toList := by
  refine ⟨s.toList.flatMap escapeChar, ?_, by simp [quote]⟩
  induction s.toList with
  | nil => rfl
  | cons c chars ih =>
      exact ⟨escapeChar c, chars.flatMap escapeChar, spellsChar_escapeChar c, ih,
        List.flatMap_cons⟩

/-- The decimal digits of a number write it. -/
theorem spellsNumber_toDigits (n : Nat) : SpellsNumber n (Nat.toDigits 10 n) := by
  induction n using Nat.strongRecOn with
  | ind n ih =>
      by_cases hn : n < 10
      · rw [Nat.toDigits_of_lt_base hn]
        refine ⟨by simp, by simp [Nat.isDigit_digitChar, hn], by simp, ?_⟩
        simp [digitsValue, Nat.toNat_digitChar_sub_48_of_lt_ten hn]
      · have hten : 10 ≤ n := Nat.not_lt.1 hn
        obtain ⟨hne, hdigits, hzero, hvalue⟩ := ih (n / 10) (by omega)
        rw [Nat.toDigits_of_base_le (by decide) hten]
        refine ⟨by simp, ?_, ?_, ?_⟩
        · intro c hc
          rcases List.mem_append.1 hc with hmem | hmem
          · exact hdigits c hmem
          · rw [List.mem_singleton.1 hmem, Nat.isDigit_digitChar]
            exact decide_eq_true (Nat.mod_lt _ (by decide))
        · intro hhead
          rw [List.head?_append_of_ne_nil _ hne] at hhead
          rw [hzero hhead] at hvalue
          simp [digitsValue] at hvalue
          omega
        · rw [digitsValue] at hvalue ⊢
          rw [List.foldl_concat, hvalue,
            Nat.toNat_digitChar_sub_48_of_lt_ten (Nat.mod_lt _ (by decide))]
          omega

theorem isGap_append {cs more : List Char} (h : IsGap cs) (hmore : IsGap more) : IsGap (cs ++ more) :=
  List.forall_mem_append.2 ⟨h, hmore⟩

/-- Parts that are joined by commas and gaps are listed. -/
theorem listed_intercalate
    {α : Type} {form : α → List Char → Prop} {text : α → String} (separator : String)
    {before gap after : List Char} (hbefore : IsGap before) (hgap : IsGap gap) (hafter : IsGap after)
    (hseparator : separator.toList = ',' :: gap) {items : List α}
    (hitems : ∀ item ∈ items, form item (text item).toList) :
    Listed (items.map form)
      (before ++ ((separator.intercalate (items.map text)).toList ++ after)) := by
  induction items generalizing before with
  | nil =>
      rw [List.map_nil, List.map_nil, String.intercalate_nil, String.toList_empty]
      exact isGap_append hbefore (isGap_append (by simp [IsGap]) hafter)
  | cons item rest ih =>
      obtain ⟨hitem, hrest⟩ := List.forall_mem_cons.1 hitems
      rcases rest with _ | ⟨next, others⟩
      · rw [List.map_singleton, List.map_singleton, String.intercalate_singleton]
        exact ⟨before, (text item).toList, after, hbefore, hitem, hafter, rfl⟩
      · refine ⟨before, (text item).toList, [], _, hbefore, hitem, by simp [IsGap],
          ih hgap hrest, ?_⟩
        rw [List.map_cons, List.map_cons, String.intercalate_cons_cons, String.toList_append,
          String.toList_append, hseparator]
        simp

theorem compactEntries_eq_map (entries : List JsonValue) :
    compactEntries entries = entries.map compact := by
  induction entries with
  | nil => rw [compactEntries, List.map_nil]
  | cons entry entries ih => rw [compactEntries, ih, List.map_cons]

theorem compactFields_eq_map (fields : List (String × JsonValue)) :
    compactFields fields =
      fields.map fun field => quote field.1 ++ ":" ++ field.2.compact := by
  induction fields with
  | nil => rw [compactFields, List.map_nil]
  | cons field fields ih => rw [compactFields, ih, List.map_cons]

theorem prettyEntries_eq_map (level : Nat) (entries : List JsonValue) :
    prettyEntries level entries = entries.map (prettyAt level) := by
  induction entries with
  | nil => rw [prettyEntries, List.map_nil]
  | cons entry entries ih => rw [prettyEntries, ih, List.map_cons]

theorem prettyFields_eq_map (level : Nat) (fields : List (String × JsonValue)) :
    prettyFields level fields =
      fields.map fun field => quote field.1 ++ ": " ++ field.2.prettyAt level := by
  induction fields with
  | nil => rw [prettyFields, List.map_nil]
  | cons field fields ih => rw [prettyFields, ih, List.map_cons]

/-- A quoted name, a colon with a gap behind it and a text of the value make up a field. -/
theorem spellsField_append
    {field : String × JsonValue} {text : String} (colon : String) {gap : List Char}
    (hgap : IsGap gap) (hcolon : colon.toList = ':' :: gap) (htext : field.2.Spells text.toList) :
    SpellsField field (quote field.1 ++ colon ++ text).toList :=
  ⟨(quote field.1).toList, [], gap, text.toList, spellsText_quote field.1, by simp [IsGap], hgap,
    htext, by simp [hcolon]⟩

/-- The text without blanks spells the value. -/
theorem spells_compact (value : JsonValue) : value.Spells value.compact.toList := by
  have hnil : IsGap [] := by simp [IsGap]
  induction value using JsonValue.induction with
  | null => rfl
  | bool b => cases b <;> rfl
  | number n =>
      have hdigits := spellsNumber_toDigits n
      simpa [Spells, compact, Nat.repr] using hdigits
  | string s => exact spellsText_quote s
  | array entries ih =>
      rw [spells_array]
      refine ⟨_, listed_intercalate "," hnil hnil hnil (by decide) ih, ?_⟩
      rw [compact, compactEntries_eq_map]
      simp
  | object fields ih =>
      rw [spells_object]
      refine ⟨_, listed_intercalate "," hnil hnil hnil (by decide) (fun field hfield =>
        spellsField_append ":" hnil (by decide) (ih field hfield)), ?_⟩
      rw [compact, compactFields_eq_map]
      simp

theorem isGap_newLine (level : Nat) : IsGap (newLine level).toList := by
  intro c hc
  rw [newLine, String.toList_ofList, List.mem_cons, List.mem_replicate] at hc
  rcases hc with rfl | ⟨-, rfl⟩
  · decide
  · decide

/-- Lines between brackets are listed. -/
theorem exists_listed_block
    {α : Type} {form : α → List Char → Prop} {text : α → String} {items : List α}
    (hitems : ∀ item ∈ items, form item (text item).toList) (level : Nat) (opening closing : String) :
    ∃ inner, Listed (items.map form) inner ∧
      (block level opening closing (items.map text)).toList =
        opening.toList ++ (inner ++ closing.toList) := by
  rw [block]
  by_cases hempty : (items.map text).isEmpty
  · obtain rfl : items = [] := by simpa using hempty
    exact ⟨[], by simp [Listed, IsGap], by simp⟩
  · rw [if_neg hempty]
    refine ⟨_, listed_intercalate ("," ++ newLine (level + 1)) (isGap_newLine (level + 1))
      (isGap_newLine (level + 1)) (isGap_newLine level) ?_ hitems, ?_⟩
    · rw [String.toList_append]
      rfl
    · simp

theorem spells_prettyAt (value : JsonValue) (level : Nat) :
    value.Spells (value.prettyAt level).toList := by
  induction value using JsonValue.induction generalizing level with
  | null => rfl
  | bool b => cases b <;> rfl
  | number n =>
      have hdigits := spellsNumber_toDigits n
      simpa [Spells, prettyAt, Nat.repr] using hdigits
  | string s => exact spellsText_quote s
  | array entries ih =>
      rw [spells_array, prettyAt, prettyEntries_eq_map]
      exact exists_listed_block (fun entry hentry => ih entry hentry (level + 1)) level "[" "]"
  | object fields ih =>
      rw [spells_object, prettyAt, prettyFields_eq_map]
      have hgap : IsGap [' '] := by simp [IsGap, isGap]
      exact exists_listed_block (fun field hfield =>
        spellsField_append ": " hgap (by decide) (ih field hfield (level + 1))) level "\x7b" "\x7d"

/-- The text over several lines spells the value. -/
theorem spells_pretty (value : JsonValue) : value.Spells value.pretty.toList :=
  value.spells_prettyAt 0

end JsonValue

end ComponentMarkers
