import ComponentMarkers.Proofs.Source.ClassTypes
import ComponentMarkers.Proofs.Text.Dotted

/-!
# Class types in `extends` clauses

The reader passes over the annotations before the first name of a class type and over the type arguments
after the last one, and takes everything in between as it is written.  Type arguments go when angle
brackets are counted in that text; annotations stay in it.  So the name comes out clean if and only if no
name after the first is annotated, as long as the angle brackets in the arguments of annotations are
paired.
-/

namespace ComponentMarkers.Source

open Text Source.Tree

/-- A class type: its names from the outermost to the innermost one. -/
structure ClassType where
  first : TypeSegment
  more : List TypeSegment

/-- What is written after a name up to the last of some further names. -/
def namedTail : (arguments : List TypeArgument) → (more : List TypeSegment) → List Tree
  | _, [] => []
  | arguments, next :: rest =>
    angled (argumentRow [] arguments) ++ ofSymbol '.' :: useTrees next.annotations ++
      next.name.tree :: namedTail next.arguments rest

namespace ClassType

/-- The trees of the type. -/
def trees (type : ClassType) : List Tree :=
  type.first.trees ++ segmentRow type.more

/-- The names of the type with dots between them. -/
def name (type : ClassType) : String :=
  ".".intercalate ((type.first :: type.more).map fun segment => segment.name.text)

/-- What is written from the first name of the type to the last one. -/
def namedTrees (type : ClassType) : List Tree :=
  type.first.name.tree :: namedTail type.first.arguments type.more

end ClassType

section Uses

variable {tree : Tree}

theorem annotation?_use
    (hdot : tree.isSymbol '.' = false) (hround : tree.isGroup .round = false) (use : AnnotationUse)
    (rest : List Tree) :
    annotation? (use.trees ++ tree :: rest) = some (use.node, tree :: rest) := by
  obtain ⟨first, more, arguments⟩ := use
  have hat : (ofSymbol '@').isSymbol '@' = true := rfl
  have hword : first.tree.word? = some first.text := rfl
  have hwritten : first.tree.written = first.text := String.empty_append
  let after := (arguments.map (enclosed .round)).toList ++ tree :: rest
  have hsegment : startsSegment after = false ∧ afterArguments after = tree :: rest := by
    cases arguments with
    | none =>
        have hafter : after = tree :: rest := rfl
        rw [hafter, afterArguments, hround, if_neg Bool.false_ne_true]
        refine ⟨?_, rfl⟩
        cases rest with
        | nil => rfl
        | cons next others =>
            rw [startsSegment, hdot]
            rfl
    | some inner => exact ⟨rfl, rfl⟩
  have hmore := moreSegments_flatMap NameWord.text more hsegment.1
  have htrees : AnnotationUse.trees ⟨first, more, arguments⟩ ++ tree :: rest =
      ofSymbol '@' :: first.tree ::
        ((more.flatMap fun word => [ofSymbol '.', ofWord word.text]) ++ after) := by
    rw [AnnotationUse.trees, List.append_assoc]
    rfl
  rw [htrees, annotation?, if_pos hat, dottedName?, hword]
  dsimp only
  rw [hmore, Option.map_some]
  dsimp only
  rw [hsegment.2, ← hwritten]
  rfl

/-- Annotations are passed over. -/
theorem annotations_useTrees
    (hat : tree.isSymbol '@' = false) (hdot : tree.isSymbol '.' = false)
    (hround : tree.isGroup .round = false) (uses : List AnnotationUse) (rest : List Tree) :
    (annotations (useTrees uses ++ tree :: rest)).2 = tree :: rest := by
  induction uses with
  | nil => rw [useTrees, List.flatMap_nil, List.nil_append, annotations_of_not_at hat]
  | cons use others ih =>
      have hname : annotation? (use.trees ++ (useTrees others ++ tree :: rest)) =
          some (use.node, useTrees others ++ tree :: rest) := by
        cases others with
        | nil => exact annotation?_use hdot hround use rest
        | cons next others => exact annotation?_use rfl rfl use _
      have htrees : useTrees (use :: others) ++ tree :: rest =
          use.trees ++ (useTrees others ++ tree :: rest) := by
        rw [useTrees, List.flatMap_cons, List.append_assoc]
        rfl
      rw [htrees, annotations_eq, hname]
      exact ih

end Uses

section Angles

/-- Between angle brackets the trees are read to their end. -/
def PassesAngles (trees : List Tree) : Prop :=
  ∀ level rest, angleGroup? (level + 1) (trees ++ rest) =
    (angleGroup? (level + 1) rest).map fun (inner, after) => (trees ++ inner, after)

theorem passesAngles_singleton
    {tree : Tree} (hopening : tree.isSymbol '<' = false) (hclosing : tree.isSymbol '>' = false)
    (hend : (tree.isSymbol ';' || tree.isGroup .curly) = false) : PassesAngles [tree] := by
  intro level rest
  rw [List.singleton_append, angleGroup?, hopening, hclosing, hend]
  rfl

theorem isCompositional_passesAngles : IsCompositional PassesAngles where
  nil := by
    intro level rest
    rw [List.nil_append]
    cases angleGroup? (level + 1) rest <;> rfl
  append := by
    intro trees others htrees hothers level rest
    rw [List.append_assoc, htrees, hothers, Option.map_map]
    congr 1
    funext ⟨inner, after⟩
    exact congrArg (·, after) (List.append_assoc trees others inner).symm
  word := fun _ => passesAngles_singleton rfl rfl rfl
  sign := by
    intro sign hsign
    have hsigns : ∀ sign ∈ ['.', ',', '?', '&', '@'], sign ≠ '<' ∧ sign ≠ '>' ∧ sign ≠ ';' := by
      simp
    obtain ⟨hopening, hclosing, hend⟩ := hsigns sign hsign
    apply passesAngles_singleton
    · exact beq_eq_false_iff_ne.2 hopening
    · exact beq_eq_false_iff_ne.2 hclosing
    · rw [Bool.or_eq_false_iff]
      exact ⟨beq_eq_false_iff_ne.2 hend, rfl⟩
  square := passesAngles_singleton rfl rfl rfl
  angles := by
    intro trees htrees level rest
    have hopening : (ofSymbol '<').isSymbol '<' = true := rfl
    have hnot : (ofSymbol '>').isSymbol '<' = false := rfl
    have hclosing : (ofSymbol '>').isSymbol '>' = true := rfl
    rw [List.append_assoc, List.cons_append, angleGroup?, if_pos hopening, htrees,
      List.singleton_append, angleGroup?, hnot, if_neg Bool.false_ne_true, if_pos hclosing,
      if_neg (by omega), Option.map_map, Option.map_map, Nat.add_sub_cancel]
    congr 1
    funext ⟨inner, after⟩
    simp only [Function.comp_apply, List.cons_append, List.append_assoc, List.nil_append]

theorem AnnotationUse.passesAngles (use : AnnotationUse) : PassesAngles use.trees :=
  isCompositional_passesAngles.use (fun _ => passesAngles_singleton rfl rfl rfl) use

/-- Type arguments are passed over. -/
theorem afterTypeArguments_angled
    {trees : List Tree} (htrees : PassesAngles trees) {tree : Tree} (h : tree.isSymbol '<' = false)
    (rest : List Tree) : afterTypeArguments (angled trees ++ tree :: rest) = tree :: rest := by
  rw [angled]
  by_cases hempty : trees.isEmpty
  · rw [if_pos hempty]
    exact afterTypeArguments_of_not_angle h rest
  · have hopening : (ofSymbol '<').isSymbol '<' = true := rfl
    have hclosed : angleGroup? 1 (ofSymbol '>' :: tree :: rest) = some ([ofSymbol '>'], tree :: rest) :=
      rfl
    rw [if_neg hempty, List.append_assoc, List.cons_append, List.singleton_append, afterTypeArguments,
      typeArguments?, if_pos hopening, angleGroup?, if_pos hopening, htrees 0, hclosed]
    rfl

end Angles

section Names

/-- A class type ends before the tree. -/
structure EndsClassType (tree : Tree) : Prop where
  not_angle : tree.isSymbol '<' = false
  not_dot : tree.isSymbol '.' = false
  not_at : tree.isSymbol '@' = false
  not_square : tree.isGroup .square = false

variable {tree : Tree}

/-- A further name is read with the annotations before it. -/
theorem nextTypeName?_segment (annotations : List AnnotationUse) (name : NameWord) (rest : List Tree) :
    nextTypeName? (ofSymbol '.' :: (useTrees annotations ++ name.tree :: rest)) =
      some (ofSymbol '.' :: (useTrees annotations ++ [name.tree]), rest) := by
  have hdot : (ofSymbol '.').isSymbol '.' = true := rfl
  have hword : name.tree.word?.isSome = true := rfl
  have htake : (useTrees annotations ++ name.tree :: rest).take
      ((useTrees annotations ++ name.tree :: rest).length - rest.length) =
        useTrees annotations ++ [name.tree] := by
    rw [List.append_cons, List.length_append, Nat.add_sub_cancel, List.take_left]
  rw [nextTypeName?, if_pos hdot, annotations_useTrees rfl rfl rfl]
  dsimp only
  rw [if_pos hword, htake]

/-- What follows the first name is taken up to the last name, and the type arguments after it are passed
over. -/
theorem classTypeTail_segmentRow
    (h : EndsClassType tree) (arguments : List TypeArgument) (more : List TypeSegment)
    (rest : List Tree) :
    classTypeTail (angled (argumentRow [] arguments) ++ (segmentRow more ++ tree :: rest)) =
      (namedTail arguments more, tree :: rest) := by
  have hpasses : ∀ arguments, PassesAngles (argumentRow [] arguments) := fun arguments =>
    isCompositional_passesAngles.arguments isCompositional_passesAngles.nil arguments
      fun use _ => use.passesAngles
  induction more generalizing arguments with
  | nil =>
      have hnone : nextTypeName? (tree :: rest) = none := by
        rw [nextTypeName?, h.not_dot]
        rfl
      rw [segmentRow, List.nil_append, classTypeTail_eq,
        afterTypeArguments_angled (hpasses arguments) h.not_angle, hnone]
      rfl
  | cons next others ih =>
      obtain ⟨annotations, name, nextArguments⟩ := next
      let after := angled (argumentRow [] nextArguments) ++ (segmentRow others ++ tree :: rest)
      have hrow : segmentRow (⟨annotations, name, nextArguments⟩ :: others) ++ tree :: rest =
          ofSymbol '.' :: (useTrees annotations ++ name.tree :: after) := by
        simp only [segmentRow, TypeSegment.trees, after, List.append_assoc, List.cons_append]
      rw [hrow, classTypeTail_eq, afterTypeArguments_angled (hpasses arguments) rfl,
        nextTypeName?_segment]
      dsimp only
      rw [ih, List.length_append, Nat.add_sub_cancel, List.take_left, namedTail]
      simp only [TypeSegment.annotations, TypeSegment.name, TypeSegment.arguments, List.append_assoc,
        List.cons_append, List.nil_append]

end Names

/-- The characters of the trees as written, without blanks. -/
def blankFree (trees : List Tree) : List Char :=
  (withoutBlanks (writtenAll trees)).toList

/-- The name that is read for a class type. -/
def ClassType.readName (type : ClassType) : String :=
  String.ofList (withoutAngles 0 (blankFree type.namedTrees))

/-- The type is read whole, and its name is what is written from its first name to the last one. -/
theorem typeReference?_classType
    {tree : Tree} (h : EndsClassType tree) (type : ClassType) (rest : List Tree) :
    typeReference? (type.trees ++ tree :: rest) =
      some (.named (writtenAll type.namedTrees), tree :: rest) := by
  obtain ⟨⟨annotations, name, arguments⟩, more⟩ := type
  have hword : name.tree.word? = some name.text := rfl
  have hnot : ¬ primitiveTypes.contains name.text = true :=
    fun hmem => name.not_primitive (List.contains_iff_mem.1 hmem)
  have htrees : ClassType.trees ⟨⟨annotations, name, arguments⟩, more⟩ ++ tree :: rest =
      useTrees annotations ++ name.tree ::
        (angled (argumentRow [] arguments) ++ (segmentRow more ++ tree :: rest)) := by
    simp only [ClassType.trees, TypeSegment.trees, List.append_assoc, List.cons_append]
  have hwritten : writtenAll (name.tree :: namedTail arguments more) =
      name.text ++ writtenAll (namedTail arguments more) := by
    rw [writtenAll, show name.tree.written = name.text from String.empty_append]
  rw [htrees, typeReference?, annotations_useTrees rfl rfl rfl]
  dsimp only
  rw [hword]
  dsimp only
  rw [if_neg hnot, classTypeTail_segmentRow h]
  dsimp only
  rw [afterDimensions_of_not h.not_at h.not_square, if_neg (Nat.lt_irrefl _), ← hwritten]
  rfl

section Written

theorem writtenAll_append (trees others : List Tree) :
    writtenAll (trees ++ others) = writtenAll trees ++ writtenAll others := by
  induction trees with
  | nil => exact String.empty_append.symm
  | cons tree rest ih => rw [List.cons_append, writtenAll, writtenAll, ih, String.append_assoc]

theorem blankFree_append (trees others : List Tree) :
    blankFree (trees ++ others) = blankFree trees ++ blankFree others := by
  simp only [blankFree, withoutBlanks, writtenAll_append, String.toList_append, List.filter_append,
    String.toList_ofList]

theorem blankFree_cons (tree : Tree) (rest : List Tree) :
    blankFree (tree :: rest) = blankFree [tree] ++ blankFree rest :=
  blankFree_append [tree] rest

theorem blankFree_ofWord {text : String} (h : isName text) : blankFree [ofWord text] = text.toList := by
  have hwritten : writtenAll [ofWord text] = text := by
    rw [writtenAll, writtenAll, String.append_empty]
    exact String.empty_append
  rw [blankFree, hwritten, withoutBlanks_eq_self]
  exact fun c hc => isBlank_of_isNamePart (isNamePart_of_isName h c hc)

theorem blankFree_angles (trees : List Tree) (rest : List Char) :
    blankFree (ofSymbol '<' :: trees ++ [ofSymbol '>']) ++ rest = '<' :: (blankFree trees ++ '>' :: rest) := by
  have hangles : blankFree [ofSymbol '<'] = ['<'] ∧ blankFree [ofSymbol '>'] = ['>'] := by decide
  rw [List.cons_append, blankFree_cons, blankFree_append, hangles.1, hangles.2, List.append_assoc,
    List.append_assoc, List.singleton_append, List.singleton_append]

/-- Each angle bracket in the text is closed by a later one, `level` of them being open before it. -/
def closesAngles : (level : Nat) → List Char → Bool
  | level, [] => level == 0
  | level, '<' :: rest => closesAngles (level + 1) rest
  | 0, '>' :: _ => false
  | level + 1, '>' :: rest => closesAngles level rest
  | level, _ :: rest => closesAngles level rest

theorem closesAngles_of_ne_angle {cs : List Char} (h : ∀ c ∈ cs, c ≠ '<' ∧ c ≠ '>') :
    closesAngles 0 cs := by
  induction cs with
  | nil => rfl
  | cons c rest ih =>
      obtain ⟨⟨hopening, hclosing⟩, hrest⟩ := List.forall_mem_cons.1 h
      rw [closesAngles]
      · exact ih hrest
      · exact hopening
      · exact fun _ => hclosing
      · exact fun _ _ => hclosing

/-- A text that closes its angle brackets has no effect inside others. -/
theorem withoutAngles_append_of_closesAngles
    {level : Nat} {cs : List Char} (h : closesAngles level cs) (outer : Nat) (rest : List Char) :
    withoutAngles (outer + 1 + level) (cs ++ rest) = withoutAngles (outer + 1) rest := by
  fun_induction closesAngles level cs with
  | case1 level =>
      rw [eq_of_beq h]
      rfl
  | case2 level cs ih => exact ih h
  | case3 cs => cases h
  | case4 level cs ih => exact ih h
  | case5 level c cs hopening hclosing hnext ih =>
      rw [List.cons_append, withoutAngles, if_neg (by omega)]
      · exact ih h
      · exact hopening
      · exact fun hc => by cases level with
          | zero => exact hclosing rfl hc
          | succ level => exact hnext level rfl hc

/-- Between angle brackets nothing is left of the trees, and as many are open after them as before. -/
def VanishesInAngles (trees : List Tree) : Prop :=
  ∀ level rest, withoutAngles (level + 1) (blankFree trees ++ rest) = withoutAngles (level + 1) rest

theorem vanishesInAngles_of_closesAngles
    {trees : List Tree} (h : closesAngles 0 (blankFree trees)) : VanishesInAngles trees :=
  withoutAngles_append_of_closesAngles h

theorem isCompositional_vanishesInAngles : IsCompositional VanishesInAngles where
  nil := fun _ _ => rfl
  append := by
    intro trees others htrees hothers level rest
    rw [blankFree_append, List.append_assoc, htrees, hothers]
  word := by
    intro text h
    apply vanishesInAngles_of_closesAngles
    rw [blankFree_ofWord h]
    exact closesAngles_of_ne_angle fun c hc => ne_angle_of_isNamePart (isNamePart_of_isName h c hc)
  sign := by
    have hsigns : ['.', ',', '?', '&', '@'].all fun sign => closesAngles 0 (blankFree [ofSymbol sign]) := by
      decide
    intro sign hsign
    exact vanishesInAngles_of_closesAngles (List.all_eq_true.1 hsigns sign hsign)
  square := vanishesInAngles_of_closesAngles (by decide)
  angles := by
    intro trees htrees level rest
    rw [blankFree_angles, withoutAngles, htrees, withoutAngles, Nat.add_sub_cancel]

/-- Nothing is left of type arguments. -/
theorem withoutAngles_angled
    {trees : List Tree} (h : VanishesInAngles trees) (rest : List Char) :
    withoutAngles 0 (blankFree (angled trees) ++ rest) = withoutAngles 0 rest := by
  rw [angled]
  split
  · rfl
  · rw [blankFree_angles, withoutAngles, Nat.zero_add, h 0, withoutAngles]

end Written

section Clean

/-- Annotations begin with a sign that no name begins with. -/
theorem withoutAngles_uses_ne
    (use : AnnotationUse) (others : List AnnotationUse) (rest : List Char) {name : String}
    (h : isName name) (more : List Char) :
    withoutAngles 0 (blankFree (useTrees (use :: others)) ++ rest) ≠ name.toList ++ more := by
  have hat : isNameStart '@' = false := by decide +kernel
  have htrees : useTrees (use :: others) = ofSymbol '@' :: (useTrees (use :: others)).tail := rfl
  have hsign : blankFree [ofSymbol '@'] = ['@'] := by decide
  rw [htrees, blankFree_cons, hsign, List.append_assoc, withoutAngles_append (by simp)]
  intro hsame
  unfold isName at h
  split at h
  · cases h
  · rename_i c cs hname
    rw [hname] at hsame
    obtain rfl := (List.cons.inj hsame).1
    rw [hat] at h
    cases h

theorem withoutAngles_name (name : NameWord) (rest : List Char) :
    withoutAngles 0 (blankFree [name.tree] ++ rest) = name.text.toList ++ withoutAngles 0 rest := by
  rw [NameWord.tree, blankFree_ofWord name.isName]
  apply withoutAngles_append
  exact fun c hc => ne_angle_of_isNamePart (isNamePart_of_isName name.isName c hc)

/-- Of what is written after a name up to the next one, the dot stays and the annotations. -/
theorem withoutAngles_namedTail_cons
    (first next : TypeSegment) (others : List TypeSegment)
    (h : VanishesInAngles (argumentRow [] first.arguments)) :
    withoutAngles 0 (blankFree (first.name.tree :: namedTail first.arguments (next :: others))) =
      first.name.text.toList ++ '.' :: withoutAngles 0 (blankFree (useTrees next.annotations) ++
        blankFree (next.name.tree :: namedTail next.arguments others)) := by
  have hdot : blankFree [ofSymbol '.'] = ['.'] := by decide
  rw [namedTail, blankFree_cons, withoutAngles_name, List.append_assoc, blankFree_append,
    withoutAngles_angled h, List.cons_append, blankFree_cons, hdot, withoutAngles_append (by simp),
    blankFree_append]
  rfl

/-- The names with dots between them are what is left if no name after the first is annotated, and only
then. -/
theorem withoutAngles_namedTail_eq_iff
    (first : TypeSegment) (more : List TypeSegment)
    (h : ∀ segment ∈ (first :: more).dropLast, ∀ use ∈ argumentUses segment.arguments,
      closesAngles 0 (blankFree use.trees)) :
    withoutAngles 0 (blankFree (first.name.tree :: namedTail first.arguments more)) =
        (".".intercalate ((first :: more).map fun segment => segment.name.text)).toList ↔
      ∀ segment ∈ more, segment.annotations = [] := by
  induction more generalizing first with
  | nil =>
      have hname := withoutAngles_name first.name []
      rw [List.append_nil, withoutAngles, List.append_nil] at hname
      rw [namedTail, hname, List.map_singleton, String.intercalate_singleton]
      simp
  | cons next others ih =>
      rw [List.dropLast_cons_of_ne_nil (List.cons_ne_nil _ _), List.forall_mem_cons] at h
      have harguments : VanishesInAngles (argumentRow [] first.arguments) :=
        isCompositional_vanishesInAngles.arguments isCompositional_vanishesInAngles.nil _
          fun use huse => vanishesInAngles_of_closesAngles (h.1 use huse)
      rw [withoutAngles_namedTail_cons first next others harguments, List.map_cons, List.map_cons,
        toList_intercalate_dot, List.append_cancel_left_eq, List.cons_eq_cons, eq_self, true_and,
        List.forall_mem_cons]
      cases next.annotations with
      | nil =>
          have hrest := ih next h.2
          have hnone : blankFree (useTrees []) = [] := rfl
          rw [hnone, List.nil_append]
          exact ⟨fun hsame => ⟨rfl, hrest.1 hsame⟩, fun hall => hrest.2 hall.2⟩
      | cons use uses =>
          obtain ⟨rest, hrest⟩ := exists_toList_intercalate_dot next.name.text
            (others.map fun segment => segment.name.text)
          constructor
          · intro hsame
            rw [hrest] at hsame
            exact absurd hsame (withoutAngles_uses_ne use uses _ next.name.isName rest)
          · rintro ⟨hnone, -⟩
            cases hnone

/-- Inside the type arguments before the last name, annotations close the angle brackets they open. -/
def ClassType.ClosesAngles (type : ClassType) : Prop :=
  ∀ segment ∈ (type.first :: type.more).dropLast, ∀ use ∈ argumentUses segment.arguments,
    closesAngles 0 (blankFree use.trees)

/-- The name that is read is the name of the type if no name after the first is annotated, and only
then. -/
theorem ClassType.readName_eq_name_iff (type : ClassType) (h : type.ClosesAngles) :
    type.readName = type.name ↔ ∀ segment ∈ type.more, segment.annotations = [] := by
  rw [← withoutAngles_namedTail_eq_iff type.first type.more h, ← String.toList_inj, readName,
    String.toList_ofList]
  rfl

end Clean

end ComponentMarkers.Source
