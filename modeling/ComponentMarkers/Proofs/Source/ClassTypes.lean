import ComponentMarkers.Proofs.Source.Reading

/-!
# Class types as they are written

A class type is one or more names with dots between them.  Every name may have annotations before it and
type arguments after it, and these hold further types, so the three kinds of types are defined together.
They are written down as trees, without comments.

What holds of a row of trees as soon as it holds of its parts is shown once for all types, in
`IsCompositional`.
-/

namespace ComponentMarkers.Source

open Text Source.Tree

/-- A word that a package, a type or a part of its name may be called by. -/
structure NameWord where
  text : String
  isName : isName text = true
  not_primitive : text ∉ primitiveTypes

/-- The tree of the word. -/
def NameWord.tree (name : NameWord) : Tree :=
  ofWord name.text

/-- An annotation as it is used: its name, and what stands in round brackets after it, if anything. -/
structure AnnotationUse where
  first : NameWord
  more : List NameWord
  arguments : Option (List Tree)

namespace AnnotationUse

/-- The trees of the name. -/
def nameTrees (use : AnnotationUse) : List Tree :=
  use.first.tree :: use.more.flatMap fun word => [ofSymbol '.', word.tree]

/-- What is read of the annotation. -/
def node (use : AnnotationUse) : AnnotationNode :=
  ⟨writtenAll use.nameTrees⟩

/-- The trees of the annotation. -/
def trees (use : AnnotationUse) : List Tree :=
  ofSymbol '@' :: use.nameTrees ++ (use.arguments.map (enclosed .round)).toList

end AnnotationUse

/-- The trees of annotations one after the other. -/
def useTrees (uses : List AnnotationUse) : List Tree :=
  uses.flatMap AnnotationUse.trees

/-- The trees of the dimensions of an array, each with the annotations before it. -/
def dimensionTrees (dimensions : List (List AnnotationUse)) : List Tree :=
  dimensions.flatMap fun uses => useTrees uses ++ [enclosed .square []]

mutual

/-- A name of a class type with the annotations before it and the type arguments after it. -/
inductive TypeSegment : Type where
  | mk (annotations : List AnnotationUse) (name : NameWord) (arguments : List TypeArgument)

/-- A type argument: a wildcard, one with an upper or a lower bound, or a type. -/
inductive TypeArgument : Type where
  | wildcard (annotations : List AnnotationUse)
  | bounded (annotations : List AnnotationUse) (upper : Bool) (bound : ReferenceType)
  | type (type : ReferenceType)

/-- An array of a primitive type, or a class type, which may be the type of an array's entries. -/
inductive ReferenceType : Type where
  | primitives (annotations : List AnnotationUse) (word : String) (isPrimitive : word ∈ primitiveTypes)
      (dimensions : List (List AnnotationUse))
  | classes (first : TypeSegment) (more : List TypeSegment) (dimensions : List (List AnnotationUse))

end

namespace TypeSegment

/-- The annotations before the name. -/
def annotations : TypeSegment → List AnnotationUse
  | ⟨annotations, _, _⟩ => annotations

/-- The name itself. -/
def name : TypeSegment → NameWord
  | ⟨_, name, _⟩ => name

/-- The type arguments after the name. -/
def arguments : TypeSegment → List TypeArgument
  | ⟨_, _, arguments⟩ => arguments

end TypeSegment

/-- Trees between angle brackets, where there are some. -/
def angled (trees : List Tree) : List Tree :=
  if trees.isEmpty then [] else ofSymbol '<' :: trees ++ [ofSymbol '>']

mutual

/-- The trees of a name with its annotations and arguments. -/
def TypeSegment.trees : TypeSegment → List Tree
  | ⟨annotations, name, arguments⟩ =>
    useTrees annotations ++ name.tree :: angled (argumentRow [] arguments)

/-- The trees of further names. -/
def segmentRow : List TypeSegment → List Tree
  | [] => []
  | segment :: rest => ofSymbol '.' :: segment.trees ++ segmentRow rest

/-- The trees of a type argument. -/
def TypeArgument.trees : TypeArgument → List Tree
  | .wildcard annotations => useTrees annotations ++ [ofSymbol '?']
  | .bounded annotations upper bound =>
    useTrees annotations ++
      ofSymbol '?' :: ofWord (if upper then "extends" else "super") :: bound.trees
  | .type type => type.trees

/-- The trees of type arguments with commas between them, `before` standing before the first one. -/
def argumentRow (before : List Tree) : List TypeArgument → List Tree
  | [] => []
  | argument :: rest => before ++ argument.trees ++ argumentRow [ofSymbol ','] rest

/-- The trees of a type inside type arguments. -/
def ReferenceType.trees : ReferenceType → List Tree
  | .primitives annotations word _ dimensions =>
    useTrees annotations ++ ofWord word :: dimensionTrees dimensions
  | .classes first more dimensions =>
    first.trees ++ segmentRow more ++ dimensionTrees dimensions

end

mutual

/-- All annotations of a name, those inside its arguments among them. -/
def TypeSegment.uses : TypeSegment → List AnnotationUse
  | ⟨annotations, _, arguments⟩ => annotations ++ argumentUses arguments

/-- All annotations of further names. -/
def segmentUses : List TypeSegment → List AnnotationUse
  | [] => []
  | segment :: rest => segment.uses ++ segmentUses rest

/-- All annotations of a type argument. -/
def TypeArgument.uses : TypeArgument → List AnnotationUse
  | .wildcard annotations => annotations
  | .bounded annotations _ bound => annotations ++ bound.uses
  | .type type => type.uses

/-- All annotations of type arguments. -/
def argumentUses : List TypeArgument → List AnnotationUse
  | [] => []
  | argument :: rest => argument.uses ++ argumentUses rest

/-- All annotations of a type inside type arguments. -/
def ReferenceType.uses : ReferenceType → List AnnotationUse
  | .primitives annotations _ _ dimensions => annotations ++ dimensions.flatten
  | .classes first more dimensions => first.uses ++ segmentUses more ++ dimensions.flatten

end

/-- A row of trees has the property as soon as its parts have it, and so have the parts of types that hold
no others. -/
structure IsCompositional (P : List Tree → Prop) : Prop where
  nil : P []
  append : ∀ {trees others}, P trees → P others → P (trees ++ others)
  word : ∀ {text}, isName text → P [ofWord text]
  sign : ∀ {sign}, sign ∈ ['.', ',', '?', '&', '@'] → P [ofSymbol sign]
  square : P [enclosed .square []]
  angles : ∀ {trees}, P trees → P (ofSymbol '<' :: trees ++ [ofSymbol '>'])

namespace IsCompositional

variable {P : List Tree → Prop}

theorem cons (h : IsCompositional P) {tree : Tree} {rest : List Tree} (htree : P [tree]) (hrest : P rest) :
    P (tree :: rest) :=
  h.append htree hrest

theorem flatMap (h : IsCompositional P) {α : Type} {print : α → List Tree} {parts : List α}
    (hparts : ∀ part ∈ parts, P (print part)) : P (parts.flatMap print) := by
  induction parts with
  | nil => exact h.nil
  | cons part rest ih =>
      obtain ⟨hpart, hrest⟩ := List.forall_mem_cons.1 hparts
      rw [List.flatMap_cons]
      exact h.append hpart (ih hrest)

/-- Annotations have the property if what stands in round brackets does. -/
theorem use (h : IsCompositional P) (hround : ∀ inner, P [enclosed .round inner])
    (use : AnnotationUse) : P use.trees := by
  apply h.append
  · apply h.cons (h.sign (by decide))
    apply h.cons (h.word use.first.isName)
    apply h.flatMap
    intro word _
    exact h.cons (h.sign (by decide)) (h.word word.isName)
  · cases use.arguments with
    | none => exact h.nil
    | some inner => exact hround inner

theorem angled (h : IsCompositional P) {trees : List Tree} (htrees : P trees) :
    P (Source.angled trees) := by
  rw [Source.angled]
  split
  · exact h.nil
  · exact h.angles htrees

theorem dimensions (h : IsCompositional P) {dimensions : List (List AnnotationUse)}
    (huses : ∀ use ∈ dimensions.flatten, P use.trees) : P (dimensionTrees dimensions) := by
  apply h.flatMap
  intro uses hmem
  apply h.append _ h.square
  apply h.flatMap
  intro use huse
  exact huses use (List.mem_flatten_of_mem hmem huse)

mutual

theorem segment (h : IsCompositional P) :
    (segment : TypeSegment) → (∀ use ∈ segment.uses, P use.trees) → P segment.trees
  | ⟨annotations, name, arguments⟩, huses => by
    rw [TypeSegment.uses, List.forall_mem_append] at huses
    rw [TypeSegment.trees]
    apply h.append (h.flatMap huses.1)
    exact h.cons (h.word name.isName) (h.angled (h.arguments h.nil arguments huses.2))

theorem segments (h : IsCompositional P) :
    (segments : List TypeSegment) → (∀ use ∈ segmentUses segments, P use.trees) →
      P (segmentRow segments)
  | [], _ => by
    rw [segmentRow]
    exact h.nil
  | segment :: rest, huses => by
    rw [segmentUses, List.forall_mem_append] at huses
    rw [segmentRow]
    apply h.append _ (h.segments rest huses.2)
    exact h.cons (h.sign (by decide)) (h.segment segment huses.1)

theorem argument (h : IsCompositional P) :
    (argument : TypeArgument) → (∀ use ∈ argument.uses, P use.trees) → P argument.trees
  | .wildcard annotations, huses => by
    rw [TypeArgument.uses] at huses
    rw [TypeArgument.trees]
    exact h.append (h.flatMap huses) (h.sign (by decide))
  | .bounded annotations upper bound, huses => by
    rw [TypeArgument.uses, List.forall_mem_append] at huses
    rw [TypeArgument.trees]
    have hword : isName (if upper then "extends" else "super") := by
      cases upper <;> decide +kernel
    apply h.append (h.flatMap huses.1)
    apply h.cons (h.sign (by decide))
    exact h.cons (h.word hword) (h.type bound huses.2)
  | .type type, huses => by
    rw [TypeArgument.uses] at huses
    rw [TypeArgument.trees]
    exact h.type type huses

theorem arguments (h : IsCompositional P) {before : List Tree} (hbefore : P before) :
    (arguments : List TypeArgument) → (∀ use ∈ argumentUses arguments, P use.trees) →
      P (argumentRow before arguments)
  | [], _ => by
    rw [argumentRow]
    exact h.nil
  | argument :: rest, huses => by
    rw [argumentUses, List.forall_mem_append] at huses
    rw [argumentRow]
    apply h.append (h.append hbefore (h.argument argument huses.1))
    exact h.arguments (h.sign (by decide)) rest huses.2

theorem type (h : IsCompositional P) :
    (type : ReferenceType) → (∀ use ∈ type.uses, P use.trees) → P type.trees
  | .primitives annotations word isPrimitive dimensions, huses => by
    have hword : ∀ word ∈ primitiveTypes, isName word := by decide +kernel
    rw [ReferenceType.uses, List.forall_mem_append] at huses
    rw [ReferenceType.trees]
    apply h.append (h.flatMap huses.1)
    exact h.cons (h.word (hword word isPrimitive)) (h.dimensions huses.2)
  | .classes first more dimensions, huses => by
    rw [ReferenceType.uses, List.forall_mem_append, List.forall_mem_append] at huses
    rw [ReferenceType.trees]
    apply h.append _ (h.dimensions huses.2)
    exact h.append (h.segment first huses.1.1) (h.segments more huses.1.2)

end

end IsCompositional

end ComponentMarkers.Source
