import ComponentMarkers.Element
import ComponentMarkers.Source.Nesting

/-!
# Syntax of declarations

What the grammar makes of the trees of a source: one node for each declaration, with those of its parts
that something is taken from later.  Names of packages, annotations and class types are kept as they are
written, comments inside them among them.  The body of a type stays a row of trees.
-/

namespace ComponentMarkers.Source

/-- An annotation.  Its arguments are passed over. -/
structure AnnotationNode where
  /-- The name as it is written, from its first word to its last. -/
  name : String
  deriving DecidableEq, Repr

/-- A type that is referred to. -/
inductive TypeReference where
  | primitive
  | array
  /-- A class type as it is written up to its last name.  Annotations before it and type arguments at its
  end are no part of it. -/
  | named (name : String)
  deriving DecidableEq, Repr

/-- What comes first in an `extends` clause. -/
inductive ExtendsClause where
  | comment
  | type (type : TypeReference)
  deriving DecidableEq, Repr

/-- A declaration of a type whose body has not been read. -/
structure TypeHead where
  kind : ElementKind
  name : String
  modifiers : List AnnotationNode
  superclass : Option ExtendsClause
  body : List Tree
  deriving Repr

/-- A declaration in the body of a type.  `modifiers` are the annotations among its modifiers, and `own`
are those that stand elsewhere in it. -/
inductive Member where
  | type (head : TypeHead)
  | method (modifiers own : List AnnotationNode) (name : String)
  | constructor (modifiers : List AnnotationNode)
  | fields (modifiers own : List AnnotationNode) (names : List String)
  | constant (modifiers : List AnnotationNode) (name : String)
  deriving Repr

/-- A declaration of a package. -/
structure PackageClause where
  annotations : List AnnotationNode
  name : String
  deriving DecidableEq, Repr

/-- A declaration of an import. -/
structure ImportClause where
  name : String
  /-- A star ends the declaration. -/
  onDemand : Bool
  isStatic : Bool
  deriving DecidableEq, Repr

/-- One declaration at the top of a source. -/
inductive Item where
  | package (clause : PackageClause)
  | import (clause : ImportClause)
  | type (head : TypeHead)
  deriving Repr

end ComponentMarkers.Source
