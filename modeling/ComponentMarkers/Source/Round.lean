import ComponentMarkers.Source.ImportContext
import ComponentMarkers.NameIndex
import ComponentMarkers.Round

/-!
# Rounds over Java sources

A round is built unit by unit.  Every declaration becomes an element, owners before what they hold, and
the units of one package share its element.  Of several types with one qualified name the first one is
the type of that name.

Annotations and superclasses stay written names until they are asked for; each is resolved in the
unit it was written in, against all the units added so far.
-/

namespace ComponentMarkers.Source

open ComponentMarkers.Text

/-- The annotation that makes another annotation visible on subclasses. -/
def inheritedAnnotation : String :=
  "java.lang.annotation.Inherited"

/-- The annotations that subclasses inherit although no source declares them: the normal scopes. -/
def inheritedScopes : List String :=
  ["javax.enterprise.context.ApplicationScoped", "javax.enterprise.context.SessionScoped",
    "javax.enterprise.context.ConversationScoped", "javax.enterprise.context.RequestScoped"]

/-- A name as it is written, and the unit it is written in. -/
structure WrittenName where
  text : String
  unit : Nat
  deriving DecidableEq, Repr

/-- An element of the sources. -/
structure SourceElement where
  element : Element
  /-- The file it is declared in; packages have none. -/
  source : Option Path
  annotations : List WrittenName
  superclass : Option WrittenName
  deriving DecidableEq, Repr

/-- The elements of some units and the names they are known by. -/
structure SourceRound where
  elements : Array SourceElement
  units : Array ImportContext
  packages : NameIndex
  types : NameIndex
  /-- The types at the top of the units. -/
  roots : List ElementId
  isOver : Bool
  deriving Repr

namespace SourceRound

/-- The round without units. -/
def empty : SourceRound :=
  ⟨#[], #[], .empty, .empty, [], false⟩

/-- The round that ends a run. -/
def final : SourceRound :=
  { empty with isOver := true }

/-- The element with a number. -/
def get? (round : SourceRound) (id : ElementId) : Option SourceElement :=
  round.elements[id.index]?

/-- The number the next element gets. -/
def nextId (round : SourceRound) : ElementId :=
  .ofIndex round.elements.size

/-- Adds one element. -/
def push (round : SourceRound) (element : SourceElement) : SourceRound :=
  { round with elements := round.elements.push element }

/-- The element of a package, which is added unless the round has it. -/
def package (round : SourceRound) (name : String) : SourceRound × ElementId :=
  match round.packages.find? name with
  | some id => (round, id)
  | none =>
    let id := round.nextId
    let element : SourceElement := ⟨⟨.package, lastSegment name, name, none⟩, none, [], none⟩
    ({ round.push element with packages := round.packages.insertNew name id }, id)

/-- Gives the element at an index further annotations. -/
def annotate (round : SourceRound) (id : ElementId) (names : List WrittenName) : SourceRound :=
  { round with
    elements := round.elements.modify id.index fun element =>
      { element with annotations := element.annotations ++ names } }

/-- The element of a declaration, without its members, is added inside `owner`. -/
def declare (round : SourceRound) (unit : Nat) (source : Option Path) (owner : ElementId)
    (declaration : Declaration) : SourceRound :=
  let ownerName := ((round.get? owner).map fun found => found.element.qualifiedName).getD ""
  let qualifiedName := qualify ownerName declaration.name
  let types :=
    if declaration.kind.isType then
      round.types.insertNew qualifiedName round.nextId
    else
      round.types
  { round.push
      { element := ⟨declaration.kind, declaration.name, qualifiedName, some owner⟩
        source := source
        annotations := declaration.annotations.map fun text => ⟨text, unit⟩
        superclass := declaration.superclass.map fun text => ⟨text, unit⟩ } with
    types := types }

mutual

/-- A declaration with all its members is added inside `owner`. -/
def insert (round : SourceRound) (unit : Nat) (source : Option Path) (owner : ElementId) :
    Declaration → SourceRound
  | ⟨kind, name, annotations, superclass, members⟩ =>
    insertAll (round.declare unit source owner ⟨kind, name, annotations, superclass, []⟩) unit source
      round.nextId members

/-- Declarations are added inside `owner` one after the other. -/
def insertAll (round : SourceRound) (unit : Nat) (source : Option Path) (owner : ElementId) :
    List Declaration → SourceRound
  | [] => round
  | declaration :: rest =>
    insertAll (insert round unit source owner declaration) unit source owner rest

end

/-- A type is added at the top of a unit. -/
def insertRoot (round : SourceRound) (unit : Nat) (source : Option Path) (package : ElementId)
    (declaration : Declaration) : SourceRound :=
  let added := round.insert unit source package declaration
  { added with roots := added.roots ++ [round.nextId] }

/-- The declarations of a unit are added to the round.  The second result are the types at the top of
the unit. -/
def addUnit (round : SourceRound) (unit : CompilationUnit) : SourceRound × List ElementId :=
  let index := round.units.size
  let context := ImportContext.ofImports unit.package unit.imports
  let (round, package) :=
    ({ round with units := round.units.push context }).package (unit.package.getD "")
  let round := round.annotate package (unit.packageAnnotations.map fun text => ⟨text, index⟩)
  let added := unit.types.foldl (fun round type => round.insertRoot index unit.path package type) round
  (added, added.roots.drop round.roots.length)

/-- The first element with a qualified name and a kind. -/
def find? (round : SourceRound) (qualifiedName : String) (kind : ElementKind) : Option ElementId :=
  (round.elements.findIdx? fun found =>
    found.element.kind = kind && found.element.qualifiedName = qualifiedName).map ElementId.ofIndex

/-- The qualified names of the types around an element, the innermost first, `bound` being the
greatest number of them. -/
def enclosingTypeNames (round : SourceRound) : (bound : Nat) → Option ElementId → List String
  | 0, _ => []
  | _ + 1, none => []
  | bound + 1, some id =>
    match round.get? id with
    | none => []
    | some owner =>
      if owner.element.kind.isType then
        owner.element.qualifiedName ::
          enclosingTypeNames round bound owner.element.enclosing
      else
        []

/-- The context of the unit a name is written in. -/
def contextOf (round : SourceRound) (name : WrittenName) : ImportContext :=
  (round.units[name.unit]?).getD default

/-- The qualified names the `extends` text of an element may stand for, in the order in which they
are tried.  Member types of the enclosing types hide what is imported, and a dotted name may also be
qualified already. -/
def superclassCandidates (round : SourceRound) (element : Element) (name : WrittenName) :
    List String :=
  let (first, rest) :=
    match splitFirst? name.text with
    | some (first, rest) => (first, some rest)
    | none => (name.text, none)
  let owners := round.enclosingTypeNames round.elements.size element.enclosing
  let candidates :=
    owners.map (fun owner => owner ++ "." ++ first) ++ (round.contextOf name).typeCandidates first
  match rest with
  | none => candidates
  | some rest => candidates.map (fun candidate => candidate ++ "." ++ rest) ++ [name.text]

/-- The element with a number is a class. -/
def isClass (round : SourceRound) (id : ElementId) : Bool :=
  (round.get? id).any fun found => found.element.kind = .classType

/-- The class of the round that an element extends. -/
def superclass? (round : SourceRound) (id : ElementId) : Option ElementId := do
  let found ← round.get? id
  let name ← found.superclass
  ((round.superclassCandidates found.element name).filterMap round.types.find?).find? round.isClass

/-- An element itself carries the annotation with an identifier. -/
def carries (round : SourceRound) (id : ElementId) (identifier : String) : Bool :=
  (round.get? id).any fun found =>
    found.annotations.any fun name => (round.contextOf name).denotes name.text identifier

/-- Subclasses inherit the annotation: it is a normal scope, or an annotation type of the round that
carries the annotation for that. -/
def isInherited (round : SourceRound) (identifier : String) : Bool :=
  inheritedScopes.contains identifier ||
    (round.types.find? identifier).any fun id =>
      ((round.get? id).any fun found => found.element.kind = .annotationType) &&
        round.carries id inheritedAnnotation

/-- The superclasses of an element, the nearest first, up to the first that is in `seen` or comes
again; `bound` is the greatest number of them. -/
def ancestorsFrom (round : SourceRound) : (bound : Nat) → (seen : List ElementId) → ElementId →
    List ElementId
  | 0, _, _ => []
  | bound + 1, seen, id =>
    match round.superclass? id with
    | none => []
    | some ancestor =>
      if seen.contains ancestor then
        []
      else
        ancestor :: ancestorsFrom round bound (ancestor :: seen) ancestor

/-- The superclasses of an element, the nearest first.  A chain that comes back to a class ends before
it. -/
def ancestors (round : SourceRound) (id : ElementId) : List ElementId :=
  round.ancestorsFrom round.elements.size [id] id

/-- The numbers of all elements. -/
def ids (round : SourceRound) : List ElementId :=
  (List.range round.elements.size).map ElementId.ofIndex

/-- The elements that carry an annotation, themselves or, being classes, through a superclass. -/
def annotated (round : SourceRound) (identifier : String) : List ElementId :=
  let inherited := round.isInherited identifier
  round.ids.filter fun id =>
    round.carries id identifier ||
      (inherited && round.isClass id &&
        (round.ancestors id).any fun ancestor => round.carries ancestor identifier)

/-- The file an element is declared in. -/
def sourceFile? (round : SourceRound) (id : ElementId) : Option Path :=
  (round.get? id).bind SourceElement.source

/-- The round as a processor sees it. -/
def toRound (round : SourceRound) : Round :=
  { table := ⟨round.elements.map SourceElement.element⟩
    annotated := round.annotated
    isOver := round.isOver }

end SourceRound

end ComponentMarkers.Source
