import ComponentMarkers.Source.Declaration
import ComponentMarkers.Source.Item
import ComponentMarkers.Source.Lexer
import ComponentMarkers.Text.Blank

/-!
# From a source text to a compilation unit

What a source declares is taken from its syntax: the names without blanks, the annotations of each
declaration wherever they stand in it, the class that a class extends, and the members of the types with
the members of their members.  The last package declaration gives the package and its annotations.
-/

namespace ComponentMarkers.Source

open Text

/-- The name that is written in a text: comments inside the name belong to it, blanks do not. -/
def dottedText (written : String) : String :=
  withoutBlanks written

/-- The text without what stands between angle brackets, `level` of them being open.  A closing
bracket where none is open is dropped. -/
def withoutAngles : (level : Nat) → List Char → List Char
  | _, [] => []
  | level, '<' :: rest => withoutAngles (level + 1) rest
  | level, '>' :: rest => withoutAngles (level - 1) rest
  | level, c :: rest => if level = 0 then c :: withoutAngles level rest else withoutAngles level rest

/-- The class that a type names, without type arguments.  Those further in are removed by counting angle
brackets in the text. -/
def TypeReference.className? : TypeReference → Option String
  | named name => some (String.ofList (withoutAngles 0 (dottedText name).toList))
  | _ => none

/-- The class that an `extends` clause names.  A clause that begins with a comment names none. -/
def ExtendsClause.className? : ExtendsClause → Option String
  | type reference => reference.className?
  | comment => none

/-- The names of the annotations on a declaration: those among its modifiers, and its own. -/
def annotationNames (modifiers own : List AnnotationNode) : List String :=
  (modifiers ++ own).map fun node => dottedText node.name

namespace PackageClause

/-- The name of the package. -/
def packageName (clause : PackageClause) : String :=
  dottedText clause.name

end PackageClause

namespace ImportClause

/-- What is imported. -/
def toImport (clause : ImportClause) : Import :=
  ⟨dottedText clause.name, clause.onDemand, clause.isStatic⟩

end ImportClause

/-- The declarations that a member stands for: one for each name it introduces.  `ofType` declares the
types among the members. -/
def Member.declarations (ofType : TypeHead → Declaration) : Member → List Declaration
  | type head => [ofType head]
  | method modifiers own name => [⟨.method, name, annotationNames modifiers own, none, []⟩]
  | constructor modifiers =>
    [⟨.constructor, Declaration.constructorName, annotationNames modifiers [], none, []⟩]
  | fields modifiers own names =>
    names.map fun name => ⟨.field, name, annotationNames modifiers own, none, []⟩
  | constant modifiers name => [⟨.enumConstant, name, annotationNames modifiers [], none, []⟩]

namespace TypeHead

/-- The declaration of a type that has the given members. -/
def withMembers (head : TypeHead) (members : List Declaration) : Declaration where
  kind := head.kind
  name := head.name
  annotations := annotationNames head.modifiers []
  superclass := head.superclass.bind ExtendsClause.className?
  members := members

/-- The declaration of a type with all its members, of which `levels` levels are read. -/
def declaration : (levels : Nat) → TypeHead → Declaration
  | 0, head => head.withMembers []
  | levels + 1, head =>
    head.withMembers (head.members.flatMap (Member.declarations (declaration levels)))

end TypeHead

/-- The unit that the declarations at the top of a source make up.  Types are read to the depth of
the brackets around them. -/
def unitOfItems (path : Option Path) (levels : Nat) (items : List Item) : CompilationUnit :=
  items.foldl
    (fun unit item =>
      match item with
      | .package clause =>
        { unit with
          package := some clause.packageName
          packageAnnotations := annotationNames [] clause.annotations }
      | .import clause => { unit with imports := unit.imports ++ [clause.toImport] }
      | .type head => { unit with types := unit.types ++ [head.declaration levels] })
    ⟨path, none, [], [], []⟩

/-- The compilation unit that a source text holds. -/
def readUnit (source : String) (path : Option Path) : CompilationUnit :=
  let trees := nest (tokens source)
  unitOfItems path (Tree.depthAll trees) (items trees)

end ComponentMarkers.Source
