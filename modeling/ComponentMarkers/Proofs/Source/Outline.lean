import ComponentMarkers.Proofs.Source.Pairing
import ComponentMarkers.Source.Unit

/-!
# Outlines of sources

An outline is what a well-formed source declares: a package, imports, and types with the members that
types of their kind may have.  It can be written down in one way, `UnitOutline.text`, with a blank
between any two tokens, nothing in the bodies of methods, and the types that a grammar asks for but no
declaration keeps chosen once and for all.

Fields that are declared together are one entry of an outline, so the same unit may have several
outlines, which differ in how its fields are grouped.
-/

namespace ComponentMarkers.Source

open Text

/-- The words of the language that are no names, those that are words in some places only among them. -/
def keywords : List String :=
  ["abstract", "assert", "boolean", "break", "byte", "case", "catch", "char", "class", "const",
    "continue", "default", "do", "double", "else", "enum", "extends", "final", "finally", "float",
    "for", "goto", "if", "implements", "import", "instanceof", "int", "interface", "long", "native",
    "new", "package", "private", "protected", "public", "return", "short", "static", "strictfp",
    "super", "switch", "synchronized", "this", "throw", "throws", "transient", "try", "void",
    "volatile", "while", "_", "true", "false", "null", "exports", "module", "non-sealed", "open",
    "opens", "permits", "provides", "record", "requires", "sealed", "to", "transitive", "uses", "var",
    "when", "with", "yield"]

/-- The text is one word of name characters. -/
def isName (text : String) : Bool :=
  match text.toList with
  | [] => false
  | c :: rest => isNameStart c && rest.all isNamePart

/-- A name of one word. -/
structure Identifier where
  text : String
  isName : isName text = true
  not_keyword : text ∉ keywords

/-- A name of one or more words with dots between them. -/
structure DottedName where
  first : Identifier
  more : List Identifier

namespace DottedName

/-- The name without blanks. -/
def text (name : DottedName) : String :=
  ".".intercalate ((name.first :: name.more).map Identifier.text)

end DottedName

/-- An import, of one type or on demand. -/
structure ImportOutline where
  name : DottedName
  onDemand : Bool
  isStatic : Bool

namespace ImportOutline

/-- What is read of the import. -/
def toImport (outline : ImportOutline) : Import :=
  ⟨outline.name.text, outline.onDemand, outline.isStatic⟩

end ImportOutline

/-- A constant of an enum. -/
structure ConstantOutline where
  annotations : List DottedName
  name : Identifier

/-- The kinds of types, with what the types of a kind declare outside of their members. -/
inductive TypeForm where
  | classType (superclass : Option DottedName)
  | interface
  | enum (constants : List ConstantOutline)
  | record
  | annotationType

namespace TypeForm

/-- The kind of element that such a type is. -/
def kind : TypeForm → ElementKind
  | classType _ => .classType
  | interface => .interface
  | enum _ => .enum
  | record => .record
  | annotationType => .annotationType

/-- Types of the kind may have constructors. -/
def hasConstructors : TypeForm → Bool
  | classType _ => true
  | enum _ => true
  | record => true
  | interface => false
  | annotationType => false

/-- The class that such a type extends. -/
def superclass? : TypeForm → Option String
  | classType superclass => superclass.map DottedName.text
  | _ => none

/-- The constants that such a type declares. -/
def constants : TypeForm → List ConstantOutline
  | enum constants => constants
  | _ => []

end TypeForm

mutual

/-- A type with its members. -/
inductive TypeOutline : Type where
  | mk (form : TypeForm) (annotations : List DottedName) (name : Identifier)
      (body : BodyOutline form.hasConstructors)

/-- The members of a type, constructors among them if it may have some.  Fields that are declared
together share their annotations. -/
inductive BodyOutline : (hasConstructors : Bool) → Type where
  | nil {hasConstructors : Bool} : BodyOutline hasConstructors
  | fields {hasConstructors : Bool} (annotations : List DottedName) (name : Identifier)
      (more : List Identifier) (rest : BodyOutline hasConstructors) : BodyOutline hasConstructors
  | method {hasConstructors : Bool} (annotations : List DottedName) (name : Identifier)
      (rest : BodyOutline hasConstructors) : BodyOutline hasConstructors
  | constructor (annotations : List DottedName) (rest : BodyOutline true) : BodyOutline true
  | type {hasConstructors : Bool} (inner : TypeOutline) (rest : BodyOutline hasConstructors) :
      BodyOutline hasConstructors

end

/-- There are no members. -/
def BodyOutline.isEmpty {hasConstructors : Bool} : BodyOutline hasConstructors → Bool
  | .nil => true
  | _ => false

/-- The texts of some annotations. -/
def annotationTexts (annotations : List DottedName) : List String :=
  annotations.map DottedName.text

mutual

/-- The declaration of a type. -/
def TypeOutline.declaration : TypeOutline → Declaration
  | ⟨form, annotations, name, body⟩ =>
    { kind := form.kind
      name := name.text
      annotations := annotationTexts annotations
      superclass := form.superclass?
      members :=
        form.constants.map (fun constant =>
          ⟨.enumConstant, constant.name.text, annotationTexts constant.annotations, none, []⟩) ++
        body.declarations }

/-- The declarations of members, in order. -/
def BodyOutline.declarations {hasConstructors : Bool} :
    BodyOutline hasConstructors → List Declaration
  | .nil => []
  | .fields annotations name more rest =>
    (name :: more).map (fun field =>
      ⟨.field, field.text, annotationTexts annotations, none, []⟩) ++ rest.declarations
  | .method annotations name rest =>
    ⟨.method, name.text, annotationTexts annotations, none, []⟩ :: rest.declarations
  | .constructor annotations rest =>
    ⟨.constructor, Declaration.constructorName, annotationTexts annotations, none, []⟩ ::
      rest.declarations
  | .type inner rest => inner.declaration :: rest.declarations

end

/-- A package with its annotations. -/
structure PackageOutline where
  annotations : List DottedName
  name : DottedName

/-- Everything that a source declares. -/
structure UnitOutline where
  package : Option PackageOutline
  imports : List ImportOutline
  types : List TypeOutline

namespace UnitOutline

/-- The unit that the outline describes. -/
def unit (outline : UnitOutline) (path : Option Path) : CompilationUnit where
  path := path
  package := outline.package.map fun package => package.name.text
  packageAnnotations :=
    (outline.package.map fun package => annotationTexts package.annotations).getD []
  imports := outline.imports.map ImportOutline.toImport
  types := outline.types.map TypeOutline.declaration

end UnitOutline

namespace Bracket

/-- The character that opens a group. -/
def openingChar : Bracket → Char
  | round => '('
  | square => '['
  | curly => '{'

/-- The character that closes a group. -/
def closingChar : Bracket → Char
  | round => ')'
  | square => ']'
  | curly => '}'

end Bracket

namespace Tree

/-- The tree of a word that nothing stands before. -/
def ofWord (text : String) : Tree :=
  .leaf ⟨[], .word text⟩

/-- The tree of a sign that nothing stands before. -/
def ofSymbol (char : Char) : Tree :=
  .leaf ⟨[], .symbol char⟩

/-- The trees between a pair of brackets. -/
def enclosed (bracket : Bracket) (inner : List Tree) : Tree :=
  .group bracket ⟨[], .symbol bracket.openingChar⟩ inner (some ⟨[], .symbol bracket.closingChar⟩)

end Tree

open Source.Tree

namespace Identifier

/-- The tree of the name. -/
def tree (name : Identifier) : Tree :=
  ofWord name.text

end Identifier

/-- The trees of further segments of a name. -/
def segmentTrees (segments : List Identifier) : List Tree :=
  segments.flatMap fun segment => [ofSymbol '.', segment.tree]

/-- The trees of a dotted name. -/
def DottedName.trees (name : DottedName) : List Tree :=
  name.first.tree :: segmentTrees name.more

/-- The trees of annotations without arguments. -/
def annotationTrees (annotations : List DottedName) : List Tree :=
  annotations.flatMap fun annotation => ofSymbol '@' :: annotation.trees

/-- The trees of a package declaration. -/
def PackageOutline.trees (outline : PackageOutline) : List Tree :=
  annotationTrees outline.annotations ++ ofWord "package" :: outline.name.trees ++ [ofSymbol ';']

/-- The trees of an import declaration. -/
def ImportOutline.trees (outline : ImportOutline) : List Tree :=
  ofWord "import" :: (if outline.isStatic then [ofWord "static"] else []) ++ outline.name.trees ++
    (if outline.onDemand then [ofSymbol '.', ofSymbol '*'] else []) ++ [ofSymbol ';']

/-- The trees of some names with commas between them, each name followed by `ending`. -/
def listTrees (ending : List Tree) : List Identifier → List Tree
  | [] => []
  | [name] => name.tree :: ending
  | name :: next :: rest => name.tree :: ending ++ ofSymbol ',' :: listTrees ending (next :: rest)

/-- The trees of the constants of an enum. -/
def constantTrees : List ConstantOutline → List Tree
  | [] => []
  | [constant] => annotationTrees constant.annotations ++ [constant.name.tree]
  | constant :: next :: rest =>
    annotationTrees constant.annotations ++ constant.name.tree :: ofSymbol ',' ::
      constantTrees (next :: rest)

namespace TypeForm

/-- The word that declares such a type. -/
def keyword : TypeForm → String
  | classType _ => "class"
  | interface => "interface"
  | enum _ => "enum"
  | record => "record"
  | annotationType => "@interface"

/-- What stands between the name of such a type and its body. -/
def headTrees : TypeForm → List Tree
  | classType (some superclass) => ofWord "extends" :: superclass.trees
  | record => [enclosed .round []]
  | _ => []

/-- Fields of such types are constants, and methods have no body. -/
def isAbstract : TypeForm → Bool
  | interface => true
  | annotationType => true
  | _ => false

/-- What stands before the type of a field.  A record has no fields of its own but static ones. -/
def fieldModifiers : TypeForm → List Tree
  | record => [ofWord "static"]
  | _ => []

/-- What stands after the name of a field. -/
def fieldEnding (form : TypeForm) : List Tree :=
  if form.isAbstract then [ofSymbol '=', .leaf ⟨[], .number "0"⟩] else []

/-- The type of a method.  An element of an annotation has a value. -/
def methodType : TypeForm → String
  | annotationType => "int"
  | _ => "void"

/-- What ends a method. -/
def methodEnding (form : TypeForm) : Tree :=
  if form.isAbstract then ofSymbol ';' else enclosed .curly []

/-- What stands between the constants of an enum and its members, if it has some. -/
def separator (form : TypeForm) (isEmpty : Bool) : List Tree :=
  match form with
  | enum _ => if isEmpty then [] else [ofSymbol ';']
  | _ => []

end TypeForm

mutual

/-- The trees of a type declaration. -/
def TypeOutline.trees : TypeOutline → List Tree
  | ⟨form, annotations, name, body⟩ =>
    annotationTrees annotations ++ ofWord form.keyword :: name.tree :: form.headTrees ++
      [enclosed .curly
        (constantTrees form.constants ++ form.separator body.isEmpty ++ body.trees form name)]

/-- The trees of the members of a type with the given form and name. -/
def BodyOutline.trees {hasConstructors : Bool} (form : TypeForm) (owner : Identifier) :
    BodyOutline hasConstructors → List Tree
  | .nil => []
  | .fields annotations name more rest =>
    annotationTrees annotations ++ form.fieldModifiers ++ ofWord "int" ::
      listTrees form.fieldEnding (name :: more) ++ ofSymbol ';' :: rest.trees form owner
  | .method annotations name rest =>
    annotationTrees annotations ++ ofWord form.methodType :: name.tree :: enclosed .round [] ::
      form.methodEnding :: rest.trees form owner
  | .constructor annotations rest =>
    annotationTrees annotations ++ owner.tree :: enclosed .round [] :: enclosed .curly [] ::
      rest.trees form owner
  | .type inner rest => inner.trees ++ rest.trees form owner

end

namespace UnitOutline

/-- The trees of everything that is declared. -/
def trees (outline : UnitOutline) : List Tree :=
  (outline.package.map PackageOutline.trees).getD [] ++ outline.imports.flatMap ImportOutline.trees ++
    outline.types.flatMap TypeOutline.trees

/-- The source that declares what the outline has, with one blank between any two tokens. -/
def text (outline : UnitOutline) : String :=
  " ".intercalate ((tokensAmong outline.trees).map Token.text)

end UnitOutline

/-- An enum with a constant, two fields that are declared together, and a constructor. -/
example :
    let color : Identifier := ⟨"Color", by decide +kernel, by decide⟩
    let red : Identifier := ⟨"RED", by decide +kernel, by decide⟩
    let hue : Identifier := ⟨"hue", by decide +kernel, by decide⟩
    let light : Identifier := ⟨"light", by decide +kernel, by decide⟩
    let body := BodyOutline.fields [] hue [light] (.constructor [⟨hue, []⟩] .nil)
    UnitOutline.text ⟨none, [], [⟨.enum [⟨[], red⟩], [⟨hue, [light]⟩], color, body⟩]⟩ =
      "@ hue . light enum Color { RED ; int hue , light ; @ hue Color ( ) { } }" := by
  decide +kernel

end ComponentMarkers.Source
