/-!
# Program elements

A program element is a package, a type or a member of a type.  The elements of one round are handed
around by number; what a round knows of an element is its kind, its names and the element it is
written in.
-/

namespace ComponentMarkers

/-- The kinds of program elements. -/
inductive ElementKind where
  | package
  | classType
  | interface
  | enum
  | record
  | annotationType
  | method
  | constructor
  | field
  | enumConstant
  deriving DecidableEq, Repr

namespace ElementKind

/-- All kinds. -/
def all : List ElementKind :=
  [package, classType, interface, enum, record, annotationType, method, constructor, field,
    enumConstant]

/-- The name of the kind in reports. -/
def label : ElementKind → String
  | package => "package"
  | classType => "class"
  | interface => "interface"
  | enum => "enum"
  | record => "record"
  | annotationType => "annotation_type"
  | method => "method"
  | constructor => "constructor"
  | field => "field"
  | enumConstant => "enum_constant"

/-- The kind with the given name. -/
def ofLabel? (name : String) : Option ElementKind :=
  all.find? fun kind => kind.label = name

/-- The kinds that declare types. -/
def isType : ElementKind → Bool
  | classType | interface | enum | record | annotationType => true
  | _ => false

/-- Plain classes only: no other kind of type gets a marker of its own. -/
def isClass (kind : ElementKind) : Bool :=
  kind = classType

/-- Packages. -/
def isPackage (kind : ElementKind) : Bool :=
  kind = package

theorem ofLabel?_label (kind : ElementKind) : ofLabel? kind.label = some kind := by
  cases kind <;> decide

end ElementKind

/-- The number of an element within its round, a word of 32 bits. -/
structure ElementId where
  word : UInt32
  deriving DecidableEq, Repr, Inhabited

namespace ElementId

/-- The number as an index. -/
def index (id : ElementId) : Nat :=
  id.word.toNat

/-- How many numbers there are. -/
def count : Nat :=
  4294967296

/-- The number of the element at an index; indexes beyond 32 bits wrap around. -/
def ofIndex (n : Nat) : ElementId :=
  ⟨UInt32.ofNat n⟩

/-- The number as it appears in messages. -/
def label (id : ElementId) : String :=
  "#" ++ toString id.index

theorem index_ofIndex (n : Nat) : (ofIndex n).index = n % count :=
  rfl

theorem index_ofIndex_of_lt {n : Nat} (h : n < count) : (ofIndex n).index = n := by
  rw [index_ofIndex, Nat.mod_eq_of_lt h]

theorem ofIndex_index (id : ElementId) : ofIndex id.index = id := by
  cases id
  simp [ofIndex, index]

end ElementId

/-- What is known of one element. -/
structure Element where
  kind : ElementKind
  simpleName : String
  /-- Dotted name; a package has its package name, empty for the unnamed package. -/
  qualifiedName : String
  /-- The element this one is written in. -/
  enclosing : Option ElementId
  deriving DecidableEq, Repr

/-- The elements of a round, the element with number `n` at index `n`. -/
structure ElementTable where
  elements : Array Element
  deriving Repr

/-- A number that belongs to no element of the table it was looked up in. -/
structure UnknownElement where
  id : ElementId
  deriving DecidableEq, Repr

namespace ElementTable

/-- The element with a number. -/
def get? (table : ElementTable) (id : ElementId) : Option Element :=
  table.elements[id.index]?

/-- The element with a number, or the complaint that there is none. -/
def get (table : ElementTable) (id : ElementId) : Except UnknownElement Element :=
  match table.get? id with
  | some element => .ok element
  | none => .error ⟨id⟩

end ElementTable

end ComponentMarkers
