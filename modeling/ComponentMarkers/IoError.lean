import ComponentMarkers.ResourcePath

/-!
# Failures of input and output

Why a resource could not be created, written or finished, or a file not be read.
-/

namespace ComponentMarkers

/-- What the file system answers when it refuses. -/
inductive SystemFault where
  | notFound
  | alreadyExists
  | notDirectory
  | isDirectory
  | nameTooLong
  | tooManyLinks
  /-- Any other fault, with its number and what is called it in one word and in words. -/
  | other (number : Nat) (kind description : String)
  deriving DecidableEq, Repr

namespace SystemFault

/-- The number of the fault. -/
def number : SystemFault → Nat
  | notFound => 2
  | alreadyExists => 17
  | notDirectory => 20
  | isDirectory => 21
  | nameTooLong => 36
  | tooManyLinks => 40
  | other number _ _ => number

/-- The fault in words. -/
def description : SystemFault → String
  | notFound => "No such file or directory"
  | alreadyExists => "File exists"
  | notDirectory => "Not a directory"
  | isDirectory => "Is a directory"
  | nameTooLong => "File name too long"
  | tooManyLinks => "Too many levels of symbolic links"
  | other _ _ description => description

/-- The fault as one word. -/
def kind : SystemFault → String
  | notFound => "NotFound"
  | alreadyExists => "AlreadyExists"
  | notDirectory => "NotADirectory"
  | isDirectory => "IsADirectory"
  | nameTooLong => "InvalidFilename"
  | tooManyLinks => "FilesystemLoop"
  | other _ kind _ => kind

/-- The fault with all that is known of it. -/
def details (fault : SystemFault) : String :=
  "Os \x7b code: " ++ toString fault.number ++ ", kind: " ++ fault.kind ++ ", message: " ++
    Text.quoteName fault.description ++ " \x7d"

/-- The fault in words, with its number. -/
def message (fault : SystemFault) : String :=
  fault.description ++ " (os error " ++ toString fault.number ++ ")"

end SystemFault

/-- A failed step of input or output. -/
inductive IoError where
  /-- The relative name of the resource is not plain. -/
  | invalidName (name : String)
  /-- A path holds the character that ends paths for the file system. -/
  | nulInPath
  | system (fault : SystemFault)
  /-- A failure that whoever reads or writes gives a kind and words of its own. -/
  | custom (kind message : String)
  deriving DecidableEq, Repr

namespace IoError

/-- The failure as one word. -/
def kind : IoError → String
  | invalidName _ => "InvalidInput"
  | nulInPath => "InvalidInput"
  | system fault => fault.kind
  | custom kind _ => kind

/-- The failure in words. -/
def message : IoError → String
  | invalidName name => invalidNameMessage name
  | nulInPath => "file name contained an unexpected NUL byte"
  | system fault => fault.message
  | custom _ message => message

/-- The failure with all that is known of it. -/
def details : IoError → String
  | system fault => fault.details
  | nulInPath =>
    "Error \x7b kind: " ++ nulInPath.kind ++ ", message: " ++ Text.quoteName nulInPath.message ++
      " \x7d"
  | error =>
    "Custom \x7b kind: " ++ error.kind ++ ", error: " ++ Text.quoteName error.message ++ " \x7d"

end IoError

end ComponentMarkers
