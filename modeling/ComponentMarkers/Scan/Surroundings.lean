import ComponentMarkers.FileSystem.Tree
import ComponentMarkers.Scan.IgnoreRules

/-!
# Rules that apply in a directory

In a directory apply the ignore files found there and in all directories around it, the nearer ones
before the farther ones.  The ignore files of version control count only within a repository, and only
up to its top.  A general ignore file comes before one of version control, this before the list of
exclusions of the repository, and this before the user's ignore file for all repositories.
-/

namespace ComponentMarkers.Scan

/-- The rules found in one directory. -/
structure RuleLayer where
  directory : Path
  /-- The directory lies above the root of the scan. -/
  isOutside : Bool
  /-- The directory is the top of a repository. -/
  isRepository : Bool
  general : IgnoreRules
  versioned : IgnoreRules
  excluded : IgnoreRules
  deriving Repr

/-- The rules that apply in a directory. -/
structure Surroundings where
  /-- The layers from the innermost directory outwards. -/
  layers : List RuleLayer
  /-- Where the root of the scan lies, as an absolute path. -/
  base : Option Path
  /-- The rules of the user for all repositories. -/
  user : IgnoreRules
  deriving Repr

/-- The bytes of a file, none when it cannot be read. -/
def bytesOf (tree : FileTree) (path : Path) : List UInt8 :=
  match tree.readFile path with
  | .ok bytes => bytes
  | .error _ => []

/-- The rules in a file that applies to a directory. -/
def rulesIn (tree : FileTree) (directory file : Path) : IgnoreRules :=
  .ofBytes directory (bytesOf tree file)

/-- The directory that holds the data of the repository of which `directory` is the top.  The entry
`.git` is that directory, or a file that names another one. -/
def repositoryData? (tree : FileTree) (directory : Path) : Option Path :=
  let entry := directory.join ⟨".git"⟩
  if tree.isFile entry then do
    let line ← (textLines (bytesOf tree entry)).head?
    let named ← afterBegin? "gitdir: ".toList line.toList
    let data : Path := ⟨String.ofList named⟩
    let common ← (textLines (bytesOf tree (data.join ⟨"commondir"⟩))).head?
    return if common.toList.head? = some '.' then data.join ⟨common⟩ else ⟨common⟩
  else
    some entry

/-- The layer of a directory. -/
def layerOf (tree : FileTree) (isOutside : Bool) (directory : Path) : RuleLayer :=
  { directory := directory
    isOutside := isOutside
    isRepository :=
      tree.isPresent (directory.join ⟨".git"⟩) || tree.isPresent (directory.join ⟨".jj"⟩)
    general := rulesIn tree directory (directory.join ⟨".ignore"⟩)
    versioned := rulesIn tree directory (directory.join ⟨".gitignore"⟩)
    excluded :=
      match repositoryData? tree directory with
      | some data => rulesIn tree directory (data.join ⟨"info/exclude"⟩)
      | none => .none }

/-- The rules that the user has for all repositories.  They are looked at from the directory in which the
program works. -/
def userRules (tree : FileTree) : IgnoreRules :=
  .ofBytes (absolutePath tree.workingDirectory) tree.userIgnoreFile

namespace Surroundings

/-- The rules that apply where a scan begins whose root lies at a place: those of all directories above
it. -/
def above (tree : FileTree) (place : Place) : Surroundings :=
  let ancestors := (List.range place.length).map fun length => absolutePath (place.take length)
  ⟨(ancestors.map (layerOf tree true)).reverse, some (absolutePath place), userRules tree⟩

/-- The rules that apply in a directory within the one before. -/
def enter (surroundings : Surroundings) (tree : FileTree) (directory : Path) : Surroundings :=
  { surroundings with layers := layerOf tree false directory :: surroundings.layers }

/-- The verdicts of the three kinds of rules so far, and whether the top of the repository was
passed. -/
structure Findings where
  general : Verdict
  versioned : Verdict
  excluded : Verdict
  passedTop : Bool

/-- Asks the rules of one layer where the nearer layers left something undecided. -/
def consult (inRepository : Bool) (path : List Char) (isDirectory : Bool) (findings : Findings)
    (layer : RuleLayer) : Findings :=
  let asks := inRepository && !findings.passedTop
  let ask (verdict : Verdict) (rules : IgnoreRules) : Verdict :=
    if asks then verdict.orElse (rules.verdict path isDirectory) else verdict
  { general := findings.general.orElse (layer.general.verdict path isDirectory)
    versioned := ask findings.versioned layer.versioned
    excluded := ask findings.excluded layer.excluded
    passedTop := findings.passedTop || layer.isRepository }

/-- The path as the directories above the root of the scan see it: its steps from the root of the scan,
taken from where that root lies.  `top` is the root as it was given. -/
def seenFromAbove (base : Path) (top : Option Path) (path : List Char) : List Char :=
  let steps :=
    match top with
    | none => path
    | some top =>
      if top.same ⟨"."⟩ then
        path
      else
        let below := (afterBegin? (withoutDotSlash top.text.toList) path).getD path
        (afterBegin? ['/'] below).getD below
  (base.join ⟨String.ofList steps⟩).text.toList

/-- What the rules say about an entry of the innermost directory. -/
def verdict (surroundings : Surroundings) (path : Path) (isDirectory : Bool) : Verdict :=
  let path := withoutDotSlash path.text.toList
  let inRepository := surroundings.layers.any RuleLayer.isRepository
  let inner := surroundings.layers.takeWhile fun layer => !layer.isOutside
  let outer := surroundings.layers.dropWhile fun layer => !layer.isOutside
  let near := inner.foldl (consult inRepository path isDirectory)
    ⟨.undecided, .undecided, .undecided, false⟩
  let all :=
    match surroundings.base with
    | none => near
    | some base =>
      let fromAbove := seenFromAbove base (inner.getLast?.map RuleLayer.directory) path
      outer.foldl (consult inRepository fromAbove isDirectory) near
  let user := if inRepository then surroundings.user.verdict path isDirectory else .undecided
  ((all.general.orElse all.versioned).orElse all.excluded).orElse user

end Surroundings

end ComponentMarkers.Scan
