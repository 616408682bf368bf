import GraphCriteria.Text.Ascii
import GraphCriteria.Text.Quoted

/-!
# Files and paths

A run reads at most one file and writes at most one.  A file tree holds files and
directories by the places that paths lead to: below the working directory, above it, or
from the root of all files.  Outside of the working directory nothing is known to stand
but the null device.  Paths are walked name by name, and every name but the last must lead
to a directory.
-/

namespace GraphCriteria.CommandLine

/-! ## Errors -/

/-- Why a file cannot be read or written. -/
inductive FileError where
  | notFound
  | alreadyExists
  | notADirectory
  | isADirectory
  | nameTooLong
  | other (code : Nat) (kind description : String)
deriving DecidableEq, Repr

namespace FileError

/-- The number of an error. -/
def code : FileError → Nat
  | notFound => 2
  | alreadyExists => 17
  | notADirectory => 20
  | isADirectory => 21
  | nameTooLong => 36
  | other code _ _ => code

/-- The name of the kind of an error. -/
def kind : FileError → String
  | notFound => "NotFound"
  | alreadyExists => "AlreadyExists"
  | notADirectory => "NotADirectory"
  | isADirectory => "IsADirectory"
  | nameTooLong => "InvalidFilename"
  | other _ kind _ => kind

/-- The wording of an error. -/
def description : FileError → String
  | notFound => "No such file or directory"
  | alreadyExists => "File exists"
  | notADirectory => "Not a directory"
  | isADirectory => "Is a directory"
  | nameTooLong => "File name too long"
  | other _ _ description => description

/-- The diagnostic form of an error. -/
def diagnostic (e : FileError) : String :=
  "Os \x7b code: " ++ toString e.code ++ ", kind: " ++ e.kind ++ ", message: " ++
    Text.quoted e.description ++ " \x7d"

end FileError

/-! ## Access to files -/

/-- The ways in which a run reaches the files around it. -/
structure FileAccess (m : Type → Type) where
  /-- Whether a path leads anywhere. -/
  pathExists : String → m Bool
  /-- The contents of the file that a path leads to. -/
  readFile : String → m (Except FileError String)
  /-- Write a file, making the directories on the way to it. -/
  writeFile : String → String → m (Except FileError Unit)

/-! ## Paths -/

/-- A part of a path between slashes. -/
inductive Component where
  | root
  | here
  | parent
  | name (text : String)
deriving DecidableEq, Repr

/-- The parts of a text between slashes. -/
def splitSlashes : List Char → List (List Char)
  | [] => [[]]
  | c :: cs =>
    match splitSlashes cs with
    | [] => [[c]]
    | first :: rest => if c = '/' then [] :: first :: rest else (c :: first) :: rest

/-- The name that a component gives. -/
def Component.name? : Component → Option String
  | name text => some text
  | _ => none

/-- The component of a part, if it has any meaning.  A single full stop counts only at the
beginning. -/
def Component.ofPart? (isFirst : Bool) (part : List Char) : Option Component :=
  match part with
  | [] => none
  | ['.'] => if isFirst then some .here else none
  | ['.', '.'] => some .parent
  | part => some (.name (String.ofList part))

/-- The components of a list of parts, each with the number of bytes of the path up to its
end. -/
def componentsFrom (isFirst : Bool) (start : Nat) : List (List Char) → List (Component × Nat)
  | [] => []
  | part :: parts =>
    let stop := start + Text.utf8Length part
    ((Component.ofPart? isFirst part).map (·, stop)).toList ++ componentsFrom false (stop + 1) parts

/-- The components of a path, each with the number of bytes of the path up to its end. -/
def measuredComponents (path : String) : List (Component × Nat) :=
  match splitSlashes path.toList with
  | [] :: part :: parts => (.root, 1) :: componentsFrom false 1 (part :: parts)
  | parts => componentsFrom true 0 parts

/-- The components of a path. -/
def components (path : String) : List Component :=
  (measuredComponents path).map Prod.fst

/-- The number of bytes of a path without its last component. -/
def parentSize (path : String) : Nat :=
  match (measuredComponents path).reverse with
  | _ :: (_, size) :: _ => size
  | _ => 0

/-- The number of bytes from which on a path is too long. -/
def pathLimit : Nat := 4096

/-- How a path ends: in a name, in a slash, or in a full stop that stands for the
directory before it. -/
inductive PathEnd where
  | name
  | slash
  | here
deriving DecidableEq, Repr

/-- The end of a path. -/
def pathEnd (path : String) : PathEnd :=
  match (splitSlashes path.toList).reverse with
  | [] :: parts => if (parts.find? (· ≠ [])) = some ['.'] then .here else .slash
  | ['.'] :: _ => .here
  | _ => .name

/-! ## File trees -/

/-- Where a path starts from: so many levels above the working directory, or the root of
all files. -/
inductive Anchor where
  | above (levels : Nat)
  | root
deriving DecidableEq, Repr

/-- A place that a path leads to: some names from an anchor on. -/
structure Place where
  anchor : Anchor
  names : List String
deriving DecidableEq, Repr

namespace Place

/-- The working directory. -/
def start : Place := ⟨.above 0, []⟩

/-- The place that one component leads to. -/
def follow : Place → Component → Place
  | _, .root => ⟨.root, []⟩
  | place, .here => place
  | ⟨.above levels, []⟩, .parent => ⟨.above (levels + 1), []⟩
  | ⟨anchor, names⟩, .parent => ⟨anchor, names.dropLast⟩
  | ⟨anchor, names⟩, .name text => ⟨anchor, names ++ [text]⟩

end Place

/-- What stands at a place: a file with its text, a directory, or the null device, which takes all
that is written and holds nothing.  Links and permissions are left out. -/
inductive Node where
  | file (contents : String)
  | directory
  | nullDevice
deriving DecidableEq, Repr

/-- What stands at places other than the anchors, which are directories. -/
structure FileTree where
  nodes : List (Place × Node) := []
deriving DecidableEq, Repr, Inhabited

namespace FileTree

/-- What stands at a place. -/
def node? (tree : FileTree) (place : Place) : Option Node :=
  if place.names = [] then some .directory
  else (tree.nodes.find? (·.1 = place)).map Prod.snd

/-- Put a node at a place. -/
def put (tree : FileTree) (place : Place) (node : Node) : FileTree :=
  ⟨tree.nodes.filter (·.1 ≠ place) ++ [(place, node)]⟩

/-- The contents of the files below the working directory, by the names that lead to them. -/
def files (tree : FileTree) : List (List String × String) :=
  tree.nodes.filterMap fun
    | (⟨.above 0, names⟩, .file contents) => some (names, contents)
    | _ => none

/-- The tree without files, but with the null device. -/
def bare : FileTree :=
  ⟨[(⟨.root, ["dev"]⟩, .directory), (⟨.root, ["dev", "null"]⟩, .nullDevice)]⟩

/-- Put a file and the directories on the way to it. -/
def addFile (tree : FileTree) (path contents : String) : FileTree :=
  let names := (components path).filterMap Component.name?
  let ways := ((List.range names.length).map names.take).filter (· ≠ [])
  let tree := ways.foldl (fun tree way => tree.put ⟨.above 0, way⟩ .directory) tree
  tree.put ⟨.above 0, names⟩ (.file contents)

/-- The tree of some files. -/
def ofFiles (files : List (String × String)) : FileTree :=
  files.foldl (fun tree file => tree.addFile file.1 file.2) bare

/-! ### Walking -/

/-- The greatest length of a name in bytes. -/
def nameLimit : Nat := 255

/-- Whether a component is a name that no directory can have. -/
def isOverlong : Component → Bool
  | .name text => nameLimit < text.utf8ByteSize
  | _ => false

/-- A place that is a directory. -/
def directoryAt (tree : FileTree) (place : Place) : Except FileError Unit :=
  match tree.node? place with
  | none => .error .notFound
  | some .directory => .ok ()
  | some _ => .error .notADirectory

/-- Walk on from a place. -/
def walk (tree : FileTree) (place : Place) : List Component → Except FileError Place
  | [] => .ok place
  | component :: rest =>
    match tree.directoryAt place with
    | .error e => .error e
    | .ok () =>
      if isOverlong component then .error .nameTooLong
      else tree.walk (place.follow component) rest

/-- What stands where a path leads to. -/
def resolve (tree : FileTree) (path : String) : Except FileError Node := do
  if path = "" then .error .notFound
  if pathLimit ≤ path.utf8ByteSize then .error .nameTooLong
  let place ← tree.walk .start (components path)
  match tree.node? place with
  | none => .error .notFound
  | some .directory => pure .directory
  | some node => if pathEnd path = .name then pure node else .error .notADirectory

/-! ### Reading and writing -/

/-- Whether a path leads anywhere. -/
def pathExists (tree : FileTree) (path : String) : Bool :=
  (tree.resolve path).isOk

/-- The contents of the file that a path leads to. -/
def readFile (tree : FileTree) (path : String) : Except FileError String := do
  match ← tree.resolve path with
  | .file contents => pure contents
  | .nullDevice => pure ""
  | .directory => .error .isADirectory

/-- Make one directory. -/
def makeDirectory (tree : FileTree) (path : List Component) : Except FileError FileTree := do
  let place ← tree.walk .start path
  match tree.node? place with
  | some _ => .error .alreadyExists
  | none => pure (tree.put place .directory)

/-- Whether a path leads to a directory. -/
def isDirectory (tree : FileTree) (path : List Component) : Bool :=
  match tree.walk .start path with
  | .ok place => tree.node? place = some .directory
  | .error _ => false

/-- Make a directory unless it is there. -/
def ensureDirectory (tree : FileTree) (path : List Component) : FileTree × Except FileError Unit :=
  match tree.makeDirectory path with
  | .ok tree => (tree, .ok ())
  | .error e => (tree, if tree.isDirectory path then .ok () else .error e)

/-- Make the directories of a path, given from its end, as far as they are missing. -/
def makeDirectories (tree : FileTree) : List Component → FileTree × Except FileError Unit
  | [] => (tree, .ok ())
  | last :: before =>
    let path := (last :: before).reverse
    match tree.makeDirectory path with
    | .error .notFound =>
      match makeDirectories tree before with
      | (tree, .ok ()) => tree.ensureDirectory path
      | (tree, .error e) => (tree, .error e)
    | _ => tree.ensureDirectory path

/-- The place where a path has a file be written.  A name with a slash after it stands for
a directory, whatever there is under that name. -/
def placeToWrite (tree : FileTree) (path : String) : Except FileError Place := do
  if path = "" then .error .notFound
  if pathLimit ≤ path.utf8ByteSize then .error .nameTooLong
  match (components path).reverse, pathEnd path with
  | .name _ :: before, .slash =>
    tree.directoryAt (← tree.walk .start before.reverse)
    .error .isADirectory
  | _, ending =>
    let place ← tree.walk .start (components path)
    match tree.node? place, ending with
    | some .directory, _ => .error .isADirectory
    | none, .here => .error .notFound
    | some _, .here => .error .notADirectory
    | _, _ => pure place

/-- Write to the file or device at a place. -/
def writeAt (tree : FileTree) (place : Place) (contents : String) : FileTree :=
  if tree.node? place = some .nullDevice then tree else tree.put place (.file contents)

/-- Write a file, making the directories on the way to it. -/
def writeFile (tree : FileTree) (path contents : String) : FileTree × Except FileError Unit :=
  if pathLimit ≤ parentSize path then (tree, .error .nameTooLong)
  else
    match tree.makeDirectories (components path).reverse.tail with
    | (tree, .error e) => (tree, .error e)
    | (tree, .ok ()) =>
      match tree.placeToWrite path with
      | .error e => (tree, .error e)
      | .ok place => (tree.writeAt place contents, .ok ())

/-- Access to the files of a tree. -/
def access : FileAccess (StateM FileTree) where
  pathExists path := do pure ((← get).pathExists path)
  readFile path := do pure ((← get).readFile path)
  writeFile path contents := fun tree =>
    let (tree, result) := tree.writeFile path contents
    (result, tree)

end FileTree

end GraphCriteria.CommandLine
