import HotkeyTree.Files.Path

/-!
# File trees

A file system as a value: which files and directories there are, and what the files hold. There are
no links, and everything may be read and written.

A path is followed part by part. Every part but the last has to lead to a directory that is there.
-/

namespace HotkeyTree

/-- A place in a file tree: the names that lead to it from the root, the innermost first. -/
abbrev Place := List String

/-- What can be at a place. -/
inductive FileItem where
  /-- A directory. -/
  | directory
  /-- A file. -/
  | file (content : ByteArray)

/-- Whether it is a directory. -/
def FileItem.isDirectory : FileItem → Bool
  | directory => true
  | file _ => false

/-- Files and directories. -/
structure FileTree where
  /-- Where paths that do not begin with a slash start. -/
  workingDirectory : Place := []
  /-- What is at which place; of several items at a place the first one counts. -/
  items : List (Place × FileItem) := []

namespace FileTree

/-- Why an operation on a file tree fails. -/
inductive Fault where
  /-- Nothing is there. -/
  | missing
  /-- Something is there already. -/
  | occupied
  /-- A file is where a directory should be. -/
  | notDirectory
  /-- A directory is where a file should be. -/
  | isDirectory
  /-- A name cannot be that of a file. -/
  | badName
deriving DecidableEq, Repr

/-- The wording of a fault. -/
def Fault.text : Fault → String
  | missing => "no such file or directory"
  | occupied => "something is there already"
  | notDirectory => "not a directory"
  | isDirectory => "is a directory"
  | badName => "not a possible name"

/-- What is at a place. The root is always a directory. -/
def item? (t : FileTree) (p : Place) : Option FileItem :=
  if p = [] then some .directory else t.items.lookup p

/-- The tree with an item at a place. -/
def put (t : FileTree) (p : Place) (i : FileItem) : FileTree :=
  { t with items := (p, i) :: t.items }

/-! ## Following paths -/

/-- Whether a path can be followed at all: it is neither empty nor too long, and holds no zero byte.
-/
def isPath (path : String) : Bool :=
  path != "" && path.utf8ByteSize < 4096 && path.toList.all (· != '\x00')

/-- Follows one part of a path. -/
def follow (t : FileTree) (here : Place) (part : String) : Except Fault Place :=
  match t.item? here with
  | some .directory =>
    if Path.isIdle part then .ok here
    else if part = ".." then .ok here.tail
    else if part.utf8ByteSize ≤ 255 then .ok (part :: here)
    else .error .badName
  | some (.file _) => .error .notDirectory
  | none => .error .missing

/-- Follows the parts of a path. -/
def followAll (t : FileTree) (here : Place) : List String → Except Fault Place
  | [] => .ok here
  | part :: rest => do followAll t (← t.follow here part) rest

/-- The place that a path leads to. -/
def resolve (t : FileTree) (path : String) : Except Fault Place :=
  if isPath path then
    t.followAll (if Path.isAbsolute path then [] else t.workingDirectory) (Path.parts path)
  else .error .badName

/-- What a path leads to. -/
def at? (t : FileTree) (path : String) : Option FileItem :=
  match t.resolve path with
  | .ok p => t.item? p
  | .error _ => none

/-! ## Operations -/

/-- Reads a file. -/
def readFile (t : FileTree) (path : String) : Except Fault ByteArray := do
  match t.item? (← t.resolve path) with
  | some (.file content) => .ok content
  | some .directory => .error .isDirectory
  | none => .error .missing

/-- Writes a file anew. -/
def writeFile (t : FileTree) (path : String) (content : ByteArray) : Except Fault FileTree := do
  let p ← t.resolve path
  match t.item? p with
  | some .directory => .error .isDirectory
  | _ => .ok (t.put p (.file content))

/-- Makes a directory. -/
def createDirectory (t : FileTree) (path : String) : Except Fault FileTree := do
  let p ← t.resolve path
  match t.item? p with
  | some _ => .error .occupied
  | none => .ok (t.put p .directory)

/-- Makes a directory unless there is one. -/
def ensureDirectory (t : FileTree) (path : String) : Except Fault FileTree :=
  match t.createDirectory path with
  | .ok t => .ok t
  | .error fault => if (t.at? path).any FileItem.isDirectory then .ok t else .error fault

/-- Makes the first of some directories, if need be after the others. Also where this fails, some of
the others may have been made. -/
def createDirectories (t : FileTree) : List String → FileTree × Except Fault Unit
  | [] => (t, .ok ())
  | path :: above =>
    match t.ensureDirectory path with
    | .ok t => (t, .ok ())
    | .error .missing =>
      match t.createDirectories above with
      | (t, .ok ()) =>
        match t.ensureDirectory path with
        | .ok t => (t, .ok ())
        | .error fault => (t, .error fault)
      | failed => failed
    | .error fault => (t, .error fault)

/-- A result whose fault is put into words. -/
def worded {α : Type} : Except Fault α → Except String α
  | .ok a => .ok a
  | .error fault => .error fault.text

/-- A file tree as the state of a computation is a file system. -/
instance : FileSystem (StateM FileTree) where
  pathExists path := do return ((← get).at? path).isSome
  readFile path := do return worded ((← get).readFile path)
  createDirectories path := modifyGet fun t =>
    let (t, result) := t.createDirectories (Path.lineage path)
    (worded result, t)
  writeFile path content := modifyGet fun t =>
    match t.writeFile path content with
    | .ok t => (.ok (), t)
    | .error fault => (.error fault.text, t)

end FileTree

end HotkeyTree
