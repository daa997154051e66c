/-!
# Paths and access to files

What the program needs of a file system is a few operations. One that fails says why in words. So
the program can run on the real file system and on one that is only a value.

A path is a text whose parts stand between slashes. A path that begins with a slash starts at the
root, any other at the working directory. A part that is empty or a single point leads nowhere else,
two points lead to the directory above.
-/

namespace HotkeyTree

/-- The operations on files, in a monad. -/
class FileSystem (m : Type → Type) where
  /-- Whether there is a file or a directory at a path. -/
  pathExists : String → m Bool
  /-- Reads a file. -/
  readFile : String → m (Except String ByteArray)
  /-- Makes a directory and those above it, as far as they are missing. -/
  createDirectories : String → m (Except String Unit)
  /-- Writes a file anew. -/
  writeFile : String → ByteArray → m (Except String Unit)

namespace Path

/-- The parts of a path, as lists of characters. -/
def splitParts : List Char → List (List Char)
  | [] => [[]]
  | c :: cs =>
    if c = '/' then [] :: splitParts cs
    else match splitParts cs with
      | part :: rest => (c :: part) :: rest
      | [] => [[c]]

/-- The parts of a path. -/
def parts (path : String) : List String := (splitParts path.toList).map String.ofList

/-- Whether a path starts at the root. -/
def isAbsolute (path : String) : Bool := path.toList.head? == some '/'

/-- Whether a part leads nowhere else. -/
def isIdle (part : String) : Bool := part == "" || part == "."

/-- The path with these parts. -/
def ofParts : List String → String
  | [""] => "/"
  | ps => "/".intercalate ps

/-- The paths with a first part and more and more of the parts after it, the longest first. The
parts come in reverse; a path does not end with a part that leads nowhere else. -/
def growing (first : String) : List String → List String
  | [] => [ofParts [first]]
  | part :: above =>
    if isIdle part then growing first above
    else ofParts (first :: (part :: above).reverse) :: growing first above

/-- A path and the directories that it goes through, the innermost first. -/
def lineage (path : String) : List String :=
  match parts path with
  | first :: rest => growing first rest.reverse
  | [] => []

/-- The directories that a path goes through, the innermost first. -/
def above (path : String) : List String := (lineage path).tail

end Path

end HotkeyTree
