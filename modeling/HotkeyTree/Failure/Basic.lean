import HotkeyTree.Failure.Hint
import HotkeyTree.VendorTable

/-!
# Failures

A command fails for one of a few reasons, each about a file. A reason that comes from below, from
the file system or from a reader, is kept as its cause, in words that may quote the file. A failure
is told as a chain of texts that goes from what failed to why, followed by the hints that the chain
gives rise to.
-/

namespace HotkeyTree

/-- Why a command failed. -/
inductive Failure where
  /-- The table is not there. -/
  | missingTable (path : String)
  /-- The document is not there. -/
  | missingDocument (path : String)
  /-- The configuration file cannot be read or understood. -/
  | brokenConfiguration (path cause : String)
  /-- A file cannot be read. -/
  | unreadable (path cause : String)
  /-- What should be a table is no property list. -/
  | notPropertyList (path cause : String)
  /-- What should be a table is a property list, but no array. -/
  | notArray (path : String)
  /-- What should be a document is none. -/
  | notDocument (path cause : String)
  /-- A directory cannot be made. -/
  | noDirectory (path cause : String)
  /-- A file cannot be written. -/
  | unwritable (path cause : String)
deriving DecidableEq, Repr

namespace Failure

/-- The chain of texts from what failed to why. -/
def chain : Failure → List String
  | missingTable path => ["input not found: shortcut table " ++ path]
  | missingDocument path => ["input not found: shortcut document " ++ path]
  | brokenConfiguration path cause => ["Failed to parse configuration " ++ path, cause]
  | unreadable path cause => ["Failed to read " ++ path, cause]
  | notPropertyList path cause =>
    ["Failed to parse " ++ path, VendorTable.Fault.notPropertyList.text, cause]
  | notArray path => ["Failed to parse " ++ path, VendorTable.Fault.notArray.text]
  | notDocument path cause => ["invalid shortcut document " ++ path, cause]
  | noDirectory path cause => ["Failed to create directory " ++ path, cause]
  | unwritable path cause => ["Failed to write " ++ path, cause]

/-- The list of hints, if there are any. -/
def hintsText : List Hint → String
  | [] => ""
  | hints => "\n\nHints:\n" ++ String.join (hints.map fun h => "- " ++ h.text ++ "\n")

/-- How a chain of texts is told. -/
def textOf (chain : List String) : String :=
  "Error: " ++ ": ".intercalate chain ++ hintsText (Hint.ofChain chain)

/-- How a failure is told. -/
def text (f : Failure) : String := textOf f.chain

end Failure

end HotkeyTree
