/-!
# Hints

A failure is told as a chain of texts, the outermost first. What the chain mentions, in any mixture
of upper and lower case, decides what the user is advised to do. It makes no difference whether the
program itself mentions it or a path or a file that the chain quotes.
-/

namespace HotkeyTree

/-- What the user can do about a failure. -/
inductive Hint where
  /-- Build the document first. -/
  | buildFirst
  /-- Copy the table from the system. -/
  | copyTable
  /-- Name another input. -/
  | otherInput
  /-- Use the table as it is delivered. -/
  | genuineTable
  /-- Check the configuration file. -/
  | checkConfiguration
  /-- Build the document anew. -/
  | buildAgain
deriving DecidableEq, Repr

namespace Hint

/-- Where the system keeps the table. -/
def systemTable : String :=
  "/System/Library/ExtensionKit/Extensions/KeyboardSettings.appex/Contents/Resources/en.lproj/"
    ++ "DefaultShortcutsTable.xml"

/-- The wording of a hint. -/
def text : Hint → String
  | buildFirst => "Run `symkeys build` first to generate the shortcut document."
  | copyTable => "Copy the table from " ++ systemTable ++ " into the data directory."
  | otherInput =>
    "Pass `--input <path>` or set `input` in `symkeys.toml` to use another location."
  | genuineTable => "Make sure the input is the unmodified DefaultShortcutsTable.xml from macOS."
  | checkConfiguration =>
    "Check `symkeys.toml` syntax and key names; valid sections are [build] and [render]."
  | buildAgain =>
    "Regenerate the document with `symkeys build`; it may be from an older version."

/-- Whether a phrase occurs in a text. -/
def occurs (phrase : List Char) : List Char → Bool
  | [] => phrase.isEmpty
  | c :: cs => phrase.isPrefixOf (c :: cs) || occurs phrase cs

/-- Whether a chain of texts mentions a phrase of lower-case letters. A phrase that runs over the
end of a text is not mentioned. -/
def mentions (chain : List String) (phrase : String) : Bool :=
  occurs phrase.toList ((" | ".intercalate chain).toList.map Char.toLower)

/-- The hints on a missing input. -/
def onMissing (chain : List String) : List Hint :=
  if mentions chain "input not found" then
    [if mentions chain "shortcut document" then buildFirst else copyTable, otherInput]
  else []

/-- The hints on an input that is no table. -/
def onTable (chain : List String) : List Hint :=
  if mentions chain "expected an array" || mentions chain "invalid property list" then
    [genuineTable]
  else []

/-- The hints on the configuration file. -/
def onConfiguration (chain : List String) : List Hint :=
  if mentions chain "failed to parse configuration" then [checkConfiguration] else []

/-- The hints on an input that is no document. -/
def onDocument (chain : List String) : List Hint :=
  if mentions chain "invalid shortcut document" then [buildAgain] else []

/-- The hints for a chain of texts. -/
def ofChain (chain : List String) : List Hint :=
  onMissing chain ++ onTable chain ++ onConfiguration chain ++ onDocument chain

end Hint

end HotkeyTree
