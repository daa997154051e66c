import HotkeyTree.CommandLine.Parameter

/-!
# The words of a command line

A word that starts with a dash names options, unless it is a single dash. Two dashes alone end the
options: what follows them are plain words.
-/

namespace HotkeyTree.CommandLine

/-- What a word can be, seen by itself. -/
inductive Word where
  /-- Two dashes alone. -/
  | endOfOptions
  /-- A name after two dashes, with the text after the first equals sign if there is one. -/
  | long (name : String) (value : Option String)
  /-- Letters after one dash. -/
  | short (letters : List Char)
  /-- Any other word. -/
  | plain (text : String)
deriving DecidableEq, Repr

namespace Word

/-- Splits what follows two dashes at the first equals sign. -/
def ofLong (cs : List Char) : Word :=
  match cs.dropWhile (· != '=') with
  | [] => .long (String.ofList cs) none
  | _ :: value => .long (String.ofList (cs.takeWhile (· != '='))) (some (String.ofList value))

/-- What a word is. -/
def ofString (w : String) : Word :=
  match w.toList with
  | ['-', '-'] => .endOfOptions
  | '-' :: '-' :: cs => ofLong cs
  | '-' :: c :: cs => .short (c :: cs)
  | _ => .plain w

/-- The value that stands right after a letter: what follows, without an equals sign that leads it.
Where nothing follows there is none. -/
def attached? : List Char → Option String
  | [] => none
  | '=' :: cs => some (String.ofList cs)
  | cs => some (String.ofList cs)

end Word

end HotkeyTree.CommandLine
