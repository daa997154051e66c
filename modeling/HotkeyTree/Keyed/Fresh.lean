import HotkeyTree.DisplayName
import HotkeyTree.Basic

/-!
# Inserting under a fresh key

An entry that knows its own key is inserted under it. If the key is taken, the entry is stored under
a longer one instead: the key followed by a suffix made from the entry's source identifier, or by
its numeric id, or else by the first number from 2 on that is free. The entry's own key then
follows, and the change is reported.
-/

namespace HotkeyTree

/-- Entries that carry the key they are stored under. -/
class HasKey (α : Type) where
  /-- The entry's own key. -/
  key : α → String
  /-- The entry under another key. -/
  withKey : α → String → α

namespace Keyed

variable {α : Type}

/-- What an entry offers for telling its key from others of the same name. -/
structure Hints where
  /-- Its source identifier, if it has one. -/
  sourceIdentifier : Option String := none
  /-- Its numeric id, if it has one. -/
  id : Option Int64 := none
deriving DecidableEq, Repr

/-- An entry stored under another key than its own. -/
structure Renaming where
  /-- The key that was taken. -/
  taken : String
  /-- The key used instead. -/
  stored : String
deriving DecidableEq, Repr

/-- How a renaming is reported. -/
def Renaming.message (r : Renaming) : String :=
  "key '" ++ r.taken ++ "' already taken, stored as '" ++ r.stored ++ "'"

/-- The part of an identifier after its last point. -/
def lastSegment (cs : List Char) : List Char := (cs.reverse.takeWhile (· != '.')).reverse

/-- The characters with the first in upper case, if it is an ASCII letter. -/
def capitalized : List Char → List Char
  | [] => []
  | c :: cs => c.toUpper :: cs

/-- The suffix made from a source identifier: the key of its last segment, capitalized. -/
def identifierSuffix (identifier : String) : String :=
  String.ofList (capitalized (DisplayName.keyChars (lastSegment identifier.toList)))

/-- The suffixes that the hints offer, in the order they are tried. -/
def Hints.suffixes (h : Hints) : List String :=
  ((h.sourceIdentifier.map identifierSuffix).filter (· ≠ "")).toList
    ++ (h.id.map fun i => toString i.toInt).toList

/-- The base followed by the first number, from `n` on, under which nothing is stored; the search
ends after as many numbers as the first argument says. -/
def numbered (m : Keyed α) (base : String) : Nat → Nat → String
  | 0, n => base ++ toString n
  | fuel + 1, n =>
    if m.has (base ++ toString n) then numbered m base fuel (n + 1) else base ++ toString n

/-- The key to store under when `base` is taken: of the hinted keys the first that is free, else the
first free numbered one. Numbers up to one more than the size of the mapping are tried, one of which
is free. -/
def freshKey (m : Keyed α) (base : String) (h : Hints) : String :=
  ((h.suffixes.map (base ++ ·)).find? (!m.has ·)).getD (numbered m base m.length 2)

/-- Appends an entry under its own key, or under a fresh one if that is taken. -/
def insertFresh [HasKey α] (m : Keyed α) (entry : α) (h : Hints) : Keyed α × Option Renaming :=
  let base := HasKey.key entry
  if m.has base then
    let stored := freshKey m base h
    (m ++ [(stored, HasKey.withKey entry stored)], some ⟨base, stored⟩)
  else (m ++ [(base, entry)], none)

end Keyed

end HotkeyTree
