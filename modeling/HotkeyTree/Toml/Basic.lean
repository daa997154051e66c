import HotkeyTree.Basic
import HotkeyTree.Text.Quoted

/-!
# TOML values

A TOML document is a table of values. How a table came to be decides whether it may still grow, so
that is part of the value. Numbers and dates are told apart from the rest but carry nothing: no
setting has one of these types.

Values and the keys of tables know the line on which they begin, so that a fault can be told with
that line. Lines are counted from zero.
-/

namespace HotkeyTree

/-- How a table came to be. -/
inductive Toml.Origin where
  /-- It was written between braces; it never grows. -/
  | inline
  /-- It has a header of its own, or is the document. -/
  | header
  /-- A header names a table inside it; it may still get a header. -/
  | implied
  /-- Dotted keys put values into it; only dotted keys may add more. -/
  | dotted
deriving DecidableEq, Repr

/-- Something with the line on which it begins. -/
structure Toml.Placed (α : Type) where
  /-- The line. -/
  line : Nat
  /-- What begins there. -/
  value : α
deriving Repr

/-- What a table has under a key. -/
structure Toml.Slot (α : Type) extends Toml.Placed α where
  /-- The line on which the key begins. -/
  keyLine : Nat
deriving Repr

/-- A TOML value. -/
inductive Toml where
  /-- A text. -/
  | string (s : String)
  /-- A truth value. -/
  | bool (b : Bool)
  /-- An integer. -/
  | integer
  /-- A floating-point number. -/
  | float
  /-- A date, a time of day, or both. -/
  | moment
  /-- An array; `ofHeaders` if its items are the tables of headers in double brackets. -/
  | array (ofHeaders : Bool) (items : List (Toml.Placed Toml))
  /-- A table. -/
  | table (origin : Toml.Origin) (entries : List (String × Toml.Slot Toml))
deriving Repr

/-- Why a document cannot be read. -/
structure Toml.Fault where
  /-- The line, if it lies in one. -/
  line : Option Nat := none
  /-- The text that stands in the place of something else, if that is the fault. -/
  text : Option String := none
deriving DecidableEq, Repr

namespace Toml.Fault

/-- A fault in a line. -/
def ofLine (line : Nat) : Fault := { line }

/-- How a fault in this document is told: with the line. -/
def describe (document : String) (f : Fault) : String :=
  let place := match f.line with
    | some n => "line " ++ toString (n + 1) ++ ": " ++ (document.splitOn "\n").getD n ""
    | none => "a key has too many parts"
  match f.text with
  | some s => place ++ ": " ++ Text.quoted s ++ " cannot stand there"
  | none => place

end Toml.Fault

end HotkeyTree
