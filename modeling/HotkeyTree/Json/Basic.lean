/-!
# JSON values

A value as it stands in a text: members in the order written, repeated names kept, numbers by their
digits. A string literal may hold an escape for a surrogate without its partner, which stands for no
character; such a literal is well formed as syntax and has no text.
-/

namespace HotkeyTree

/-- A number as written. -/
structure Json.Number where
  /-- Whether it begins with a minus sign. -/
  negative : Bool
  /-- The digits before the point: one zero, or digits that do not begin with zero. -/
  whole : List Char
  /-- The digits after the point; empty when there is no point. -/
  fraction : List Char
  /-- The exponent, when there is one. -/
  exponent : Option Int
deriving DecidableEq, Repr

/-- The text of a string literal; `none` when it holds an unpaired surrogate escape. -/
abbrev Json.Literal := Option String

/-- A JSON value. -/
inductive Json where
  /-- `null`. -/
  | null
  /-- `true` or `false`. -/
  | bool (b : Bool)
  /-- A number. -/
  | number (n : Json.Number)
  /-- A string. -/
  | string (s : Json.Literal)
  /-- An array. -/
  | array (items : List Json)
  /-- An object: its members in the order written. -/
  | object (members : List (Json.Literal × Json))
deriving Repr

end HotkeyTree
