import HotkeyTree.Basic

/-!
# Property lists

The value that a property-list file holds. Real numbers, dates, data and unique ids are told apart
but carry nothing: no attribute of a vendor node has one of these types.
-/

namespace HotkeyTree

/-- A property list. -/
inductive PropertyList where
  /-- A text. -/
  | string (s : String)
  /-- An integer. -/
  | integer (i : Int)
  /-- A real number. -/
  | real
  /-- A truth value. -/
  | bool (b : Bool)
  /-- A point in time. -/
  | date
  /-- Bytes. -/
  | data
  /-- A unique id. -/
  | uid
  /-- A sequence. -/
  | array (items : List PropertyList)
  /-- A dictionary. -/
  | dict (entries : List (String × PropertyList))
deriving Repr

end HotkeyTree
