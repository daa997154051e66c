import HotkeyTree.Keyed.Fresh

/-!
# The tree of shortcuts

Categories hold shortcuts and groups; groups hold shortcuts and further groups, mixed in one
mapping. Every category, group and shortcut carries its name and the key that was made from it. A
document is the tree with the notes on where it comes from.
-/

namespace HotkeyTree

/-- A shortcut. -/
structure Shortcut where
  /-- The hotkey id. -/
  id : Int64
  /-- The name a reader is shown. -/
  name : String
  /-- Its key. -/
  key : String
  /-- The default key. -/
  defaultKey : Option String := none
  /-- The default modifier keys, as a bit mask. -/
  defaultModifier : Option Int64 := none
  /-- The character of the default key. -/
  defaultCharKey : Option String := none
  /-- Whether it is enabled by default. -/
  defaultEnabled : Option Bool := none
  /-- The id of its slow-motion variant. -/
  slowId : Option Int64 := none
  /-- The vendor's identifier of the node it was made from. -/
  sourceIdentifier : Option String := none
  /-- Whether it is created at run time, if the vendor says so. -/
  dynamic : Option Bool := none
deriving DecidableEq, Repr

/-- Whether a shortcut is created at run time; it is not unless the vendor says so. -/
def Shortcut.isDynamic (s : Shortcut) : Bool := s.dynamic.getD false

mutual

/-- An entry of a group. -/
inductive Entry where
  /-- A shortcut. -/
  | shortcut (s : Shortcut)
  /-- A group inside the group. -/
  | group (g : Group)
deriving Repr

/-- A group of shortcuts and further groups. -/
structure Group where
  /-- The name a reader is shown. -/
  name : String
  /-- Its key. -/
  key : String
  /-- The vendor's identifier, empty if there is none. -/
  sourceIdentifier : String
  /-- What it holds. -/
  entries : List (String × Entry)
deriving Repr

end

/-- A category: the top level of the tree. -/
structure Category where
  /-- The name a reader is shown. -/
  name : String
  /-- Its key. -/
  key : String
  /-- The vendor's identifier. -/
  sourceIdentifier : String
  /-- The shortcuts directly below it. -/
  shortcuts : Keyed Shortcut := []
  /-- The groups below it. -/
  subgroups : Keyed Group := []
deriving Repr

/-- The tree with the notes on where it comes from. -/
structure Document where
  /-- The version of the source. -/
  version : String
  /-- The name of the file it was made from. -/
  generatedFrom : String
  /-- A remark for readers of the file. -/
  note : String
  /-- The tree. -/
  categories : Keyed Category
deriving Repr

/-- The key of an entry. -/
def Entry.key : Entry → String
  | .shortcut s => s.key
  | .group g => g.key

/-- The name of an entry. -/
def Entry.name : Entry → String
  | .shortcut s => s.name
  | .group g => g.name

instance : HasKey Shortcut where
  key := Shortcut.key
  withKey s k := { s with key := k }

instance : HasKey Group where
  key := Group.key
  withKey g k := { g with key := k }

instance : HasKey Category where
  key := Category.key
  withKey c k := { c with key := k }

instance : HasKey Entry where
  key := Entry.key
  withKey
    | .shortcut s, k => .shortcut { s with key := k }
    | .group g, k => .group { g with key := k }

end HotkeyTree
