import HotkeyTree.Node.Basic

/-!
# What a node becomes

A node below a category or a group becomes a shortcut, becomes a container of further nodes, or is
dropped for a reason. Directly below a category a node with a child list and no hotkey id is always
a container, even if the list is empty or the node has no name; whether anything usable is in it
shows later. Everywhere else a node needs a name, must not be a mere label, and is a shortcut as
soon as it has a hotkey id, whatever is below it.
-/

namespace HotkeyTree

/-- Where a node stands. -/
inductive Position where
  /-- Directly below a category. -/
  | categoryChild
  /-- Below a group. -/
  | groupChild
deriving DecidableEq, Repr

/-- Why a node is dropped. -/
inductive DropReason where
  /-- It has no name. -/
  | missingName
  /-- It is at the top level and has no identifier. -/
  | missingIdentifier
  /-- It is only a label. -/
  | displayOnly
  /-- It has neither a hotkey id nor children. -/
  | noHotkey
  /-- It is a container of which nothing remains. -/
  | emptyContainer
  /-- No key can be made from its name. -/
  | emptyKey
deriving DecidableEq, Repr

/-- The wording of a reason. -/
def DropReason.text : DropReason → String
  | missingName => "missing name"
  | missingIdentifier => "missing identifier"
  | displayOnly => "display-only node"
  | noHotkey => "no hotkey id and no children"
  | emptyContainer => "container without usable children"
  | emptyKey => "display name yields an empty key"

/-- What a node becomes. -/
inductive Verdict where
  /-- A shortcut. -/
  | shortcut
  /-- A container of further nodes. -/
  | container
  /-- Nothing. -/
  | dropped (reason : DropReason)
deriving DecidableEq, Repr

/-- Judges a node by its position. -/
def Node.verdict (n : Node) (position : Position) : Verdict :=
  if position = .categoryChild ∧ n.children.isSome ∧ n.hotkeyId.isNone then .container
  else if n.nonEmptyName.isNone then .dropped .missingName
  else if n.isDisplayOnly then .dropped .displayOnly
  else if n.hotkeyId.isSome then .shortcut
  else if !n.childNodes.isEmpty then .container
  else .dropped .noHotkey

end HotkeyTree
