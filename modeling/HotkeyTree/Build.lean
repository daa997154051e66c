import HotkeyTree.Node.Verdict
import HotkeyTree.Tree

/-!
# From nodes to the tree

Every top-level node with a name and an identifier becomes a category, every node below it what its
verdict says, in the order of the nodes. Entries go into their mapping under a fresh key. A node is
dropped when nothing can be made of it: a group without entries, or an entry without a key, goes the
way of a node without a name.

The tree comes with the events of its making: a node dropped, with the reason, or an entry stored
under another key than its own. The renamings are the warnings.
-/

namespace HotkeyTree

/-- Which mapping an entry goes into. -/
inductive Scope where
  /-- The categories of the tree. -/
  | categories
  /-- A mapping of the category with this key. -/
  | category (key : String)
  /-- The entries of a group with this key. -/
  | group (key : String)
deriving DecidableEq, Repr

/-- How a mapping is named. -/
def Scope.text : Scope → String
  | categories => "categories"
  | category key => "category '" ++ key ++ "'"
  | group key => "group '" ++ key ++ "'"

/-- What happened while the tree was built. -/
inductive Event where
  /-- Nothing was made of a node. -/
  | dropped (node : Node.Attributes) (reason : DropReason)
  /-- An entry was stored under another key than its own. -/
  | renamed (scope : Scope) (change : Keyed.Renaming)
deriving DecidableEq, Repr

/-- The warning that an event gives rise to. -/
def Event.warning? : Event → Option String
  | dropped .. => none
  | renamed scope r => some (scope.text ++ ": " ++ r.message)

namespace Build

/-- What is used to tell a shortcut's key from others. -/
def shortcutHints (s : Shortcut) : Keyed.Hints := ⟨s.sourceIdentifier, some s.id⟩

/-- What is used to tell a group's key from others: its identifier, unless it is empty. -/
def groupHints (g : Group) : Keyed.Hints :=
  ⟨if g.sourceIdentifier = "" then none else some g.sourceIdentifier, none⟩

/-- What is used to tell a category's key from others. -/
def categoryHints (c : Category) : Keyed.Hints := ⟨some c.sourceIdentifier, none⟩

/-- What is used to tell an entry's key from others. -/
def entryHints : Entry → Keyed.Hints
  | .shortcut s => shortcutHints s
  | .group g => groupHints g

/-- Inserts an entry under a fresh key and reports a renaming. -/
def store {α : Type} [HasKey α] (scope : Scope) (m : Keyed α) (entry : α) (h : Keyed.Hints) :
    Keyed α × List Event :=
  let (m, change) := m.insertFresh entry h
  (m, (change.map (.renamed scope)).toList)

/-- The shortcut made from a node with a name and a hotkey id. -/
def shortcutOf (n : Node) : Except DropReason Shortcut :=
  match n.nonEmptyName, n.hotkeyId with
  | some name, some id =>
    if DisplayName.key name = "" then .error .emptyKey
    else .ok
      { id
        name := DisplayName.clean name
        key := DisplayName.key name
        defaultKey := n.key
        defaultModifier := n.modifier
        defaultCharKey := n.charKey
        defaultEnabled := n.enabled
        slowId := n.slowHotkeyId
        sourceIdentifier := n.identifier
        dynamic := n.dynamic }
  | _, _ => .error .noHotkey

/-- The shortcut made from a node, or the report that it was dropped. -/
def shortcutOrDrop (n : Node) : Option Shortcut × List Event :=
  match shortcutOf n with
  | .ok s => (some s, [])
  | .error r => (none, [.dropped n.toAttributes r])

/-- The group made from a node whose container part is given, dropped if it has no key. -/
def keyedOrDrop (n : Node) (made : Option Group × List Event) : Option Group × List Event :=
  match made with
  | (some g, es) =>
    if g.key = "" then (none, es ++ [.dropped n.toAttributes .emptyKey]) else (some g, es)
  | (none, es) => (none, es)

/-- What a child of a group becomes; `asGroup` is what it becomes as a container. -/
def entryOf (n : Node) (asGroup : Unit → Option Group × List Event) : Option Entry × List Event :=
  match n.verdict .groupChild with
  | .shortcut =>
    let (s, es) := shortcutOrDrop n
    (s.map .shortcut, es)
  | .container =>
    let (g, es) := keyedOrDrop n (asGroup ())
    (g.map .group, es)
  | .dropped r => (none, [.dropped n.toAttributes r])

/-- Stores an entry of a group, if there is one. -/
def storeEntry (scope : Scope) (m : Keyed Entry) : Option Entry → Keyed Entry × List Event
  | some e => store scope m e (entryHints e)
  | none => (m, [])

mutual

/-- The group made from a container: it needs a name and at least one entry. -/
def groupOf : Node → Option Group × List Event
  | ⟨attributes, children⟩ =>
    match attributes.name.filter (· ≠ "") with
    | none => (none, [.dropped attributes .missingName])
    | some name =>
      match children with
      | none => (none, [.dropped attributes .emptyContainer])
      | some nodes =>
        let (entries, es) := entriesOf (.group (DisplayName.key name)) [] nodes
        if entries.isEmpty then (none, es ++ [.dropped attributes .emptyContainer])
        else
          (some
            { name := DisplayName.clean name
              key := DisplayName.key name
              sourceIdentifier := attributes.identifier.getD ""
              entries }, es)
termination_by structural n => n

/-- The entries of a group after its children, in order, have been added to those it has. -/
def entriesOf (scope : Scope) (m : Keyed Entry) : List Node → Keyed Entry × List Event
  | [] => (m, [])
  | n :: ns =>
    let (entry, made) := entryOf n fun _ => groupOf n
    let (m, stored) := storeEntry scope m entry
    let (m, later) := entriesOf scope m ns
    (m, made ++ stored ++ later)
termination_by structural ns => ns

end

/-- Adds a child of a category to it. -/
def addToCategory (scope : Scope) (c : Category) (n : Node) : Category × List Event :=
  match n.verdict .categoryChild with
  | .shortcut =>
    match shortcutOrDrop n with
    | (some s, es) =>
      let (shortcuts, stored) := store scope c.shortcuts s (shortcutHints s)
      ({ c with shortcuts }, es ++ stored)
    | (none, es) => (c, es)
  | .container =>
    match keyedOrDrop n (groupOf n) with
    | (some g, es) =>
      let (subgroups, stored) := store scope c.subgroups g (groupHints g)
      ({ c with subgroups }, es ++ stored)
    | (none, es) => (c, es)
  | .dropped r => (c, [.dropped n.toAttributes r])

/-- Adds nodes one after the other and chains the events. -/
def addEach {σ : Type} (add : σ → Node → σ × List Event) (s : σ) : List Node → σ × List Event
  | [] => (s, [])
  | n :: ns =>
    let (s, es) := add s n
    let (s, later) := addEach add s ns
    (s, es ++ later)

/-- The category made from a top-level node. Its key may still be empty. -/
def categoryOf (n : Node) : Option Category × List Event :=
  match n.nonEmptyName, n.nonEmptyIdentifier with
  | none, _ => (none, [.dropped n.toAttributes .missingName])
  | some _, none => (none, [.dropped n.toAttributes .missingIdentifier])
  | some name, some identifier =>
    let key := DisplayName.key name
    let empty := { name := DisplayName.clean name, key, sourceIdentifier := identifier }
    let (c, es) := addEach (addToCategory (.category key)) empty n.childNodes
    (some c, es)

/-- Adds the category made from a top-level node, if it has a key. -/
def addCategory (m : Keyed Category) (n : Node) : Keyed Category × List Event :=
  match categoryOf n with
  | (some c, es) =>
    if c.key = "" then (m, es ++ [.dropped n.toAttributes .emptyKey])
    else
      let (m, stored) := store .categories m c (categoryHints c)
      (m, es ++ stored)
  | (none, es) => (m, es)

end Build

/-- A tree and the events of its making. -/
structure Build where
  /-- The tree. -/
  categories : Keyed Category
  /-- What happened, in order. -/
  events : List Event

namespace Build

/-- The tree made from a forest of nodes. -/
def ofNodes (ns : List Node) : Build :=
  let (categories, events) := addEach addCategory [] ns
  { categories, events }

/-- The renamings, worded. -/
def warnings (b : Build) : List String := b.events.filterMap Event.warning?

end Build

/-! ## Provenance -/

namespace Document

/-- The version noted when none is given. -/
def defaultVersion : String := "macOS 15.x (Sequoia)"

/-- The source file noted when none is given. -/
def defaultGeneratedFrom : String := "DefaultShortcutsTable.xml"

/-- The remark noted when none is given. -/
def defaultNote : String := "Generated by symkeys build. Do not edit manually."

/-- The document of a tree that notes nothing particular about its source. -/
def ofCategories (categories : Keyed Category) : Document :=
  { version := defaultVersion
    generatedFrom := defaultGeneratedFrom
    note := defaultNote
    categories }

end Document

end HotkeyTree
