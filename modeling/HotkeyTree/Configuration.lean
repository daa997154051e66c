import HotkeyTree.Rendering
import HotkeyTree.Toml.Reader

/-!
# The configuration file

The configuration is a TOML document with a section for each of the two commands. Sections and
settings may be missing; anything else than the known sections and settings is a fault. A section is
a table of settings, or an array of their values in order, of which those beyond the last setting
are ignored.
-/

namespace HotkeyTree

/-- The settings of the building command. -/
structure BuildSection where
  /-- Where the table is. -/
  input : Option String := none
  /-- Where the document goes. -/
  output : Option String := none
  /-- The version to note. -/
  version : Option String := none
  /-- The source file to note. -/
  generatedFrom : Option String := none
  /-- The remark to note. -/
  note : Option String := none
deriving DecidableEq, Repr

/-- The settings of the rendering command. -/
structure RenderSection where
  /-- Where the document is. -/
  input : Option String := none
  /-- The format. -/
  format : Option Format := none
  /-- Whether the ids of shortcuts are shown. -/
  ids : Option Bool := none
  /-- Whether dynamic shortcuts are marked. -/
  dynamic : Option Bool := none
  /-- What the tree as a whole is called. -/
  root : Option String := none
deriving DecidableEq, Repr

/-- What a configuration file says. -/
structure Configuration where
  /-- The settings of the building command. -/
  build : BuildSection := {}
  /-- The settings of the rendering command. -/
  render : RenderSection := {}
deriving DecidableEq, Repr

/-- The format with this name. -/
def Format.ofName? (name : String) : Option Format :=
  if name = "compact" then some .compact
  else if name = "report" then some .report
  else none

namespace Configuration

open Toml (Fault Placed Slot)

/-! ## Values -/

/-- The fault of a value that stands in the place of another one. -/
def misplaced (v : Placed Toml) : Fault :=
  match v.value with
  | .string s => { line := v.line, text := s }
  | _ => .ofLine v.line

/-- A text. -/
def text (v : Placed Toml) : Except Fault String :=
  match v.value with
  | .string s => .ok s
  | _ => .error (misplaced v)

/-- A truth value. -/
def truth (v : Placed Toml) : Except Fault Bool :=
  match v.value with
  | .bool b => .ok b
  | _ => .error (misplaced v)

/-- Whether a value is an array or a table with nothing in it. -/
def isEmpty : Toml → Bool
  | .array _ items => items.isEmpty
  | .table _ entries => entries.isEmpty
  | _ => false

/-- The format with this name, which begins on this line. -/
def formatNamed (line : Nat) (name : String) : Except Fault Format :=
  match Format.ofName? name with
  | some f => .ok f
  | none => .error { line, text := name }

/-- A format: its name, or a table in which only this name stands, with an empty value. -/
def format (v : Placed Toml) : Except Fault Format :=
  match v.value with
  | .string s => formatNamed v.line s
  | .table _ [(name, slot)] => do
    let f ← formatNamed slot.keyLine name
    if isEmpty slot.value then return f else throw (.ofLine slot.line)
  | _ => .error (misplaced v)

/-! ## Sections -/

/-- One of the settings that are gathered in `α`. -/
structure Setting (α : Type) where
  /-- Its name. -/
  name : String
  /-- Adds the setting as this value gives it. -/
  add : Placed Toml → α → Except Fault α

/-- Adds a setting from an entry of a table. -/
def addEntry {α : Type} (settings : List (Setting α)) (a : α) (e : String × Slot Toml) :
    Except Fault α :=
  match settings.find? (·.name = e.1) with
  | some s => s.add e.2.toPlaced a
  | none => .error { line := e.2.keyLine, text := e.1 }

/-- Adds the settings that a section holds. The entries of a table are looked at in the order of
their keys, so of several faults that of the least key is told. -/
def addSection {α : Type} (settings : List (Setting α)) (v : Placed Toml) (a : α) :
    Except Fault α :=
  match v.value with
  | .table _ entries =>
    (entries.mergeSort fun e f => !(f.1 < e.1)).foldlM (addEntry settings) a
  | .array _ items => (settings.zip items).foldlM (fun a p => p.1.add p.2 a) a
  | _ => .error (misplaced v)

/-- The settings of the building command. -/
def buildSettings : List (Setting BuildSection) :=
  [⟨"input", fun v s => (text v).map fun t => { s with input := t }⟩,
   ⟨"output", fun v s => (text v).map fun t => { s with output := t }⟩,
   ⟨"version", fun v s => (text v).map fun t => { s with version := t }⟩,
   ⟨"generated_from", fun v s => (text v).map fun t => { s with generatedFrom := t }⟩,
   ⟨"note", fun v s => (text v).map fun t => { s with note := t }⟩]

/-- The settings of the rendering command. -/
def renderSettings : List (Setting RenderSection) :=
  [⟨"input", fun v s => (text v).map fun t => { s with input := t }⟩,
   ⟨"format", fun v s => (format v).map fun f => { s with format := f }⟩,
   ⟨"ids", fun v s => (truth v).map fun b => { s with ids := b }⟩,
   ⟨"dynamic", fun v s => (truth v).map fun b => { s with dynamic := b }⟩,
   ⟨"root", fun v s => (text v).map fun t => { s with root := t }⟩]

/-- The sections of a configuration. -/
def sections : List (Setting Configuration) :=
  [⟨"build", fun v c => (addSection buildSettings v {}).map fun s => { c with build := s }⟩,
   ⟨"render", fun v c => (addSection renderSettings v {}).map fun s => { c with render := s }⟩]

/-- Reads a configuration from the text of a file. -/
def parse (text : String) : Except Fault Configuration := do
  let entries ← Toml.parse text
  addSection sections ⟨0, .table .header entries⟩ {}

end Configuration

end HotkeyTree
