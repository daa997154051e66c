import HotkeyTree.Toml.Scalar
import HotkeyTree.Toml.Statement
import HotkeyTree.Toml.Table
import HotkeyTree.Toml.Text

/-!
# Reading TOML

A document is read in two passes. The first splits it into statements; the second reads their keys
and values and lets the table of the document grow by them. An entry belongs to the table of the
last header. A fault is told with its line, and one of the first pass comes before any other.
-/

namespace HotkeyTree.Toml

/-! ## Keys and values -/

/-- How many parts a key may have. -/
def maxKeyParts : Nat := 80

/-- The line of a key. -/
def Key.line (k : Key) : Nat := (k.head?.map Token.line).getD 0

/-- The path that a key writes. A part too much belongs to no line. -/
def Key.path (k : Key) : Except Fault (List String) := do
  let path ← (k.take maxKeyParts).mapM Token.keyPart
  if maxKeyParts < k.length then throw {}
  return path

/-- The value of a token. -/
def Token.toValue (t : Token) : Except Fault Toml :=
  match t.kind with
  | .quoted quote _ closed => (t.string quote closed).map .string
  | _ =>
    match scalar? t.text with
    | some v => .ok v
    | none => .error (.ofLine t.line)

/-- What a change makes of a table, or the fault of a key on this line where it makes nothing. -/
def changed (line : Nat) : Option Growing → Except Fault Growing
  | some t => .ok t
  | none => .error (.ofLine line)

namespace Expression

mutual

/-- The value that an expression writes. -/
def read : Expression → Except Fault (Placed Toml)
  | .scalar t => t.toValue.map (⟨t.line, ·⟩)
  | .array line items => (readItems items).map (⟨line, .array false ·⟩)
  | .table line entries => (readEntries (.inline, []) entries).map (·.placed line)
termination_by structural e => e

/-- The values that expressions write. -/
def readItems : List Expression → Except Fault (List (Placed Toml))
  | [] => .ok []
  | e :: es => do return (← read e) :: (← readItems es)
termination_by structural es => es

/-- A table with the entries between braces added. -/
def readEntries (t : Growing) : List (Key × Expression) → Except Fault Growing
  | [] => .ok t
  | e :: es => do readEntries (← readEntry t e) es
termination_by structural es => es

/-- A table with an entry between braces added. -/
def readEntry (t : Growing) : Key × Expression → Except Fault Growing
  | (k, e) => do
    let path ← k.path
    let v ← read e
    changed k.line (assignPath path k.line v t)
termination_by structural e => e

end

end Expression

/-! ## Documents -/

/-- How far a document is read. -/
structure Reader where
  /-- The table of the document so far. -/
  table : Growing := (.header, [])
  /-- The path of the last header, empty before the first. -/
  header : List String := []
  /-- The fault of the last header, if it is in double brackets and cannot have a table. It counts
  after those of the entries that follow the header. -/
  fault : Option Fault := none

namespace Reader

/-- Goes on after the entries of a header. -/
def leaveHeader (r : Reader) : Except Fault Reader :=
  match r.fault with
  | some f => .error f
  | none => .ok r

/-- Takes in a header with this path on this line. -/
def openHeader (r : Reader) (double : Bool) (line : Nat) (path : List String) :
    Except Fault Reader :=
  let change := (if double then openItem else openTable) (path.getLastD "") line
  match within false line change path.dropLast r.table with
  | some table => .ok { table, header := path }
  | none => if double then .ok { fault := some (.ofLine line) } else .error (.ofLine line)

/-- Takes in a statement. -/
def take (r : Reader) : Statement → Except Fault Reader
  | .header double line key => do
    let r ← r.leaveHeader
    r.openHeader double line (← key.path)
  | .entry key value => do
    let path ← key.path
    let v ← value.read
    let table ← changed key.line
      (within false key.line (assignPath path key.line v) r.header r.table)
    return { r with table }

end Reader

/-- The text without a byte order mark in front. -/
def dropByteOrderMark : List Char → List Char
  | '\uFEFF' :: cs => cs
  | cs => cs

/-- Reads a document: its entries. -/
def parse (text : String) : Except Fault (Keyed (Slot Toml)) := do
  let statements ←
    (Statement.ofTokens (tokens (dropByteOrderMark text.toList))).mapError Fault.ofLine
  let r ← statements.foldlM Reader.take {}
  return (← r.leaveHeader).table.2

end HotkeyTree.Toml
