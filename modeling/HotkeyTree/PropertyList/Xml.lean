import HotkeyTree.PropertyList.Binary
import HotkeyTree.PropertyList.Markup
import HotkeyTree.Text.Blank

/-!
# Property lists in XML, and files

The value is built from the markup in one pass, with a stack of the elements that are open. Arrays
and dictionaries hold values, scalars hold text only. The wrapper around the whole, and the elements
of the truth values, count as blank: a truth value stands where its element begins. There is exactly
one value at the top, and between elements there are only blanks. A reference with an unknown name
adds nothing to the text of a scalar.

A file is in binary form if it begins with the mark of that form, and in XML otherwise. It has at
least as many bytes as the mark.
-/

namespace HotkeyTree.PropertyList

namespace Xml

/-- The elements that hold text. -/
inductive TextElement where
  /-- A text, or a key of a dictionary. -/
  | string
  /-- An integer. -/
  | integer
  /-- A real number. -/
  | real
  /-- A date. -/
  | date
  /-- Data. -/
  | data
deriving DecidableEq, Repr

/-- An element that is open. -/
inductive Open where
  /-- An element that only contains others. -/
  | wrapper
  /-- An array with its items so far, the last one first. -/
  | array (done : List PropertyList)
  /-- A dictionary with its entries so far and the key that waits for its value. -/
  | dict (done : Keyed PropertyList) (key : Option String)
  /-- An element that holds text, with the text so far. -/
  | text (element : TextElement) (cs : List Char)

/-- How far a property list is read. -/
structure Reader where
  /-- The elements that are open, with their names, innermost first. -/
  stack : List (List Char × Open)
  /-- The value at the top, once it is complete. -/
  result : Option PropertyList

namespace Reader

/-- Puts a value into the innermost array or dictionary, or to the top. In a dictionary keys, which
are texts, and values take turns. -/
def place (v : PropertyList) : List (List Char × Open) → Option PropertyList → Option Reader
  | [], none => some ⟨[], some v⟩
  | [], some _ => none
  | (name, .wrapper) :: stack, result => do
    let r ← place v stack result
    some { r with stack := (name, .wrapper) :: r.stack }
  | (name, .array done) :: stack, result => some ⟨(name, .array (v :: done)) :: stack, result⟩
  | (name, .dict done (some k)) :: stack, result =>
    some ⟨(name, .dict (done.put k v) none) :: stack, result⟩
  | (name, .dict done none) :: stack, result =>
    match v with
    | .string k => some ⟨(name, .dict done (some k)) :: stack, result⟩
    | _ => none
  | (_, .text ..) :: _, _ => none

/-- The value of an element that held this text. -/
def scalar? (element : TextElement) (cs : List Char) : Option PropertyList :=
  match element with
  | .string => some (.string (String.ofList cs))
  | .integer => (Scalar.integer? cs).map .integer
  | .real => if Scalar.isReal cs then some .real else none
  | .date => if Scalar.isDate cs then some .date else none
  | .data => if Scalar.isData cs then some .data else none

/-- What an element with this name is, apart from the truth values. -/
def element? (name : String) : Option Open :=
  match name with
  | "plist" => some .wrapper
  | "array" => some (.array [])
  | "dict" => some (.dict [] none)
  | "key" | "string" => some (.text .string [])
  | "integer" => some (.text .integer [])
  | "real" => some (.text .real [])
  | "date" => some (.text .date [])
  | "data" => some (.text .data [])
  | _ => none

/-- The truth value that an element with this name stands for. -/
def truth? (name : String) : Option Bool :=
  match name with
  | "true" => some true
  | "false" => some false
  | _ => none

/-- Whether the innermost element holds text. -/
def inText (r : Reader) : Bool :=
  match r.stack with
  | (_, .text ..) :: _ => true
  | _ => false

/-- Begins an element. -/
def start (r : Reader) (name : List Char) : Option Reader :=
  let kind := String.ofList (Markup.localName name)
  if r.inText then none
  else match truth? kind with
    | some b => do
      let r ← place (.bool b) r.stack r.result
      some { r with stack := (name, .wrapper) :: r.stack }
    | none => do
      let e ← element? kind
      some { r with stack := (name, e) :: r.stack }

/-- Ends the innermost element, which must have this name. -/
def finish (r : Reader) (name : List Char) : Option Reader :=
  match r.stack with
  | [] => none
  | (openName, e) :: stack =>
    if openName ≠ name then none
    else match e with
      | .wrapper => some { r with stack }
      | .array done => place (.array done.reverse) stack r.result
      | .dict done none => place (.dict done) stack r.result
      | .dict _ (some _) => none
      | .text element cs => do place (← scalar? element cs) stack r.result

/-- Takes in a text. -/
def addText (r : Reader) (cs : List Char) : Option Reader :=
  match r.stack with
  | (name, .text element before) :: stack =>
    some { r with stack := (name, .text element (before ++ cs)) :: stack }
  | _ => if cs.all Text.isBlank then some r else none

/-- Takes in a reference that stands for nothing known: it adds nothing to a scalar, and may stand
nowhere else. -/
def addUnknown (r : Reader) : Option Reader := if r.inText then some r else none

/-- Takes in a piece of markup. -/
def step (r : Reader) : Markup → Option Reader
  | .opening name => r.start name
  | .closing name => r.finish name
  | .text cs => r.addText cs
  | .unknown => r.addUnknown

/-- The value read, if it is complete. -/
def value? (r : Reader) : Option PropertyList :=
  if r.stack.all fun e => match e.2 with
    | .wrapper => true
    | _ => false
  then r.result else none

end Reader

/-- The text without a byte order mark in front. -/
def dropByteOrderMark : List Char → List Char
  | '\uFEFF' :: cs => cs
  | cs => cs

/-- Reads a property list from a text. -/
def read? (text : String) : Option PropertyList := do
  let pieces ← Markup.ofText? (dropByteOrderMark text.toList)
  let r ← pieces.foldlM Reader.step ⟨[], none⟩
  r.value?

end Xml

/-- Reads the property list that a file holds. -/
def ofBytes? (file : ByteArray) : Option PropertyList :=
  match Binary.slice? file 0 Binary.mark.length with
  | none => none
  | some start =>
    if start = Binary.mark then Binary.read? file else (String.fromUTF8? file).bind Xml.read?

end HotkeyTree.PropertyList
