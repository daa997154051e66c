import HotkeyTree.Toml.Token

/-!
# The statements of a TOML document

A document is a sequence of headers and entries, each on lines of its own. They are read from the
tokens in one pass, with a stack of the arrays and tables between brackets that are still open;
these nest to a fixed depth. They may extend over several lines, with line ends between their parts,
around the equals signs too, and a comma after the last.

Only the order of the tokens is looked at here. Where a part of a key or a value is missing, a run
of no characters takes its place; as no key and no value is written so, this is found when keys and
values are read.
-/

namespace HotkeyTree.Toml

/-- The parts of a key. -/
abbrev Key := List Token

/-- A value as it stands in a document. -/
inductive Expression where
  /-- A string or a run of characters. -/
  | scalar (t : Token)
  /-- An array, with the line on which it begins. -/
  | array (line : Nat) (items : List Expression)
  /-- A table between braces, with the line on which it begins. -/
  | table (line : Nat) (entries : List (Key × Expression))
deriving Repr

/-- A statement of a document. -/
inductive Statement where
  /-- A header, in single brackets or in double ones. -/
  | header (double : Bool) (line : Nat) (key : Key)
  /-- A key and its value. -/
  | entry (key : Key) (value : Expression)
deriving Repr

/-- How deep arrays and tables between brackets may nest. -/
def maxDepth : Nat := 80

namespace Statement

/-- An array or table that is still open around a value. -/
inductive Open where
  /-- An array that begins on this line, with its items so far, the last one first. -/
  | items (line : Nat) (done : List Expression)
  /-- A table that begins on this line, with its entries so far, the last one first, and the key of
  the value. -/
  | entries (line : Nat) (done : List (Key × Expression)) (key : Key)

/-- Where a value stands. -/
structure Spot where
  /-- The key of the statement. -/
  key : Key
  /-- The arrays and tables that are open, the innermost first. -/
  stack : List Open

/-- The same spot with one more array or table open. -/
def Spot.within (s : Spot) (o : Open) : Spot := { s with stack := o :: s.stack }

/-- What a key belongs to. -/
inductive Owner where
  /-- An entry of the document. -/
  | document
  /-- A header that begins on this line. -/
  | header (double : Bool) (line : Nat)
  /-- A table between braces that begins on this line, with its entries so far. -/
  | table (line : Nat) (done : List (Key × Expression)) (spot : Spot)

/-- What the reader waits for. -/
inductive State where
  /-- A statement, or the end of the line. -/
  | line
  /-- The end of a line. -/
  | lineEnd
  /-- The end of a line on which a header has come to nothing. -/
  | ignored
  /-- What follows the first bracket of a header. -/
  | header (line : Nat)
  /-- The second closing bracket of a header. -/
  | closing (line : Nat) (key : Key)
  /-- A part of a key, after those given, the last one first. -/
  | part (owner : Owner) (done : List Token)
  /-- What follows a part of a key, the last of those given. -/
  | afterPart (owner : Owner) (done : List Token)
  /-- The equals sign after a key in a table between braces, on a new line. -/
  | equals (line : Nat) (done : List (Key × Expression)) (spot : Spot) (key : Key)
  /-- A value. -/
  | value (spot : Spot)
  /-- More of a value without quotes. -/
  | scalar (spot : Spot) (t : Token)
  /-- An item of an array, or its end. -/
  | item (line : Nat) (done : List Expression) (spot : Spot)
  /-- What follows an item of an array. -/
  | afterItem (line : Nat) (done : List Expression) (spot : Spot)
  /-- A key in a table between braces, or its end. -/
  | entry (line : Nat) (done : List (Key × Expression)) (spot : Spot)
  /-- What follows an entry of a table between braces. -/
  | afterEntry (line : Nat) (done : List (Key × Expression)) (spot : Spot)

/-- How far a document is read: its statements, the last one first, and what comes next. -/
structure Reader where
  /-- The statements. -/
  done : List Statement
  /-- What the reader waits for. -/
  state : State

namespace Reader

/-- Goes on to wait for something else. -/
def wait (r : Reader) (state : State) : Reader := { r with state }

/-- Takes in a statement that ends with its line. -/
def take (r : Reader) (s : Statement) : Reader := ⟨s :: r.done, .lineEnd⟩

/-- Takes in a complete value. -/
def complete (r : Reader) (s : Spot) (v : Expression) : Reader :=
  match s.stack with
  | [] => r.take (.entry s.key v)
  | .items line done :: stack => r.wait (.afterItem line (v :: done) { s with stack })
  | .entries line done key :: stack => r.wait (.afterEntry line ((key, v) :: done) { s with stack })

/-- Takes in the token after a complete statement or value. -/
def goOn (r : Reader) (t : Token) : Except Nat Reader :=
  match r.state, t.kind with
  | .lineEnd, .lineEnd => .ok (r.wait .line)
  | .lineEnd, .stop => .ok r
  | .ignored, .lineEnd => .ok (r.wait .line)
  | .ignored, .stray => .error t.line
  | .ignored, _ => .ok r
  | .afterItem .., .lineEnd => .ok r
  | .afterItem line done s, .mark ',' => .ok (r.wait (.item line done s))
  | .afterItem line done s, .mark ']' => .ok (r.complete s (.array line done.reverse))
  | .afterEntry .., .lineEnd => .ok r
  | .afterEntry line done s, .mark ',' => .ok (r.wait (.entry line done s))
  | .afterEntry line done s, .mark '\x7d' => .ok (r.complete s (.table line done.reverse))
  | _, _ => .error t.line

/-- Takes in the first token of a value. -/
def begin (r : Reader) (s : Spot) (t : Token) : Except Nat Reader :=
  let nested := s.stack.length < maxDepth
  match t.kind with
  | .quoted .. => .ok (r.complete s (.scalar t))
  | .plain | .mark '.' => .ok (r.wait (.scalar s t))
  | .mark '[' => if nested then .ok (r.wait (.item t.line [] s)) else .error t.line
  | .mark '\x7b' => if nested then .ok (r.wait (.entry t.line [] s)) else .error t.line
  | _ => .error t.line

/-- Takes in the token after a part of a key. A header in which a part is missing comes to nothing
if it is not closed there. -/
def afterPart (r : Reader) (owner : Owner) (done : List Token) (t : Token) : Except Nat Reader :=
  match owner, t.kind with
  | owner, .mark '.' => .ok (r.wait (.part owner done))
  | .document, .mark '=' => .ok (r.wait (.value ⟨done.reverse, []⟩))
  | .header false line, .mark ']' => .ok (r.take (.header false line done.reverse))
  | .header true line, .mark ']' => .ok (r.wait (.closing line done.reverse))
  | .header double line, _ =>
    if done.head?.any (·.isMissing) then
      ((r.take (.header double line done.reverse)).wait .ignored).goOn t
    else .error t.line
  | .table line entries s, .mark '=' =>
    .ok (r.wait (.value (s.within (.entries line entries done.reverse))))
  | .table line entries s, .lineEnd => .ok (r.wait (.equals line entries s done.reverse))
  | _, _ => .error t.line

/-- Takes in a token where a part of a key has to stand. -/
def part (r : Reader) (owner : Owner) (done : List Token) (t : Token) : Except Nat Reader :=
  match t.kind with
  | .plain | .quoted .. => .ok (r.wait (.afterPart owner (t :: done)))
  | .mark '.' => .ok (r.wait (.part owner (.missing t.line :: done)))
  | _ => r.afterPart owner (.missing t.line :: done) t

/-- Takes in a token, or fails with its line if it cannot stand where it does. -/
def step (r : Reader) (t : Token) : Except Nat Reader :=
  match r.state, t.kind with
  | .line, .lineEnd | .line, .stop => .ok r
  | .line, .mark '[' => .ok (r.wait (.header t.line))
  | .line, .plain | .line, .quoted .. | .line, .mark '.' | .line, .mark '=' => r.part .document [] t
  | .header line, .mark '[' =>
    if t.blanks.isEmpty then .ok (r.wait (.part (.header true line) []))
    else r.part (.header false line) [] t
  | .header line, _ => r.part (.header false line) [] t
  | .closing line key, .mark ']' =>
    if t.blanks.isEmpty then .ok (r.take (.header true line key)) else .error t.line
  | .part owner done, _ => r.part owner done t
  | .afterPart owner done, _ => r.afterPart owner done t
  | .equals .., .lineEnd => .ok r
  | .equals line done s key, .mark '=' => .ok (r.wait (.value (s.within (.entries line done key))))
  | .value s, .lineEnd =>
    if s.stack.isEmpty then (r.complete s (.scalar (.missing t.line))).goOn t else .ok r
  | .value s, .stop | .value s, .mark ',' | .value s, .mark '\x7d' =>
    (r.complete s (.scalar (.missing t.line))).goOn t
  | .value s, _ => r.begin s t
  | .scalar s first, .plain | .scalar s first, .mark '.' => .ok (r.wait (.scalar s (first.join t)))
  | .scalar s first, _ => (r.complete s (.scalar first)).goOn t
  | .item .., .lineEnd => .ok r
  | .item line done s, .mark ']' => .ok (r.complete s (.array line done.reverse))
  | .item line done s, _ => r.begin (s.within (.items line done)) t
  | .entry .., .lineEnd => .ok r
  | .entry line done s, .mark '\x7d' => .ok (r.complete s (.table line done.reverse))
  | .entry line done s, .plain | .entry line done s, .quoted .. | .entry line done s, .mark '.'
  | .entry line done s, .mark '=' => r.part (.table line done s) [] t
  | .lineEnd, _ | .ignored, _ | .afterItem .., _ | .afterEntry .., _ => r.goOn t
  | _, _ => .error t.line

end Reader

/-- The statements that tokens write, or the line of the first token that cannot stand where it
does. -/
def ofTokens (ts : List Token) : Except Nat (List Statement) := do
  let r ← ts.foldlM Reader.step ⟨[], .line⟩
  return r.done.reverse

end Statement

end HotkeyTree.Toml
