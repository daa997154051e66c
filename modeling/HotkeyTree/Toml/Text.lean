import HotkeyTree.Toml.Basic
import HotkeyTree.Toml.Token

/-!
# Text in TOML

What the tokens that are strings stand for: texts, and the parts of keys. Control characters other
than the tab may stand in none of them, line ends only in strings of several lines.
-/

namespace HotkeyTree.Toml

/-! ## Strings -/

/-- The value of a hexadecimal digit. -/
def hexValue? (c : Char) : Option Nat :=
  if '0' ≤ c ∧ c ≤ '9' then some (c.toNat - '0'.toNat)
  else if 'a' ≤ c ∧ c ≤ 'f' then some (c.toNat - 'a'.toNat + 10)
  else if 'A' ≤ c ∧ c ≤ 'F' then some (c.toNat - 'A'.toNat + 10)
  else none

/-- The character whose number these hexadecimal digits write. -/
def hexChar? (cs : List Char) : Option Char := do
  let n ← cs.foldlM (fun n c => (hexValue? c).map (16 * n + ·)) 0
  if n.isValidChar then some (Char.ofNat n) else none

/-- The character that a backslash and this character stand for. -/
def escaped? (c : Char) : Option Char :=
  match c with
  | 'b' => some '\x08'
  | 't' => some '\t'
  | 'n' => some '\n'
  | 'f' => some '\x0c'
  | 'r' => some '\r'
  | 'e' => some '\x1b'
  | '\x22' => some '\x22'
  | '\x5c' => some '\x5c'
  | _ => none

/-- The character that an escape stands for, given what follows the backslash, and the text after
it. -/
def scanEscape : List Char → Option (Char × List Char)
  | 'x' :: a :: b :: cs => (hexChar? [a, b]).map (·, cs)
  | 'u' :: a :: b :: c :: d :: cs => (hexChar? [a, b, c, d]).map (·, cs)
  | 'U' :: a :: b :: c :: d :: e :: f :: g :: h :: cs =>
    (hexChar? [a, b, c, d, e, f, g, h]).map (·, cs)
  | c :: cs => (escaped? c).map (·, cs)
  | [] => none

/-- Whether a backslash before this text takes the line end away: only blanks stand before it. -/
def endsLine (cs : List Char) : Bool :=
  match cs.dropWhile isSpace with
  | '\n' :: _ => true
  | '\r' :: '\n' :: _ => true
  | _ => false

/-- What stands between double quotes, from the given line on, in at most so many steps; `trim`
tells whether blanks and line ends are left out here. Fails with the line of what may not stand
there. -/
def basicText : Nat → Bool → Nat → List Char → Except Nat (List Char)
  | 0, _, line, _ => .error line
  | _ + 1, _, _, [] => .ok []
  | n + 1, trim, line, '\r' :: '\n' :: cs =>
    if trim then basicText n true (line + 1) cs
    else (basicText n false (line + 1) cs).map fun text => '\r' :: '\n' :: text
  | n + 1, trim, line, '\n' :: cs =>
    if trim then basicText n true (line + 1) cs
    else (basicText n false (line + 1) cs).map fun text => '\n' :: text
  | n + 1, _, line, '\x5c' :: cs =>
    if endsLine cs then basicText n true line cs
    else
      match scanEscape cs with
      | some (c, rest) => (basicText n false line rest).map fun text => c :: text
      | none => .error line
  | n + 1, trim, line, c :: cs =>
    if trim && isSpace c then basicText n true line cs
    else if isControl c then .error line
    else (basicText n false line cs).map fun text => c :: text

/-- What stands between single quotes, from the given line on. Fails with the line of what may not
stand there. -/
def literalText : Nat → List Char → Except Nat (List Char)
  | _, [] => .ok []
  | line, '\r' :: '\n' :: cs => (literalText (line + 1) cs).map fun text => '\r' :: '\n' :: text
  | line, '\n' :: cs => (literalText (line + 1) cs).map fun text => '\n' :: text
  | line, c :: cs =>
    if isControl c then .error line else (literalText line cs).map fun text => c :: text

/-- What stands between these quotes, from the given line on. -/
def quotedText (quote : Char) (line : Nat) (cs : List Char) : Except Nat (List Char) :=
  if quote = '\x22' then basicText (cs.length + 1) false line cs else literalText line cs

/-- The text of a string. A line end right after the opening quotes does not count. A string that is
not closed is at fault where it ends, whatever stands in it. -/
def Token.string (quote : Char) (closed : Bool) (t : Token) : Except Fault String :=
  let text := match t.text with
    | '\n' :: cs => quotedText quote (t.line + 1) cs
    | '\r' :: '\n' :: cs => quotedText quote (t.line + 1) cs
    | cs => quotedText quote t.line cs
  if closed then (text.map String.ofList).mapError .ofLine
  else .error (.ofLine (t.line + countLines t.text.dropLast))

/-! ## Keys -/

/-- A character that a key without quotes may have. -/
def isKeyChar (c : Char) : Bool := c.isAlphanum || c == '_' || c == '-'

/-- The part of a key that a token writes: a string of one line, or a run of letters, digits,
underscores and hyphens. -/
def Token.keyPart (t : Token) : Except Fault String :=
  match t.kind with
  | .quoted quote false closed => t.string quote closed
  | .plain =>
    if t.text.isEmpty || !t.text.all isKeyChar then .error (.ofLine t.line)
    else .ok (String.ofList t.text)
  | _ => .error (.ofLine t.line)

end HotkeyTree.Toml
