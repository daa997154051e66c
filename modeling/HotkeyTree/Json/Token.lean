import HotkeyTree.Json.Basic
import HotkeyTree.Json.Number

/-!
# JSON tokens

A JSON text is a sequence of tokens with blanks between them: the six punctuation marks, the three
names, numbers and string literals. `tokens` cuts a text into them, up to the first character that
begins no token.
-/

namespace HotkeyTree.Json

/-- A token of a JSON text. -/
inductive Token where
  /-- `[` -/
  | openArray
  /-- `]` -/
  | closeArray
  /-- An opening brace. -/
  | openObject
  /-- A closing brace. -/
  | closeObject
  /-- `,` -/
  | comma
  /-- `:` -/
  | colon
  /-- `null` -/
  | null
  /-- `true` or `false` -/
  | bool (b : Bool)
  /-- A number. -/
  | number (n : Number)
  /-- A string literal. -/
  | string (s : Literal)
deriving DecidableEq, Repr

/-- The characters that may stand between tokens. -/
def isBlank (c : Char) : Bool := c == ' ' || c == '\t' || c == '\n' || c == '\r'

/-! ## String literals -/

/-- What one character or escape of a string literal stands for. -/
inductive Piece where
  /-- A character. -/
  | char (c : Char)
  /-- A UTF-16 code unit, from an escape with four hexadecimal digits. -/
  | unit (u : Nat)
deriving DecidableEq, Repr

/-- The value of a hexadecimal digit. -/
def hexValue? (c : Char) : Option Nat :=
  if '0' ≤ c ∧ c ≤ '9' then some (c.toNat - '0'.toNat)
  else if 'a' ≤ c ∧ c ≤ 'f' then some (c.toNat - 'a'.toNat + 10)
  else if 'A' ≤ c ∧ c ≤ 'F' then some (c.toNat - 'A'.toNat + 10)
  else none

/-- The number that hexadecimal digits write. -/
def hexNumber? (cs : List Char) : Option Nat :=
  cs.foldlM (fun n c => (hexValue? c).map (16 * n + ·)) 0

/-- The character that a backslash and this character stand for. -/
def escaped? (c : Char) : Option Char :=
  match c with
  | '\x22' | '\x5c' | '/' => some c
  | 'b' => some '\x08'
  | 'f' => some '\x0c'
  | 'n' => some '\n'
  | 'r' => some '\r'
  | 't' => some '\t'
  | _ => none

/-- Reads a string literal after its opening quote, up to and with the closing one. A control
character must be escaped. -/
def scanPieces : List Char → Option (List Piece × List Char)
  | [] => none
  | '\x22' :: cs => some ([], cs)
  | '\x5c' :: 'u' :: a :: b :: c :: d :: cs => do
    let u ← hexNumber? [a, b, c, d]
    let (ps, rest) ← scanPieces cs
    some (.unit u :: ps, rest)
  | '\x5c' :: e :: cs => do
    let c ← escaped? e
    let (ps, rest) ← scanPieces cs
    some (.char c :: ps, rest)
  | c :: cs => do
    guard (c != '\x5c' && 0x20 ≤ c.toNat)
    let (ps, rest) ← scanPieces cs
    some (.char c :: ps, rest)

/-- A code unit that begins a surrogate pair. -/
def isHighSurrogate (u : Nat) : Bool := 0xD800 ≤ u && u < 0xDC00

/-- A code unit that ends a surrogate pair. -/
def isLowSurrogate (u : Nat) : Bool := 0xDC00 ≤ u && u < 0xE000

/-- The characters that the pieces stand for; none if a surrogate lacks its partner. -/
def joinPieces : List Piece → Option (List Char)
  | [] => some []
  | .char c :: ps => (joinPieces ps).map (c :: ·)
  | .unit h :: .unit l :: ps =>
    if isHighSurrogate h then
      if isLowSurrogate l then
        (joinPieces ps).map (Char.ofNat (0x10000 + (h - 0xD800) * 0x400 + (l - 0xDC00)) :: ·)
      else none
    else if isLowSurrogate h then none
    else (joinPieces (.unit l :: ps)).map (Char.ofNat h :: ·)
  | .unit u :: ps =>
    if isHighSurrogate u || isLowSurrogate u then none
    else (joinPieces ps).map (Char.ofNat u :: ·)

/-- Reads a string literal after its opening quote. -/
def scanLiteral (cs : List Char) : Option (Literal × List Char) :=
  (scanPieces cs).map fun (ps, rest) => ((joinPieces ps).map String.ofList, rest)

/-! ## Numbers -/

/-- Splits off the decimal digits that a text begins with; there must be one. -/
def scanDigits (cs : List Char) : Option (List Char × List Char) :=
  let ds := cs.takeWhile Char.isDigit
  if ds.isEmpty then none else some (ds, cs.dropWhile Char.isDigit)

/-- Reads the digits before the point: no zero before other digits. -/
def scanWhole (cs : List Char) : Option (List Char × List Char) := do
  let (ds, rest) ← scanDigits cs
  guard (ds.head? != some '0' || ds.length == 1)
  some (ds, rest)

/-- Reads a point and the digits after it, if there is a point. -/
def scanFraction : List Char → Option (List Char × List Char)
  | '.' :: cs => scanDigits cs
  | cs => some ([], cs)

/-- Reads the sign and digits of an exponent. -/
def scanExponentDigits : List Char → Option (Int × List Char)
  | '-' :: cs => (scanDigits cs).map fun (ds, rest) => (-(Number.ofDigits ds : Int), rest)
  | '+' :: cs => (scanDigits cs).map fun (ds, rest) => ((Number.ofDigits ds : Int), rest)
  | cs => (scanDigits cs).map fun (ds, rest) => ((Number.ofDigits ds : Int), rest)

/-- Reads an exponent, if there is one. -/
def scanExponent : List Char → Option (Option Int × List Char)
  | c :: cs =>
    if c == 'e' || c == 'E' then (scanExponentDigits cs).map fun (e, rest) => (some e, rest)
    else some (none, c :: cs)
  | [] => some (none, [])

/-- Reads the part of a number after its sign. -/
def scanUnsigned (negative : Bool) (cs : List Char) : Option (Number × List Char) := do
  let (whole, cs) ← scanWhole cs
  let (fraction, cs) ← scanFraction cs
  let (exponent, cs) ← scanExponent cs
  some ({ negative, whole, fraction, exponent }, cs)

/-- Reads a number. -/
def scanNumber : List Char → Option (Number × List Char)
  | '-' :: cs => scanUnsigned true cs
  | cs => scanUnsigned false cs

/-! ## Texts -/

/-- Reads one token from a text that does not begin with a blank. -/
def scanToken : List Char → Option (Token × List Char)
  | [] => none
  | '[' :: cs => some (.openArray, cs)
  | ']' :: cs => some (.closeArray, cs)
  | '\x7b' :: cs => some (.openObject, cs)
  | '\x7d' :: cs => some (.closeObject, cs)
  | ',' :: cs => some (.comma, cs)
  | ':' :: cs => some (.colon, cs)
  | '\x22' :: cs => (scanLiteral cs).map fun (s, rest) => (.string s, rest)
  | 'n' :: 'u' :: 'l' :: 'l' :: cs => some (.null, cs)
  | 't' :: 'r' :: 'u' :: 'e' :: cs => some (.bool true, cs)
  | 'f' :: 'a' :: 'l' :: 's' :: 'e' :: cs => some (.bool false, cs)
  | cs => (scanNumber cs).map fun (n, rest) => (.number n, rest)

/-- Reads tokens, at most as many as the first argument, up to where none begins, and puts them
before those already read in reverse order. Tells too whether the text ends there. -/
def scanTokens : Nat → List Token → List Char → List Token × Bool
  | 0, done, cs => (done.reverse, (cs.dropWhile isBlank).isEmpty)
  | n + 1, done, cs =>
    match cs.dropWhile isBlank with
    | [] => (done.reverse, true)
    | c :: cs =>
      match scanToken (c :: cs) with
      | some (t, rest) => scanTokens n (t :: done) rest
      | none => (done.reverse, false)

/-- The tokens of a text up to where none begins, and whether the text ends there. A token has at
least one character, so the length of the text bounds their number. -/
def tokens (cs : List Char) : List Token × Bool := scanTokens cs.length [] cs

end HotkeyTree.Json
