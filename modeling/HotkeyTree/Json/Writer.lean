import HotkeyTree.Json.Basic

/-!
# Writing JSON

`pretty` writes every item and every member on a line of its own, two spaces further in than the
bracket that holds it, with a colon and a space after a name; empty arrays and objects are two
brackets. In strings only quotes, backslashes and control characters below a space are escaped.
-/

namespace HotkeyTree.Json

/-- A hexadecimal digit, in lower case. -/
def hexDigit (n : Nat) : Char := Nat.digitChar n

/-- How a character is written in a string. -/
def escape (c : Char) : List Char :=
  match c with
  | '\x22' => ['\x5c', '\x22']
  | '\x5c' => ['\x5c', '\x5c']
  | '\x08' => ['\x5c', 'b']
  | '\x0c' => ['\x5c', 'f']
  | '\n' => ['\x5c', 'n']
  | '\r' => ['\x5c', 'r']
  | '\t' => ['\x5c', 't']
  | c =>
    if c.toNat < 0x20 then
      ['\x5c', 'u', '0', '0', hexDigit (c.toNat / 16), hexDigit (c.toNat % 16)]
    else [c]

/-- A string between quotes. A literal without text is written as a surrogate escape on its own. -/
def quote : Literal → List Char
  | some s => '\x22' :: s.toList.flatMap escape ++ ['\x22']
  | none => ['\x22', '\x5c', 'u', 'd', '8', '0', '0', '\x22']

/-- The digits of an exponent after its mark. -/
def exponentText (e : Int) : List Char :=
  if e < 0 then '-' :: Nat.toDigits 10 e.natAbs else Nat.toDigits 10 e.natAbs

/-- A number as it was written, up to the spelling of the exponent. -/
def Number.text (n : Number) : List Char :=
  (if n.negative then ['-'] else []) ++ n.whole
    ++ (if n.fraction.isEmpty then [] else '.' :: n.fraction)
    ++ (match n.exponent with
        | some e => 'e' :: exponentText e
        | none => [])

/-- Writes a new line, indented by so many steps of two spaces, before some text. -/
def newLine (depth : Nat) (rest : List Char) : List Char :=
  '\n' :: (List.replicate (2 * depth) ' ' ++ rest)

mutual

/-- Writes a value that stands inside so many open brackets, before some text. -/
def prettyAt (depth : Nat) : Json → List Char → List Char
  | .null, rest => 'n' :: 'u' :: 'l' :: 'l' :: rest
  | .bool true, rest => 't' :: 'r' :: 'u' :: 'e' :: rest
  | .bool false, rest => 'f' :: 'a' :: 'l' :: 's' :: 'e' :: rest
  | .number n, rest => n.text ++ rest
  | .string s, rest => quote s ++ rest
  | .array [], rest => '[' :: ']' :: rest
  | .array (v :: vs), rest =>
    '[' :: newLine (depth + 1)
      (prettyAt (depth + 1) v (prettyItems (depth + 1) vs (newLine depth (']' :: rest))))
  | .object [], rest => '\x7b' :: '\x7d' :: rest
  | .object (m :: ms), rest =>
    '\x7b' :: newLine (depth + 1)
      (prettyMember (depth + 1) m (prettyMembers (depth + 1) ms (newLine depth ('\x7d' :: rest))))
termination_by structural v => v

/-- Writes the items of an array that follow another one, before some text. -/
def prettyItems (depth : Nat) : List Json → List Char → List Char
  | [], rest => rest
  | v :: vs, rest => ',' :: newLine depth (prettyAt depth v (prettyItems depth vs rest))
termination_by structural vs => vs

/-- Writes a member of an object, before some text. -/
def prettyMember (depth : Nat) : Literal × Json → List Char → List Char
  | (k, v), rest => quote k ++ ':' :: ' ' :: prettyAt depth v rest
termination_by structural m => m

/-- Writes the members of an object that follow another one, before some text. -/
def prettyMembers (depth : Nat) : List (Literal × Json) → List Char → List Char
  | [], rest => rest
  | m :: ms, rest => ',' :: newLine depth (prettyMember depth m (prettyMembers depth ms rest))
termination_by structural ms => ms

end

/-- The value as an indented text. -/
def pretty (v : Json) : String := String.ofList (prettyAt 0 v [])

end HotkeyTree.Json
