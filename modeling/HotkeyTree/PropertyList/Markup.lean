import HotkeyTree.PropertyList.DocumentType
import HotkeyTree.PropertyList.Scalar

/-!
# Markup

A text in markup is a sequence of tags and the texts between them. Comments, declarations,
instructions and marked sections are left out, attributes are ignored, an element without content
counts as a start tag followed by its end tag, and references to characters are resolved.
-/

namespace HotkeyTree.PropertyList

/-- A piece of a text in markup. -/
inductive Markup where
  /-- A start tag with this name. -/
  | opening (name : List Char)
  /-- An end tag with this name. -/
  | closing (name : List Char)
  /-- A text, or the character that a reference stands for. -/
  | text (cs : List Char)
  /-- A reference with a name that stands for nothing known. -/
  | unknown
deriving DecidableEq, Repr

namespace Markup

/-- The text before the first occurrence of a mark and the text after it. -/
def cut? (mark : List Char) : List Char → Option (List Char × List Char)
  | [] => none
  | c :: cs =>
    if mark.isPrefixOf (c :: cs) then some ([], (c :: cs).drop mark.length)
    else (cut? mark cs).map fun (before, rest) => (c :: before, rest)

/-- The inside of a tag and the text after it. The tag ends at the first `>` that is not
between quotes; the first argument is the quote that is open. -/
def cutTag? : Option Char → List Char → Option (List Char × List Char)
  | _, [] => none
  | none, c :: cs =>
    if c = '>' then some ([], cs)
    else
      let quote := if DocumentType.isQuote c then some c else none
      (cutTag? quote cs).map fun (inside, rest) => (c :: inside, rest)
  | some q, c :: cs =>
    (cutTag? (if c = q then none else some q) cs).map fun (inside, rest) => (c :: inside, rest)

/-- The name that a tag begins with; it ends at the first blank. -/
def tagName (inside : List Char) : List Char := inside.takeWhile fun c => !DocumentType.isBlank c

/-- The name without the prefix that ends at its first colon. -/
def localName (name : List Char) : List Char :=
  match cut? [':'] name with
  | some (_, rest) => rest
  | none => name

/-! ## References -/

/-- The character with this number, unless it is zero or no character. -/
def character? (n : Nat) : Option Char :=
  if 0 < n ∧ n.isValidChar then some (Char.ofNat n) else none

/-- The character that a name stands for. -/
def named? : List Char → Option Char
  | ['l', 't'] => some '<'
  | ['g', 't'] => some '>'
  | ['a', 'm', 'p'] => some '&'
  | ['q', 'u', 'o', 't'] => some '\x22'
  | ['a', 'p', 'o', 's'] => some '\x27'
  | _ => none

/-- What a reference stands for, given what is between `&` and `;`: the number of a character in
base 16 or 10, or a name. A number has to be that of a character; a name may be any text. -/
def ofReference? : List Char → Option Markup
  | '#' :: 'x' :: cs => do some (.text [← character? (← Scalar.hexNumber? cs)])
  | '#' :: cs => do some (.text [← character? (← Scalar.number? cs)])
  | name =>
    match named? name with
    | some c => some (.text [c])
    | none => some .unknown

/-- What is between `&` and `;`, and the text after it, given what follows the `&`. Neither another
reference nor a tag may begin before the `;`. -/
def cutReference? : List Char → Option (List Char × List Char)
  | [] => none
  | c :: cs =>
    if c = ';' then some ([], cs)
    else if c = '&' ∨ c = '<' then none
    else (cutReference? cs).map fun (inside, rest) => (c :: inside, rest)

/-- A character that stands for itself in a text. -/
def isPlain (c : Char) : Bool := c != '<' && c != '&'

/-! ## Cutting a text into pieces -/

/-- The pieces of a start tag with this inside. -/
def ofTag (inside : List Char) : List Markup :=
  if inside.getLast? = some '/' then
    let name := tagName inside.dropLast
    [.opening name, .closing name]
  else [.opening (tagName inside)]

/-- The text after what begins with `<!`, given what follows: a comment, a marked section, or a
document type declaration, whose keyword may be written in any case. -/
def afterDeclaration? (cs : List Char) : Option (List Char) :=
  match cs with
  | '-' :: '-' :: cs => (cut? ['-', '-', '>'] cs).map (·.2)
  | '[' :: 'C' :: 'D' :: 'A' :: 'T' :: 'A' :: '[' :: cs => (cut? [']', ']', '>'] cs).map (·.2)
  | cs =>
    if (cs.take 7).map Char.toUpper = ['D', 'O', 'C', 'T', 'Y', 'P', 'E'] then
      DocumentType.rest? (cs.drop 7)
    else none

/-- The text after an instruction, given what follows its `<?`: it ends with a second question
mark. -/
def afterInstruction? (cs : List Char) : Option (List Char) :=
  if cs.head? = some '>' then none else (cut? ['?', '>'] cs).map (·.2)

/-- Reads the pieces that a text begins with. -/
def scan : List Char → Option (List Markup × List Char)
  | '<' :: '!' :: cs => (afterDeclaration? cs).map ([], ·)
  | '<' :: '?' :: cs => (afterInstruction? cs).map ([], ·)
  | '<' :: '/' :: cs =>
    (cutTag? none cs).map fun (inside, rest) =>
      ([.closing (inside.reverse.dropWhile DocumentType.isBlank).reverse], rest)
  | '<' :: cs => (cutTag? none cs).map fun (inside, rest) => (ofTag inside, rest)
  | '&' :: cs => do
    let (inside, rest) ← cutReference? cs
    some ([← ofReference? inside], rest)
  | cs => some ([.text (cs.takeWhile isPlain)], cs.dropWhile isPlain)

/-- Reads the pieces of a text, in at most so many steps, and puts them after those already read,
the last one first. -/
def scanAll : Nat → List Markup → List Char → Option (List Markup)
  | _, done, [] => some done.reverse
  | 0, _, _ :: _ => none
  | n + 1, done, c :: cs =>
    match scan (c :: cs) with
    | some (pieces, rest) => scanAll n (pieces.reverse ++ done) rest
    | none => none

/-- The pieces of a text. Every step takes at least one character, so the length of the text bounds
their number. -/
def ofText? (cs : List Char) : Option (List Markup) := scanAll cs.length [] cs

end Markup

end HotkeyTree.PropertyList
