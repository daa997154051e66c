/-!
# TOML tokens

A text is cut into marks, strings, runs of other characters and line ends. Every text can be cut so:
whether a string or a run is well formed is looked at when it is known what stands there. A string
of one line that is not closed ends with its line, one of several lines with the text.

Blanks and comments are no tokens. A token knows the blanks before it, for there are values with
blanks in them, and the line on which it begins.
-/

namespace HotkeyTree.Toml

/-- What a token is. -/
inductive Token.Kind where
  /-- A run of characters other than blanks and marks. -/
  | plain
  /-- A string between these quotes. It has single quotes of them around it or, as one of several
  lines, three each. It is closed unless its line or the text ends before the closing quotes. -/
  | quoted (quote : Char) (several closed : Bool)
  /-- A point, an equals sign, a comma, a bracket or a brace. -/
  | mark (c : Char)
  /-- The end of a line. -/
  | lineEnd
  /-- A comment with a control character, or a carriage return that ends no line. -/
  | stray
  /-- The end of the text. -/
  | stop
deriving DecidableEq, Repr

/-- A token. -/
structure Token where
  /-- What it is. -/
  kind : Token.Kind
  /-- The characters of a run or a mark, or those between the quotes of a string. -/
  text : List Char := []
  /-- The blanks before it. -/
  blanks : List Char := []
  /-- The line on which it begins; of the end of the text, the line of the last character. -/
  line : Nat
deriving DecidableEq, Repr

namespace Token

/-- A run of no characters, where one was to stand. -/
def missing (line : Nat) : Token := { kind := .plain, line }

/-- Whether a token stands for one that is missing. -/
def isMissing (t : Token) : Bool := t.kind = .plain && t.text.isEmpty

/-- A run that goes on with another token, over the blanks before that. -/
def join (t next : Token) : Token := { t with text := t.text ++ next.blanks ++ next.text }

end Token

/-- A control character that may not stand in a comment or a string. -/
def isControl (c : Char) : Bool := (c.toNat < 0x20 && c != '\t') || c.toNat == 0x7F

/-- A blank inside a line. -/
def isSpace (c : Char) : Bool := c == ' ' || c == '\t'

/-- A mark. -/
def isMark (c : Char) : Bool := ['.', '=', ',', '[', ']', '\x7b', '\x7d'].contains c

/-- A character of a run. -/
def isPlain (c : Char) : Bool := !(isSpace c || isMark c || ['#', '\r', '\n'].contains c)

/-- A backslash and the character after it that do not close a string: in a string between double
quotes a backslash may stand before a quote or another backslash. -/
def isEscape (quote a b : Char) : Bool :=
  quote = '\x22' && a = '\x5c' && (b = '\x22' || b = '\x5c')

/-- Cuts a text after a string of one line, given where its characters begin. Gives those before the
closing quote, whether it is there, and the text that follows. -/
def cutString (quote : Char) : List Char → List Char × Bool × List Char
  | [] => ([], false, [])
  | [c] =>
    if c = quote then ([], true, []) else if c = '\n' then ([], false, [c]) else ([c], false, [])
  | a :: b :: cs =>
    if a = quote then ([], true, b :: cs)
    else if a = '\n' then ([], false, a :: b :: cs)
    else if isEscape quote a b then
      let (text, closed, rest) := cutString quote cs
      (a :: b :: text, closed, rest)
    else
      let (text, closed, rest) := cutString quote (b :: cs)
      (a :: text, closed, rest)

/-- Splits off the quotes that a text begins with, but at most so many. -/
def splitQuotes (quote : Char) : Nat → List Char → List Char × List Char
  | n + 1, c :: cs =>
    if c = quote then
      let (quotes, rest) := splitQuotes quote n cs
      (c :: quotes, rest)
    else ([], c :: cs)
  | _, cs => ([], cs)

/-- Cuts a text after a string of several lines, given where its characters begin. Up to two more
quotes before the three closing ones belong to the string. -/
def cutLines (quote : Char) : List Char → List Char × Bool × List Char
  | a :: b :: c :: cs =>
    if a = quote && b = quote && c = quote then
      let (quotes, rest) := splitQuotes quote 2 cs
      (quotes, true, rest)
    else if isEscape quote a b then
      let (text, closed, rest) := cutLines quote (c :: cs)
      (a :: b :: text, closed, rest)
    else
      let (text, closed, rest) := cutLines quote (b :: c :: cs)
      (a :: text, closed, rest)
  | cs => (cs, false, [])

/-- How many line ends there are in a text. -/
def countLines (cs : List Char) : Nat := cs.count '\n'

/-- Cuts a text into tokens, in at most so many steps. The text begins on the given line; `last` is
that of its last character. -/
def scanTokens (last : Nat) : Nat → Nat → List Char → List Token
  | 0, _, _ => [{ kind := .stop, line := last }]
  | n + 1, line, cs =>
    let blanks := cs.takeWhile isSpace
    match cs.dropWhile isSpace with
    | [] => [{ kind := .stop, blanks, line := last }]
    | '\n' :: cs => { kind := .lineEnd, blanks, line } :: scanTokens last n (line + 1) cs
    | '\r' :: '\n' :: cs => { kind := .lineEnd, blanks, line } :: scanTokens last n (line + 1) cs
    | '\r' :: cs => { kind := .stray, blanks, line } :: scanTokens last n line cs
    | '#' :: cs =>
      let (comment, rest) := cs.span fun c => c != '\r' && c != '\n'
      if comment.any isControl then
        { kind := .stray, blanks, line } :: scanTokens last n line rest
      else scanTokens last n line rest
    | a :: cs =>
      if a = '\x22' ∨ a = '\x27' then
        if [a, a].isPrefixOf cs then
          let (text, closed, rest) := cutLines a (cs.drop 2)
          { kind := .quoted a true closed, text, blanks, line }
            :: scanTokens last n (line + countLines text) rest
        else
          let (text, closed, rest) := cutString a cs
          { kind := .quoted a false closed, text, blanks, line }
            :: scanTokens last n line rest
      else if isMark a then
        { kind := .mark a, text := [a], blanks, line } :: scanTokens last n line cs
      else
        let (text, rest) := (a :: cs).span isPlain
        { kind := .plain, text, blanks, line } :: scanTokens last n line rest

/-- The tokens of a text, the end of the text as the last one. -/
def tokens (cs : List Char) : List Token :=
  scanTokens (countLines cs.dropLast) cs.length 0 cs

end HotkeyTree.Toml
