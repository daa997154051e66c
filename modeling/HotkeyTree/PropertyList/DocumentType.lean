/-!
# Document type declarations

A document type declaration tells nothing about the value of a property list, so only its end
matters. It may hold declarations of its own between brackets. In quoted texts before the brackets,
in those of an inner declaration that may have some, in comments and in instructions the marks that
end a part have no meaning.
-/

namespace HotkeyTree.PropertyList

/-- Where in a document type declaration a character stands. -/
inductive DocumentType where
  /-- Before the inner declarations. -/
  | outside
  /-- Before the inner declarations, in a text between these quotes. -/
  | quoted (quote : Char)
  /-- Between the brackets, and there between the inner declarations. -/
  | between
  /-- In an inner declaration without quoted texts. -/
  | plain
  /-- In an inner declaration that may have quoted texts, outside them. -/
  | valued
  /-- In a quoted text of an inner declaration, between these quotes. -/
  | value (quote : Char)
  /-- In a comment among the inner declarations. -/
  | comment
  /-- In an instruction among the inner declarations. -/
  | instruction
  /-- After the closing bracket. -/
  | closed
deriving DecidableEq, Repr

namespace DocumentType

/-- A blank in markup. -/
def isBlank (c : Char) : Bool := c == ' ' || c == '\t' || c == '\n' || c == '\r'

/-- A quote in markup. -/
def isQuote (c : Char) : Bool := c == '\x22' || c == '\x27'

/-- What begins with `<` among the inner declarations, given what follows, apart from comments and
instructions: entities, notations and attribute lists may have quoted texts. -/
def declared (cs : List Char) : DocumentType :=
  let valued := [['!', 'E', 'N', 'T', 'I', 'T', 'Y'], ['!', 'N', 'O', 'T', 'A', 'T', 'I', 'O', 'N'],
    ['!', 'A', 'T', 'T', 'L', 'I', 'S', 'T']]
  if valued.any (·.isPrefixOf cs) then .valued else .plain

/-- The text after the end of a declaration, given where the text begins. Quotes have no meaning
between the inner declarations nor after the closing bracket. -/
def after? : DocumentType → List Char → Option (List Char)
  | _, [] => none
  | .outside, '>' :: cs => some cs
  | .outside, '[' :: cs => after? .between cs
  | .outside, c :: cs => after? (if isQuote c then .quoted c else .outside) cs
  | .quoted q, c :: cs => after? (if c = q then .outside else .quoted q) cs
  | .between, ']' :: cs => after? .closed cs
  | .between, '<' :: '!' :: '-' :: '-' :: cs => after? .comment cs
  | .between, '<' :: '?' :: cs => after? .instruction cs
  | .between, '<' :: cs => after? (declared cs) cs
  | .between, _ :: cs => after? .between cs
  | .plain, c :: cs => after? (if c = '>' then .between else .plain) cs
  | .valued, '>' :: cs => after? .between cs
  | .valued, c :: cs => after? (if isQuote c then .value c else .valued) cs
  | .value q, c :: cs => after? (if c = q then .valued else .value q) cs
  | .comment, '-' :: '-' :: '>' :: cs => after? .between cs
  | .comment, _ :: cs => after? .comment cs
  | .instruction, '?' :: '>' :: cs => after? .between cs
  | .instruction, _ :: cs => after? .instruction cs
  | .closed, '>' :: cs => some cs
  | .closed, _ :: cs => after? .closed cs

/-- The text after a declaration, given what follows its keyword: something has to be declared. -/
def rest? (cs : List Char) : Option (List Char) :=
  if (cs.dropWhile isBlank).head? = some '>' then none else after? .outside cs

end DocumentType

end HotkeyTree.PropertyList
