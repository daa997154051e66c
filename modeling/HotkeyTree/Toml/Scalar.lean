import HotkeyTree.PropertyList.Scalar
import HotkeyTree.Toml.Basic

/-!
# Plain scalars in TOML

What stands without quotes: truth values, integers, floating-point numbers, dates and times. There
may be blanks in a scalar, though only between a date and a time, and only one space. No setting is
a number, so of a number only as much is checked as tells its kind: an integer may lack digits after
the mark of its base, and after its first underscore a decimal one is checked only next to its
underscores.
-/

namespace HotkeyTree.Toml

/-- The text without a sign in front. -/
def dropSign : List Char → List Char
  | '+' :: cs => cs
  | '-' :: cs => cs
  | cs => cs

/-- A hexadecimal digit. -/
def isHexDigit (c : Char) : Bool := (PropertyList.Scalar.hexValue? c).isSome

/-- An octal digit. -/
def isOctalDigit (c : Char) : Bool := '0' ≤ c && c ≤ '7'

/-- A binary digit. -/
def isBinaryDigit (c : Char) : Bool := c == '0' || c == '1'

/-- Whether every underscore stands between two digits; `digit` tells whether a digit stands before
the text. -/
def joinsDigits (isDigit : Char → Bool) (digit : Bool) : List Char → Bool
  | [] => true
  | '_' :: cs => digit && cs.head?.any isDigit && joinsDigits isDigit false cs
  | c :: cs => joinsDigits isDigit (isDigit c) cs

/-- Whether a text consists of the digits of a base, with underscores between them. -/
def isDigits (isDigit : Char → Bool) (cs : List Char) : Bool :=
  (cs.all fun c => c == '_' || isDigit c) && joinsDigits isHexDigit false cs

/-- Whether a character marks an exponent. -/
def isExponentMark (c : Char) : Bool := c == 'e' || c == 'E'

/-- Whether a text is a decimal integer without a sign. No zero stands before other digits. -/
def isDecimal (cs : List Char) : Bool :=
  let whole := cs.takeWhile Char.isDigit
  match cs.dropWhile Char.isDigit with
  | [] => !whole.isEmpty && (whole.head? != some '0' || whole.length == 1)
  | '_' :: rest =>
    whole.head? != some '0' && !(rest.any fun c => c == ' ' || c == '.' || isExponentMark c)
      && joinsDigits isHexDigit false cs
  | _ => false

/-- Whether a text is an integer: decimal with an optional sign, or in another base with its mark.
-/
def isInteger : List Char → Bool
  | '0' :: 'x' :: cs => isDigits isHexDigit cs
  | '0' :: 'o' :: cs => isDigits isOctalDigit cs
  | '0' :: 'b' :: cs => isDigits isBinaryDigit cs
  | cs => isDecimal (dropSign cs)

/-- The text after decimal digits and underscores, with at least one digit among them. In a
`whole` number no zero stands before other digits. -/
def afterDigits? (whole : Bool) (cs : List Char) : Option (List Char) :=
  let ds := cs.takeWhile fun c => c.isDigit || c == '_'
  let count := ds.countP Char.isDigit
  if count = 0 ∨ whole ∧ count ≠ 1 ∧ ds.head? = some '0' then none
  else some (cs.drop ds.length)

/-- The text after the digits that follow a point, if there is one. -/
def afterPoint? : List Char → Option (List Char)
  | '.' :: cs => afterDigits? false cs
  | cs => some cs

/-- The text after an exponent, if there is one. -/
def afterExponent? : List Char → Option (List Char)
  | [] => some []
  | c :: cs => if isExponentMark c then afterDigits? false (dropSign cs) else some (c :: cs)

/-- Whether a text is decimal digits with a fraction, an exponent, or both. -/
def isFraction (cs : List Char) : Bool :=
  (cs.any fun c => c == '.' || isExponentMark c)
    && (do afterExponent? (← afterPoint? (← afterDigits? true cs))) == some []
    && joinsDigits Char.isDigit false cs

/-- Whether a text is a floating-point number: one with a fraction or an exponent, or one of the
names of infinity and of no number. -/
def isFloat (cs : List Char) : Bool :=
  let cs := dropSign cs
  cs == ['i', 'n', 'f'] || cs == ['n', 'a', 'n'] || isFraction cs

open PropertyList.Scalar (digits? after? afterFraction? offset? daysInMonth)

/-- The text after a date. -/
def afterDate? (cs : List Char) : Option (List Char) := do
  let (year, cs) ← digits? 4 cs
  let cs ← after? '-' cs
  let (month, cs) ← digits? 2 cs
  let cs ← after? '-' cs
  let (day, cs) ← digits? 2 cs
  guard (1 ≤ month && month ≤ 12 && 1 ≤ day && day ≤ daysInMonth year month)
  some cs

/-- The text after the seconds of a time of day, if there are any. -/
def afterSeconds? : List Char → Option (List Char)
  | ':' :: cs => do
    let (second, cs) ← digits? 2 cs
    guard (second ≤ 60)
    afterFraction? cs
  | cs => some cs

/-- The text after a time of day. -/
def afterTime? (cs : List Char) : Option (List Char) := do
  let (hour, cs) ← digits? 2 cs
  let cs ← after? ':' cs
  let (minute, cs) ← digits? 2 cs
  guard (hour ≤ 23 && minute ≤ 59)
  afterSeconds? cs

/-- Whether a character may stand between a date and a time of day. -/
def isDateTimeMark (c : Char) : Bool := c == 'T' || c == 't' || c == ' '

/-- Whether a text is a time of day, with an offset or without. -/
def isTimeWithOffset (cs : List Char) : Bool :=
  match afterTime? cs with
  | some rest => rest.isEmpty || (offset? rest).isSome
  | none => false

/-- Whether a text is a date, a time of day, or both; only both together may have an offset. -/
def isMoment (cs : List Char) : Bool :=
  match afterDate? cs with
  | some [] => true
  | some (c :: rest) => isDateTimeMark c && isTimeWithOffset rest
  | none => afterTime? cs == some []

/-- The value of a scalar without quotes. -/
def scalar? (cs : List Char) : Option Toml :=
  if cs = ['t', 'r', 'u', 'e'] then some (.bool true)
  else if cs = ['f', 'a', 'l', 's', 'e'] then some (.bool false)
  else if isInteger cs then some .integer
  else if isFloat cs then some .float
  else if isMoment cs then some .moment
  else none

end HotkeyTree.Toml
