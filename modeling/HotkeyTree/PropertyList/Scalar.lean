import HotkeyTree.Basic

/-!
# Scalars in property-list markup

How integers, real numbers, dates and data are written between their tags. Only integers are turned
into values; of the others it matters only whether they are well formed.
-/

namespace HotkeyTree.PropertyList.Scalar

/-- The value of a hexadecimal digit. -/
def hexValue? (c : Char) : Option Nat :=
  if '0' ≤ c ∧ c ≤ '9' then some (c.toNat - '0'.toNat)
  else if 'a' ≤ c ∧ c ≤ 'f' then some (c.toNat - 'a'.toNat + 10)
  else if 'A' ≤ c ∧ c ≤ 'F' then some (c.toNat - 'A'.toNat + 10)
  else none

/-- The number written by at least one digit in base 16. -/
def hexNumber? (cs : List Char) : Option Nat :=
  if cs.isEmpty then none else cs.foldlM (fun n c => (hexValue? c).map (16 * n + ·)) 0

/-- The number written by at least one decimal digit. -/
def number? (cs : List Char) : Option Nat :=
  if cs.isEmpty then none
  else cs.foldlM (fun n c => if c.isDigit then some (10 * n + (c.toNat - '0'.toNat)) else none) 0

/-! ## Integers -/

/-- The text without a plus sign in front. -/
def dropPlus : List Char → List Char
  | '+' :: cs => cs
  | cs => cs

/-- The text without the marks of base 16 in front. -/
def dropHexMarks : List Char → List Char
  | '0' :: 'x' :: cs => dropHexMarks cs
  | cs => cs

/-- An integer: decimal digits with an optional sign, or hexadecimal digits after `0x`. It fits into
64 bits, with or without sign. -/
def integer? : List Char → Option Int
  | '0' :: 'x' :: cs => do
    let n ← hexNumber? (dropPlus (dropHexMarks cs))
    if n < Bits64.count then some n else none
  | '-' :: cs => do
    let n ← number? cs
    if n ≤ Bits64.half then some (-n) else none
  | cs => do
    let n ← number? (dropPlus cs)
    if n < Bits64.count then some n else none

/-! ## Real numbers -/

/-- The text without a sign in front. -/
def dropSign : List Char → List Char
  | '+' :: cs => cs
  | '-' :: cs => cs
  | cs => cs

/-- Whether a text is the end of a real number that begins at its exponent. -/
def isExponent : List Char → Bool
  | [] => true
  | c :: cs =>
    (c == 'e' || c == 'E') &&
      let ds := dropSign cs
      !ds.isEmpty && ds.all Char.isDigit

/-- Whether a text is a real number: digits with a point before, between or after them and an
optional exponent, or one of the names of infinity and of no number, in any case. -/
def isReal (cs : List Char) : Bool :=
  let cs := dropSign cs
  let name := cs.map Char.toLower
  if name == ['i', 'n', 'f'] || name == ['i', 'n', 'f', 'i', 'n', 'i', 't', 'y']
      || name == ['n', 'a', 'n'] then true
  else
    let whole := cs.takeWhile Char.isDigit
    match cs.dropWhile Char.isDigit with
    | '.' :: rest =>
      let fraction := rest.takeWhile Char.isDigit
      !(whole.isEmpty && fraction.isEmpty) && isExponent (rest.dropWhile Char.isDigit)
    | rest => !whole.isEmpty && isExponent rest

/-! ## Dates -/

/-- How many days a month has. -/
def daysInMonth (year month : Nat) : Nat :=
  if month = 2 then if year % 4 = 0 ∧ (year % 100 ≠ 0 ∨ year % 400 = 0) then 29 else 28
  else if month = 4 ∨ month = 6 ∨ month = 9 ∨ month = 11 then 30
  else 31

/-- A number of so many decimal digits, and the text after it. -/
def digits? (count : Nat) (cs : List Char) : Option (Nat × List Char) := do
  let ds := cs.take count
  guard (ds.length = count)
  some (← number? ds, cs.drop count)

/-- The text after a given character. -/
def after? (c : Char) : List Char → Option (List Char)
  | d :: cs => if d = c then some cs else none
  | [] => none

/-- The text after the fraction of a second, if there is one. -/
def afterFraction? : List Char → Option (List Char)
  | '.' :: cs =>
    if (cs.takeWhile Char.isDigit).isEmpty then none else some (cs.dropWhile Char.isDigit)
  | cs => some cs

/-- The offset from universal time in minutes that a text consists of. -/
def offset? : List Char → Option Int
  | ['Z'] => some 0
  | ['z'] => some 0
  | c :: cs => do
    let (hours, cs) ← digits? 2 cs
    let cs ← after? ':' cs
    let (minutes, cs) ← digits? 2 cs
    guard (cs.isEmpty && hours ≤ 23 && minutes ≤ 59)
    if c = '+' then some (60 * hours + minutes)
    else if c = '-' then some (-(60 * hours + minutes))
    else none
  | [] => none

/-- Whether a leap second may fall on the end of this minute: in universal time it is the last
minute of a month. -/
def mayLeap (year month day hour minute : Nat) (offset : Int) : Bool :=
  let universal : Int := 60 * hour + minute - offset
  (universal = 1439 ∧ day = daysInMonth year month)
    ∨ (universal = -1 ∧ day = 1)

/-- The text after any one ASCII character. -/
def afterMark? : List Char → Option (List Char)
  | c :: cs => if c.toNat < 0x80 then some cs else none
  | [] => none

/-- Whether a text is a date and time of day with an offset, in universal time not after the year
9999. Any one ASCII character may stand between the date and the time. -/
def isDate (cs : List Char) : Bool :=
  let parsed : Option Bool := do
    let (year, cs) ← digits? 4 cs
    let cs ← after? '-' cs
    let (month, cs) ← digits? 2 cs
    let cs ← after? '-' cs
    let (day, cs) ← digits? 2 cs
    let (hour, cs) ← digits? 2 (← afterMark? cs)
    let cs ← after? ':' cs
    let (minute, cs) ← digits? 2 cs
    let cs ← after? ':' cs
    let (second, cs) ← digits? 2 cs
    let offset ← offset? (← afterFraction? cs)
    some (1 ≤ month && month ≤ 12 && 1 ≤ day && day ≤ daysInMonth year month && hour ≤ 23
      && minute ≤ 59 && (second ≤ 59 || (second = 60 && mayLeap year month day hour minute offset))
      && !(year = 9999 && month = 12 && day = 31 && 60 * (hour : Int) + minute - offset ≥ 1440))
  parsed.getD false

/-! ## Data -/

/-- The value of a digit in base 64. -/
def base64Value? (c : Char) : Option Nat :=
  if 'A' ≤ c ∧ c ≤ 'Z' then some (c.toNat - 'A'.toNat)
  else if 'a' ≤ c ∧ c ≤ 'z' then some (c.toNat - 'a'.toNat + 26)
  else if '0' ≤ c ∧ c ≤ '9' then some (c.toNat - '0'.toNat + 52)
  else if c = '+' then some 62
  else if c = '/' then some 63
  else none

/-- The blanks that may stand anywhere in data. -/
def isDataBlank (c : Char) : Bool :=
  c == ' ' || c == '\t' || c == '\n' || c == '\x0c' || c == '\r'

/-- Whether a text without blanks is data in base 64: groups of four digits, of which the last may
be filled up with equals signs; the bits that are filled up have to be zero. -/
def isBase64 : List Char → Bool
  | [] => true
  | [a, b, '=', '='] =>
    (base64Value? a).isSome && (base64Value? b).any (· % 16 == 0)
  | [a, b, c, '='] =>
    (base64Value? a).isSome && (base64Value? b).isSome && (base64Value? c).any (· % 4 == 0)
  | a :: b :: c :: d :: cs =>
    (base64Value? a).isSome && (base64Value? b).isSome && (base64Value? c).isSome
      && (base64Value? d).isSome && isBase64 cs
  | _ => false

/-- Whether a text is data. -/
def isData (cs : List Char) : Bool := isBase64 (cs.filter fun c => !isDataBlank c)

end HotkeyTree.PropertyList.Scalar
