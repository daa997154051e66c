import HotkeyTree.Basic
import HotkeyTree.Json.Basic

/-!
# What a JSON number stands for

A number written without point and exponent may stand for an integer. Any number also has to lie in
the range of binary floating point (53 bits of precision, below 2^1024) wherever it is read as a
value rather than skipped. Reading keeps as many leading digits as fit into 64 bits, scales them by
a power of ten, and rounds to nearest, ties to even, at each step; a number is out of range when the
result rounds to 2^1024 or more.
-/

namespace HotkeyTree.Json.Number

/-- The value of a decimal digit. -/
def digitValue (c : Char) : Nat := c.toNat - '0'.toNat

/-- The number that a run of decimal digits writes. -/
def ofDigits (cs : List Char) : Nat := cs.foldl (fun n c => 10 * n + digitValue c) 0

/-- The integer a number stands for: it has no point and no exponent, and is not a negated zero. -/
def toInt? (n : Number) : Option Int :=
  if n.fraction.isEmpty && n.exponent.isNone then
    match n.negative, ofDigits n.whole with
    | false, m => some m
    | true, 0 => none
    | true, m + 1 => some (-(m + 1 : Nat))
  else none

/-- The integer a number stands for, if it fits into 64 bits with sign. -/
def toInt64? (n : Number) : Option Int64 :=
  n.toInt?.bind Bits64.signed?

/-- The number written for an integer. -/
def ofInt (i : Int) : Number :=
  { negative := i < 0, whole := Nat.toDigits 10 i.natAbs, fraction := [], exponent := none }

/-- The number with one more digit at its end. -/
def extend (significand : Nat) (digit : Char) : Nat := 10 * significand + digitValue digit

/-- Takes in the digits before the point, as long as the number fits into 64 bits: the number of the
leading digits kept, and how many were left out. -/
def takeWhole (significand : Nat) : List Char → Nat × Int
  | [] => (significand, 0)
  | d :: ds =>
    if extend significand d < Bits64.count then takeWhole (extend significand d) ds
    else (significand, (ds.length + 1 : Nat))

/-- Takes in the digits after the point, up to the first that no longer fits. -/
def takeFraction (significand : Nat) (scale : Int) : List Char → Nat × Int
  | [] => (significand, scale)
  | d :: ds =>
    if extend significand d < Bits64.count then takeFraction (extend significand d) (scale - 1) ds
    else (significand, scale)

/-- The number as an integer below 2^64 times a power of ten. -/
def scaled (n : Number) : Nat × Int :=
  let (s, e) := takeWhole 0 n.whole
  let (s, e) := takeFraction s e n.fraction
  (s, e + n.exponent.getD 0)

/-- The nearest number with at most 53 significant bits, ties to even. -/
def roundTo53 (n : Nat) : Nat :=
  let unit := 1 <<< (n.log2 + 1 - 53)
  let q := n / unit
  let r := n % unit
  if 2 * r > unit ∨ (2 * r = unit ∧ q % 2 = 1) then (q + 1) * unit else q * unit

/-- Whether the number lies in the range of binary floating point. -/
def inRange (n : Number) : Bool :=
  let (s, e) := n.scaled
  s = 0 ∨ e < 0 ∨ (e ≤ 308 ∧ roundTo53 (roundTo53 s * roundTo53 (Nat.pow 10 e.toNat)) < 1 <<< 1024)

end HotkeyTree.Json.Number
