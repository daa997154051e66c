/-!
# ASCII parts of case forms

A key keeps only ASCII letters and digits, so of a character's full Unicode case mappings only the
ASCII letters matter. Outside ASCII few characters have any: two lower-case forms and seventeen
title-case forms, which are listed here.

The title-case form of a character is its upper-case form with every character after the first
lowered again, so that `ß` becomes `Ss`.
-/

namespace HotkeyTree.Text

/-- An ASCII letter or digit. -/
def isKeyChar (c : Char) : Bool := c.isAlphanum

/-- The non-ASCII characters whose lower-case form contains an ASCII letter, with that letter: the
capital `i` with a dot, whose combining dot is dropped, and the Kelvin sign. -/
def lowerForms : List (Nat × List Char) := [(0x130, ['i']), (0x212A, ['k'])]

/-- The non-ASCII characters whose title-case form contains ASCII letters, with those letters. -/
def titleForms : List (Nat × List Char) :=
  [(0xDF, ['S', 's']), (0x131, ['I']), (0x149, ['n']), (0x17F, ['S']), (0x1F0, ['J']),
   (0x1E96, ['H']), (0x1E97, ['T']), (0x1E98, ['W']), (0x1E99, ['Y']), (0x1E9A, ['A']),
   (0xFB00, ['F', 'f']), (0xFB01, ['F', 'i']), (0xFB02, ['F', 'l']), (0xFB03, ['F', 'f', 'i']),
   (0xFB04, ['F', 'f', 'l']), (0xFB05, ['S', 't']), (0xFB06, ['S', 't'])]

/-- The ASCII letters and digits of the lower-case form of a character. -/
def lowered (c : Char) : List Char :=
  if isKeyChar c then [c.toLower] else (lowerForms.lookup c.toNat).getD []

/-- The ASCII letters and digits of the title-case form of a character. -/
def titled (c : Char) : List Char :=
  if isKeyChar c then [c.toUpper] else (titleForms.lookup c.toNat).getD []

end HotkeyTree.Text
