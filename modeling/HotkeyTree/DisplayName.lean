import HotkeyTree.Text.Blank
import HotkeyTree.Text.CaseForm

/-!
# Display names and the keys made from them

The vendor's display names may carry a marker that keeps them from being translated, and remarks in
parentheses at the end. `clean` takes off the marker. `key` makes an identifier in lower camel case
from what the name says: remarks are dropped, `/` and `-` separate words as blanks do, and only
ASCII letters and digits survive.

Different names may have the same key; `HotkeyTree.Keyed.Fresh` tells such entries apart.
-/

namespace HotkeyTree.DisplayName

open Text

/-- Stands before a name that must not be translated. -/
def marker : String := "DO_NOT_LOCALIZE:"

/-- Remarks that may end a name and are no part of its key, in the order they are taken off. -/
def remarks : List String := ["(AX_DESCRIPTION)", "(window management)"]

/-- The characters of a name after its leading markers and the blanks that follow each of them. -/
def unmark (cs : List Char) : List Char :=
  if marker.toList.isPrefixOf cs then unmark (trimStart (cs.drop marker.length)) else cs
termination_by cs.length
decreasing_by
  rename_i h
  have hne : cs ≠ [] := by
    rintro rfl
    exact absurd h (by decide)
  have hlen : (trimStart (cs.drop marker.length)).length ≤ (cs.drop marker.length).length :=
    (List.dropWhile_sublist _).length_le
  have hpos : 0 < cs.length := List.length_pos_iff.2 hne
  have hm : marker.length = 16 := by decide
  simp only [List.length_drop] at hlen
  omega

/-- The name a reader is shown. -/
def clean (name : String) : String := String.ofList (unmark name.toList)

/-- The characters without the given ending and the blanks before it, if they end so. -/
def dropRemark (remark cs : List Char) : List Char :=
  if remark.isSuffixOf cs then trimEnd (cs.take (cs.length - remark.length)) else cs

/-- `/` and `-` separate words as a blank does. -/
def spaced (c : Char) : Char := if c == '/' || c == '-' then ' ' else c

/-- A later word of a key: its first character in title case, the others as they are. -/
def laterWord : List Char → List Char
  | [] => []
  | c :: cs => titled c ++ cs.filter isKeyChar

/-- Words joined in lower camel case: the first word is lowered, every later one begins in title
case, and all but ASCII letters and digits is dropped. -/
def camelCase : List (List Char) → List Char
  | [] => []
  | w :: ws => w.flatMap lowered ++ ws.flatMap laterWord

/-- The characters of the key of a name. -/
def keyChars (cs : List Char) : List Char :=
  let body := remarks.foldl (fun body remark => dropRemark remark.toList body) (unmark cs)
  camelCase (words (body.map spaced))

/-- The identifier made from a name; empty when no letter or digit of it survives. -/
def key (name : String) : String := String.ofList (keyChars name.toList)

end HotkeyTree.DisplayName
