import HotkeyTree.Basic
import HotkeyTree.PropertyList.Basic

/-!
# Property lists in binary form

A binary file begins with a mark of eight bytes and ends with a trailer of 32, which says how wide
object references and offsets are, how many objects there are, which of them is the whole, and where
the table of their offsets begins. An object is a byte that tells its type and size, followed by its
content; arrays and dictionaries refer to other objects. An object may be shared but may not contain
itself.
-/

namespace HotkeyTree.PropertyList.Binary

/-- The mark a binary file begins with. -/
def mark : List UInt8 := [0x62, 0x70, 0x6C, 0x69, 0x73, 0x74, 0x30, 0x30]

/-- The number written in a run of bytes, the most significant first. -/
def number (bytes : List UInt8) : Nat := bytes.foldl (fun n b => 256 * n + b.toNat) 0

/-- So many bytes from an offset on. -/
def slice? (file : ByteArray) (offset count : Nat) : Option (List UInt8) :=
  if offset + count ≤ file.size then
    some ((file.extract offset (offset + count)).data.toList)
  else none

/-- The number of so many bytes at an offset. -/
def numberAt? (file : ByteArray) (offset count : Nat) : Option Nat :=
  (slice? file offset count).map number

/-- What is known of a file from its trailer. -/
structure Layout where
  /-- How many bytes a reference to an object has. -/
  refSize : Nat
  /-- Where each object begins. -/
  offsets : List Nat
  /-- Which object is the whole. -/
  top : Nat
  /-- Where the trailer begins. -/
  trailer : Nat
deriving Repr

/-- The widths that references and offsets may have. -/
def isWidth (n : Nat) : Bool := n == 1 || n == 2 || n == 3 || n == 4 || n == 8

/-- So many numbers of one width from an offset on. -/
def numbers? (file : ByteArray) (offset count width : Nat) : Option (List Nat) :=
  (List.range count).mapM fun i => numberAt? file (offset + i * width) width

/-- Reads the trailer and the table of offsets. -/
def layout? (file : ByteArray) : Option Layout := do
  guard (32 ≤ file.size)
  let trailer := file.size - 32
  let offsetSize ← numberAt? file (trailer + 6) 1
  let refSize ← numberAt? file (trailer + 7) 1
  guard (isWidth offsetSize && isWidth refSize)
  let count ← numberAt? file (trailer + 8) 8
  let top ← numberAt? file (trailer + 16) 8
  let table ← numberAt? file (trailer + 24) 8
  guard (table + count * offsetSize ≤ trailer)
  let offsets ← numbers? file table count offsetSize
  some { refSize, offsets, top, trailer }

/-- How many units an object's content has and where the content begins, given where the object does
and how many bytes a unit has: a size of 15 says that the number follows as a number of its own.
Counted from the beginning of the object, so many units must end before the trailer; the mark and
the number in front of them do not count. -/
def content? (file : ByteArray) (l : Layout) (start size unit : Nat) : Option (Nat × Nat) := do
  let (count, offset) ←
    if size = 15 then do
      let width := 1 <<< ((← numberAt? file (start + 1) 1) % 4)
      some (← numberAt? file (start + 2) width, start + 2 + width)
    else some (size, start + 1)
  guard (start + count * unit ≤ l.trailer)
  some (count, offset)

/-- The characters that UTF-16 code units stand for. -/
def fromUtf16? : List Nat → Option (List Char)
  | [] => some []
  | u :: us =>
    if 0xD800 ≤ u ∧ u < 0xDC00 then
      match us with
      | v :: vs =>
        if 0xDC00 ≤ v ∧ v < 0xE000 then
          (fromUtf16? vs).map
            (Char.ofNat (0x10000 + (u - 0xD800) * 0x400 + (v - 0xDC00)) :: ·)
        else none
      | [] => none
    else if 0xDC00 ≤ u ∧ u < 0xE000 then none
    else (fromUtf16? us).map (Char.ofNat u :: ·)

/-- The integer of `2 ^ size` bytes at an offset. Up to four bytes are without sign, eight are with
sign, and sixteen must fit into 64 bits without sign. -/
def integer? (file : ByteArray) (size offset : Nat) : Option Int := do
  guard (size ≤ 4)
  let n ← numberAt? file offset (1 <<< size)
  if size = 3 then some (if n < Bits64.half then n else (n : Int) - Bits64.count)
  else if n < Bits64.count then some n
  else none

/-- The seconds from the beginning of the year -9999 to that of the year 2001. -/
def secondsBefore : Nat := 378683424000

/-- The seconds from the beginning of the year 2001 to that of the year 10000. -/
def secondsAfter : Nat := 252423993600

/-- Whether 64 bits of floating point stand for a point in time: a number of seconds after the
beginning of the year 2001 that does not lead out of the years from -9999 to 9999. -/
def isTime (bits : Nat) : Bool :=
  let exponent := (bits >>> 52) % 2048
  let unit := 1 <<< 52
  let seconds := (unit + bits % unit) <<< (exponent - 1075)
  let scale := 1075 - exponent
  exponent ≠ 2047 &&
    (if bits < Bits64.half then seconds < secondsAfter <<< scale
      else seconds ≤ secondsBefore <<< scale)

/-- Joins the keys and values of a dictionary; every key must be a text. -/
def entries? : List PropertyList → List PropertyList → Option (List (String × PropertyList))
  | .string k :: ks, v :: vs => (entries? ks vs).map ((k, v) :: ·)
  | [], _ => some []
  | _, _ => none

/-- Reads an object from which there are fewer levels of containers downwards than the third
argument says. -/
def objectWithin? (file : ByteArray) (l : Layout) : Nat → Nat → Option PropertyList
  | 0, _ => none
  | levels + 1, ref => do
    let start ← l.offsets[ref]?
    guard (start < l.trailer)
    let token ← numberAt? file start 1
    let size := token % 16
    match token / 16, size with
    | 0x0, 0x8 => some (.bool false)
    | 0x0, 0x9 => some (.bool true)
    | 0x1, _ => (integer? file size (start + 1)).map .integer
    | 0x2, 0x2 => (slice? file (start + 1) 4).map fun _ => .real
    | 0x2, 0x3 => (slice? file (start + 1) 8).map fun _ => .real
    | 0x3, 0x3 => do
      let bits ← numberAt? file (start + 1) 8
      guard (isTime bits)
      some .date
    | 0x4, _ => do
      let (count, offset) ← content? file l start size 1
      let _ ← slice? file offset count
      some .data
    | 0x5, _ => do
      let (count, offset) ← content? file l start size 1
      let bytes ← slice? file offset count
      (String.fromUTF8? ⟨bytes.toArray⟩).map .string
    | 0x6, _ => do
      let (count, offset) ← content? file l start size 2
      let units ← numbers? file offset count 2
      (fromUtf16? units).map fun cs => .string (String.ofList cs)
    | 0x8, _ => do
      guard (size < 8)
      let _ ← slice? file (start + 1) (size + 1)
      some .uid
    | 0xA, _ => do
      let (count, offset) ← content? file l start size l.refSize
      let refs ← numbers? file offset count l.refSize
      (refs.mapM (objectWithin? file l levels)).map .array
    | 0xD, _ => do
      let (count, offset) ← content? file l start size (2 * l.refSize)
      let keyRefs ← numbers? file offset count l.refSize
      let valueRefs ← numbers? file (offset + count * l.refSize) count l.refSize
      let ks ← keyRefs.mapM (objectWithin? file l levels)
      let vs ← valueRefs.mapM (objectWithin? file l levels)
      (entries? ks vs).map fun es => .dict (Keyed.ofPairs es)
    | _, _ => none

/-- Reads a property list. Down from an object there are never more levels than objects, unless one
contains itself. -/
def read? (file : ByteArray) : Option PropertyList := do
  let l ← layout? file
  objectWithin? file l l.offsets.length l.top

end HotkeyTree.PropertyList.Binary
