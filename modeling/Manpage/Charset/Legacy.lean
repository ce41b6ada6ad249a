import Manpage.Charset.Utf8

/-!
# Legacy character sets

Bytes as text in character sets other than UTF-8.

## Main definitions

* `Windows1252.char`, `Windows1252.decode`: the character of a code below 256, and the text of a
  byte string.
* `Utf16.units`, `Utf16.decode`: the code units and the text of a byte string.
-/

namespace Manpage

/-! ## Windows-1252

Each byte is one character: ASCII and Latin-1, except that most of the controls from 128 to 159 are
punctuation and letters. -/

namespace Windows1252

/-- The characters that take the place of controls. -/
def controls : List (Nat × Char) :=
  [(0x80, '€'), (0x82, '‚'), (0x83, 'ƒ'), (0x84, '„'), (0x85, '…'), (0x86, '†'), (0x87, '‡'),
    (0x88, 'ˆ'), (0x89, '‰'), (0x8A, 'Š'), (0x8B, '‹'), (0x8C, 'Œ'), (0x8E, 'Ž'), (0x91, '‘'),
    (0x92, '’'), (0x93, '“'), (0x94, '”'), (0x95, '•'), (0x96, '–'), (0x97, '—'), (0x98, '˜'),
    (0x99, '™'), (0x9A, 'š'), (0x9B, '›'), (0x9C, 'œ'), (0x9E, 'ž'), (0x9F, 'Ÿ')]

/-- The character with the code `n`; from 256 on, the character with that code point. -/
def char (n : Nat) : Char :=
  (controls.lookup n).getD (Char.ofNat n)

/-- The text of a byte string. -/
def decode (bytes : Bytes) : List Char :=
  bytes.map (char ·.toNat)

end Windows1252

/-! ## UTF-16

The two bytes of a unit stand in either order.  A surrogate without its partner and a byte that is
left over become replacement characters. -/

namespace Utf16

/-- The order of the two bytes of a code unit. -/
inductive ByteOrder where
  | littleEndian
  | bigEndian
  deriving DecidableEq, Repr

/-- The code unit of two bytes. -/
def ByteOrder.unit (order : ByteOrder) (first second : UInt8) : Nat :=
  match order with
  | littleEndian => second.toNat * 256 + first.toNat
  | bigEndian => first.toNat * 256 + second.toNat

/-- The code units of a byte string; a byte that is left over at the end gives none. -/
def units (order : ByteOrder) : Bytes → List (Option Nat)
  | [] => []
  | [_] => [none]
  | a :: b :: bytes => some (order.unit a b) :: units order bytes

/-- Whether a code unit is the first half of a pair. -/
def isLead (unit : Nat) : Bool :=
  0xD800 ≤ unit && unit ≤ 0xDBFF

/-- Whether a code unit is the second half of a pair. -/
def isTrail (unit : Nat) : Bool :=
  0xDC00 ≤ unit && unit ≤ 0xDFFF

/-- The character of a pair of code units. -/
def pair (lead trail : Nat) : Char :=
  Char.ofNat (0x10000 + (lead - 0xD800) * 0x400 + (trail - 0xDC00))

/-- The character of a code unit outside a pair. -/
def single (unit : Nat) : Char :=
  if isTrail unit then Utf8.replacement else Char.ofNat unit

/-- The text of code units, where `lead` is the first half of a pair that is still open. -/
def ofUnits (lead : Option Nat) : List (Option Nat) → List Char
  | [] => lead.toList.map fun _ => Utf8.replacement
  | none :: _ => [Utf8.replacement]
  | some unit :: rest =>
    match lead with
    | some l =>
      if isTrail unit then pair l unit :: ofUnits none rest
      else if isLead unit then Utf8.replacement :: ofUnits (some unit) rest
      else Utf8.replacement :: single unit :: ofUnits none rest
    | none =>
      if isLead unit then ofUnits (some unit) rest else single unit :: ofUnits none rest

/-- The text of a byte string. -/
def decode (order : ByteOrder) (bytes : Bytes) : List Char :=
  ofUnits none (units order bytes)

end Utf16

end Manpage
