import Manpage.Text.Basic

/-!
# UTF-8

Bytes as UTF-8 text: strictly, where bytes that encode no text have no meaning, and leniently,
where each malformed sequence becomes a replacement character.

## Main definitions

* `Bytes`: a byte string.
* `Utf8.encode`, `Utf8.decode?`: the bytes of a text, and the text that bytes encode, if they do.
* `Utf8.decodeLossy`: the text of any bytes.
* `Utf8.lines`: the lines of a byte stream, each the text of a line or nothing.
-/

namespace Manpage

/-- A byte string. -/
abbrev Bytes := List UInt8

namespace Utf8

/-- The bytes of a text. -/
def encode (text : List Char) : Bytes :=
  (String.ofList text).toUTF8.toList

/-- The text that `bytes` encode, if they encode one. -/
def decode? (bytes : Bytes) : Option (List Char) :=
  (String.fromUTF8? bytes.toByteArray).map String.toList

/-! ## Malformed sequences -/

/-- The first byte of a sequence of several bytes: how many bytes follow it, the least and the
greatest byte that can come next, and the bits it contributes. -/
def lead? (b : Nat) : Option (Nat × Nat × Nat × Nat) :=
  if 0xC2 ≤ b ∧ b ≤ 0xDF then some (1, 0x80, 0xBF, b - 0xC0)
  else if b = 0xE0 then some (2, 0xA0, 0xBF, 0)
  else if b = 0xED then some (2, 0x80, 0x9F, 0xD)
  else if 0xE1 ≤ b ∧ b ≤ 0xEF then some (2, 0x80, 0xBF, b - 0xE0)
  else if b = 0xF0 then some (3, 0x90, 0xBF, 0)
  else if 0xF1 ≤ b ∧ b ≤ 0xF3 then some (3, 0x80, 0xBF, b - 0xF0)
  else if b = 0xF4 then some (3, 0x80, 0x8F, 4)
  else none

/-- The code point of a sequence of which `left` bytes are still to come, the first of them
between `least` and `greatest`; nothing if another byte or the end comes first.  The second
component is what follows the sequence. -/
def continue? (left least greatest codePoint : Nat) (bytes : Bytes) : Option Nat × Bytes :=
  match left, bytes with
  | 0, bytes => (some codePoint, bytes)
  | _ + 1, [] => (none, [])
  | left + 1, b :: bytes =>
    if least ≤ b.toNat ∧ b.toNat ≤ greatest then
      continue? left 0x80 0xBF (codePoint * 64 + (b.toNat - 0x80)) bytes
    else (none, b :: bytes)

/-- The character that takes the place of a malformed sequence. -/
def replacement : Char := '\uFFFD'

/-- The character of the sequence that starts with `b`, and what follows it. -/
def nextLossy (b : UInt8) (bytes : Bytes) : Char × Bytes :=
  if b < 0x80 then (Char.ofNat b.toNat, bytes)
  else
    match lead? b.toNat with
    | some (left, least, greatest, bits) =>
      let (codePoint, rest) := continue? left least greatest bits bytes
      ((codePoint.map Char.ofNat).getD replacement, rest)
    | none => (replacement, bytes)

theorem length_continue?_le (left least greatest codePoint : Nat) (bytes : Bytes) :
    (continue? left least greatest codePoint bytes).2.length ≤ bytes.length := by
  fun_induction continue? left least greatest codePoint bytes with
  | case1 => exact Nat.le_refl _
  | case2 => exact Nat.le_refl _
  | case3 _ _ _ _ _ _ _ ih => exact Nat.le_succ_of_le ih
  | case4 => exact Nat.le_refl _

theorem length_nextLossy_le (b : UInt8) (bytes : Bytes) :
    (nextLossy b bytes).2.length ≤ bytes.length := by
  unfold nextLossy
  split
  · exact Nat.le_refl _
  · split
    · exact length_continue?_le _ _ _ _ _
    · exact Nat.le_refl _

/-- The text of `bytes`, with a replacement character for each malformed sequence. -/
def decodeLossy : Bytes → List Char
  | [] => []
  | b :: bytes => (nextLossy b bytes).1 :: decodeLossy (nextLossy b bytes).2
termination_by bytes => bytes.length
decreasing_by exact Nat.lt_succ_of_le (length_nextLossy_le b bytes)

/-! ## Lines of a byte stream -/

/-- The reason why a line of a byte stream cannot be read. -/
inductive LineError where
  /-- The line is not UTF-8. -/
  | notUtf8
  deriving DecidableEq, Repr

/-- The wording of a line that cannot be read. -/
def LineError.message : LineError → String
  | notUtf8 => "stream did not contain valid UTF-8"

/-- The text of a line, or the reason why it has none. -/
def line (bytes : Bytes) : Except LineError (List Char) :=
  match decode? bytes with
  | some cs => .ok cs
  | none => .error .notUtf8

/-- The lines of a byte stream whose pieces between line feeds are given. -/
def linesOfPieces : List Bytes → List (Except LineError (List Char))
  | [] => []
  | [last] => if last = [] then [] else [line last]
  | piece :: rest => (line piece).map Text.dropReturn :: linesOfPieces rest

/-- The lines of a byte stream. -/
def lines (bytes : Bytes) : List (Except LineError (List Char)) :=
  linesOfPieces (Text.pieces (· == 10) bytes)

end Utf8

end Manpage
