import Manpage.Charset.Utf8

/-!
# Reading bits

Compressed data is read bit by bit.  A reader takes bits from the front; it fails where the bits
end and where they make no sense.

## Main definitions

* `Fault`: the two ways in which reading can fail.
* `Bits.lowFirst`, `Bits.highFirst`: the bits of bytes in either order.
* `BitReader`: a reader of bits.
* `BitReader.lowNumber`, `BitReader.highNumber`: numbers of a fixed width.
-/

namespace Manpage.Archive

/-- The two ways in which reading can fail. -/
inductive Fault where
  /-- The input ends too early. -/
  | ends
  /-- The input makes no sense. -/
  | invalid
  deriving DecidableEq, Repr

/-- Bits in the order in which they are read. -/
abbrev Bits := List Bool

namespace Bits

/-- The bits of `bytes`, the lowest bit of each byte first. -/
def lowFirst (bytes : Bytes) : Bits :=
  bytes.flatMap fun b => (List.range 8).map b.toNat.testBit

/-- The bits of `bytes`, the highest bit of each byte first. -/
def highFirst (bytes : Bytes) : Bits :=
  bytes.flatMap fun b => (List.range 8).reverse.map b.toNat.testBit

end Bits

/-- A reader of bits. -/
abbrev BitReader := StateT Bits (Except Fault)

namespace BitReader

/-- A bit. -/
def bit : BitReader Bool := fun bits =>
  match bits with
  | [] => .error .ends
  | b :: rest => .ok (b, rest)

/-- A number of `n` bits, the lowest first. -/
def lowNumber : (n : Nat) → BitReader Nat
  | 0 => pure 0
  | n + 1 => do
    let b ← bit
    return b.toNat + 2 * (← lowNumber n)

/-- A number whose highest bits are `front` and whose other `n` bits follow, the highest first. -/
def highNumberFrom (front : Nat) : (n : Nat) → BitReader Nat
  | 0 => pure front
  | n + 1 => do
    let b ← bit
    highNumberFrom (2 * front + b.toNat) n

/-- A number of `n` bits, the highest first. -/
def highNumber (n : Nat) : BitReader Nat :=
  highNumberFrom 0 n

/-- Skips the bits up to the next byte, where all bits belong to bytes. -/
def align : BitReader Unit :=
  modify fun bits => bits.drop (bits.length % 8)

/-- The number of bits that are left. -/
def left : BitReader Nat := do
  return (← get).length

/-- The value, if it is there. -/
def require {α : Type} : Option α → BitReader α
  | some a => pure a
  | none => throw .invalid

/-- Goes on only if the condition holds. -/
def check (condition : Bool) : BitReader Unit :=
  if condition then pure () else throw .invalid

/-- What `n` readings one after the other give. -/
def many {α : Type} (reader : BitReader α) : (n : Nat) → BitReader (List α)
  | 0 => pure []
  | n + 1 => do
    let a ← reader
    return a :: (← many reader n)

end BitReader

end Manpage.Archive
