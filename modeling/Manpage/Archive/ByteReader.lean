import Manpage.Archive.Basic

/-!
# Reading bytes

Readers that take bytes from the front of xz and lzma files.

## Main definitions

* `ByteReader`: a reader of bytes.
* `ByteReader.take`, `ByteReader.byte`, `ByteReader.expect`: bytes.
* `ByteReader.varNumber`: numbers that tell where they end.
* `ByteReader.within`, `ByteReader.limited`: readers that may not go on past some bytes.
-/

namespace Manpage.Archive

/-- A reader of bytes. -/
abbrev ByteReader := StateT Bytes (Except Error)

namespace ByteReader

/-- Goes on only if the condition holds. -/
def check (condition : Bool) (error : Error := .xzData) : ByteReader Unit :=
  if condition then pure () else throw error

/-- The next `n` bytes. -/
def take (n : Nat) : ByteReader Bytes := fun bytes =>
  let front := bytes.take n
  if front.length = n then .ok (front, bytes.drop n) else .error .xzEnds

/-- The next byte. -/
def byte : ByteReader UInt8 := fun bytes =>
  match bytes with
  | [] => .error .xzEnds
  | b :: rest => .ok (b, rest)

/-- Reads the bytes `expected` and no others. -/
def expect : (expected : Bytes) → ByteReader Unit
  | [] => pure ()
  | b :: rest => do
    check ((← byte) == b)
    expect rest

/-- A number of at most `n` bytes with seven bits each, the lowest first; the highest bit of a byte
says that more follow. -/
def number (weight : Nat) : (n : Nat) → ByteReader Nat
  | 0 => throw .xzData
  | n + 1 => do
    let b ← byte
    let part := b.toNat % 128 * weight
    if b < 0x80 then
      check (b ≠ 0 || weight == 1)
      return part
    else return part + (← number (weight * 128) n)

/-- A number of at most nine bytes. -/
def varNumber : ByteReader Nat :=
  number 1 9

/-- What `n` readings one after the other give. -/
def many {α : Type} (reader : ByteReader α) : (n : Nat) → ByteReader (List α)
  | 0 => pure []
  | n + 1 => do
    let a ← reader
    return a :: (← many reader n)

/-- Reads bytes that are at hand; the reader may not go on past them. -/
def within {α : Type} (bytes : Bytes) (reader : ByteReader α) : ByteReader α := fun rest =>
  match reader bytes with
  | .ok (a, _) => .ok (a, rest)
  | .error .xzEnds => .error .xzData
  | .error e => .error e

/-- Reads on; where the file ends too early, it has ended after the limit. -/
def limited {α : Type} (limit : Option Nat) (reader : ByteReader α) : ByteReader α := fun bytes =>
  match reader bytes with
  | .error .xzEnds => .error (if limit.any (· < bytes.length) then .xzData else .xzEnds)
  | result => result

end ByteReader

end Manpage.Archive
