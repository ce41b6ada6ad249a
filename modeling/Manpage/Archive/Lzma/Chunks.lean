import Manpage.Archive.ByteReader
import Manpage.Archive.Lzma

/-!
# LZMA in chunks

The data of a block of an xz file: chunks of compressed data and of bytes as they are.  A chunk can
forget what came before it, in steps: the packets, the properties, the output.

## Main definitions

* `Lzma.Chunks.State`: the state between two chunks.
* `Lzma.Chunks.decode`: the content of chunks.
-/

namespace Manpage.Archive.Lzma.Chunks

open ByteReader (byte check take)

/-- The state between two chunks: the decoder, and the properties once they are set. -/
structure State where
  decoder : Decoder
  properties : Option Properties := none

/-- The decoder at the start. -/
def freshDecoder (window : Nat) (limit : Option Nat) : Decoder :=
  { range := 0, code := 0, input := [], probabilities := #[], window, limit }

/-- The decoder without its memory of packets. -/
def resetHistory (p : Properties) (d : Decoder) : Decoder :=
  { d with
    probabilities := evenProbabilities p
    history := 0
    distances := (0, 0, 0, 0) }

/-- The state without memory of the output; the next compressed chunk must set the properties. -/
def State.resetOutput (s : State) : State :=
  { decoder := { s.decoder with start := s.decoder.out.size } }

/-- Decodes `size` bytes to the end of the range coder. -/
def decodeChunk (p : Properties) (size : Nat) : Decode Unit := do
  restart
  decodeSized p size
  finish

/-- Runs the decoder on the next `n` bytes, of which it must leave none.  If it asks for more, they
are missing only where the file ends. -/
def decodeNext (n : Nat) (d : Decoder) (decoding : Decode Unit) : ByteReader Decoder := fun bytes =>
  let input := bytes.take n
  let rest := bytes.drop n
  match decoding { d with input } with
  | .ok (_, d) => if d.input = [] ∧ input.length = n then .ok (d, rest) else .error .xzData
  | .error .ends => .error (if rest = [] then .xzEnds else .xzData)
  | .error .invalid => .error .xzData

/-- A compressed chunk after its control byte. -/
def compressed (s : State) (control : Nat) : ByteReader State := do
  let level := control / 32 % 4
  check (2 ≤ level || s.properties.isSome)
  let size := control % 32 * 0x10000 + Word.highFirst (← take 2) + 1
  let packed := Word.highFirst (← take 2) + 1
  let properties ←
    if 2 ≤ level then pure (Properties.ofByte? (← byte)) else pure s.properties
  let some p := properties | throw .xzData
  let d := if 1 ≤ level then resetHistory p s.decoder else s.decoder
  return { decoder := ← decodeNext packed d (decodeChunk p size), properties := some p }

/-- A chunk of bytes as they are, after its control byte. -/
def plain (s : State) : ByteReader State := do
  let size := Word.highFirst (← take 2) + 1
  check !(s.decoder.passesLimit ((← get).take size).length)
  let bytes ← take size
  return { s with decoder := { s.decoder with out := s.decoder.out ++ bytes.toArray } }

/-- Chunks through the last one, at most `fuel` of them.  The first one must reset the output. -/
def decodeFrom (isFirst : Bool) : (fuel : Nat) → State → ByteReader (Array UInt8)
  | 0, _ => throw .xzData
  | fuel + 1, s => do
    let control := (← byte).toNat
    if control = 0 then return s.decoder.out
    else
      let resets := control = 1 || 0xE0 ≤ control
      check (!isFirst || resets)
      check (control ≤ 2 || 0x80 ≤ control)
      let s := if resets then s.resetOutput else s
      if 0x80 ≤ control then decodeFrom false fuel (← compressed s control)
      else decodeFrom false fuel (← plain s)

/-- The content of chunks whose references reach back at most `window` bytes; no more than `limit`
bytes, if there is a limit. -/
def decode (window : Nat) (limit : Option Nat) : ByteReader Bytes := do
  let fuel := (← get).length + 1
  return (← decodeFrom true fuel { decoder := freshDecoder window limit }).toList

end Manpage.Archive.Lzma.Chunks
