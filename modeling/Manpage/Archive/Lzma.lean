import Manpage.Archive.Bits
import Manpage.Archive.Basic

/-!
# LZMA

The compressed data of xz and lzma files: literal bytes and references to what was written before,
each decision coded by a range coder under a probability that adapts to the decisions made so far.

## Main definitions

* `Lzma.Properties`: what a file sets for its data.
* `Lzma.Decoder`: the state of decoding.
* `Lzma.decision`: one decision under a probability.
* `Lzma.packet`: a literal, a reference or the end mark.
* `Lzma.decodeSized`, `Lzma.decodeMarked`: data of a known size, and data with an end mark.
* `Lzma.unpack`: the content of an lzma file.
-/

namespace Manpage.Archive.Lzma

/-- What a file sets for its data: how many bits of the byte before a literal, and of the position,
choose the probabilities. -/
structure Properties where
  /-- Bits of the byte before a literal. -/
  context : Nat
  /-- Bits of the position of a literal. -/
  literalPosition : Nat
  /-- Bits of the position of other decisions. -/
  position : Nat

/-- The properties that a byte gives. -/
def Properties.ofByte? (b : UInt8) : Option Properties :=
  let n := b.toNat
  let context := n % 9
  let literalPosition := n / 9 % 5
  if n < 225 ∧ context + literalPosition ≤ 4 then
    some { context, literalPosition, position := n / 45 }
  else none

/-! ## Where probabilities are kept -/

/-- Whether a packet is a reference. -/
def isMatchAt : Nat := 0
/-- Whether a reference repeats a distance. -/
def isRepeatAt : Nat := 192
/-- Whether it does not repeat the last distance. -/
def isOlderAt : Nat := 204
/-- Whether it does not repeat the second last distance either. -/
def isThirdAt : Nat := 216
/-- Whether it repeats the fourth last distance. -/
def isFourthAt : Nat := 228
/-- Whether it repeats the last distance for more than one byte. -/
def isLongAt : Nat := 240
/-- The highest bits of a distance. -/
def slotAt : Nat := 432
/-- The middle bits of a distance. -/
def specialAt : Nat := 688
/-- The lowest bits of a distance. -/
def alignAt : Nat := 816
/-- The length of a reference with a new distance. -/
def lengthAt : Nat := 832
/-- The length of a reference that repeats a distance. -/
def repeatLengthAt : Nat := 1346
/-- Literals. -/
def literalAt : Nat := 1860

/-- The probabilities at the start: all even. -/
def evenProbabilities (p : Properties) : Array UInt16 :=
  Array.replicate (literalAt + 0x300 <<< (p.context + p.literalPosition)) 1024

/-! ## The range coder -/

/-- The state of decoding. -/
structure Decoder where
  range : UInt32
  code : UInt32
  /-- The input that is left. -/
  input : Bytes
  probabilities : Array UInt16
  /-- The kinds of the last packets, as a number below 12. -/
  history : Nat := 0
  /-- The last four distances, less one. -/
  distances : Nat × Nat × Nat × Nat := (0, 0, 0, 0)
  /-- What is decoded so far. -/
  out : Array UInt8 := #[]
  /-- Where references cannot reach before. -/
  start : Nat := 0
  /-- How far back references can reach. -/
  window : Nat
  /-- How much may be decoded, if that is known. -/
  limit : Option Nat := none

/-- A step of decoding. -/
abbrev Decode := StateT Decoder (Except Fault)

/-- Takes a byte of input whenever the range has become too narrow. -/
def normalize : Decode Unit := fun d =>
  if d.range < 0x1000000 then
    match d.input with
    | [] => .error .ends
    | b :: rest =>
      .ok ((), { d with
        range := d.range <<< 8, code := (d.code <<< 8) ||| b.toUInt32, input := rest })
  else .ok ((), d)

/-- Decides under the probability at `i`, which adapts to the decision. -/
def decideAt (i : Nat) (d : Decoder) : Bool × Decoder :=
  let p := d.probabilities.getD i 1024
  let bound := (d.range >>> 11) * p.toUInt32
  if d.code < bound then
    (false, { d with
      range := bound
      probabilities := d.probabilities.setIfInBounds i (p + ((2048 - p) >>> 5)) })
  else
    (true, { d with
      range := d.range - bound
      code := d.code - bound
      probabilities := d.probabilities.setIfInBounds i (p - (p >>> 5)) })

/-- One decision under the probability at `i`. -/
def decision (i : Nat) : Decode Bool := do
  normalize
  modifyGet (decideAt i)

/-- Decides between two halves of the range. -/
def decideEven (d : Decoder) : Bool × Decoder :=
  let half := d.range >>> 1
  if d.code < half then (false, { d with range := half })
  else (true, { d with range := half, code := d.code - half })

/-- One decision that is as likely as not. -/
def evenDecision : Decode Bool := do
  normalize
  modifyGet decideEven

/-- `n` decisions that are as likely as not, as a number that `front` starts. -/
def evenNumber (front : Nat) : (n : Nat) → Decode Nat
  | 0 => pure front
  | n + 1 => do
    let b ← evenDecision
    evenNumber (2 * front + b.toNat) n

/-- A number of `n` bits, the highest first, each under a probability chosen by those before;
`front` is 1 followed by the bits so far. -/
def treeFrom (base front : Nat) : (n : Nat) → Decode Nat
  | 0 => pure front
  | n + 1 => do
    let b ← decision (base + front)
    treeFrom base (2 * front + b.toNat) n

/-- A number of `n` bits, the highest first. -/
def tree (base n : Nat) : Decode Nat := do
  return (← treeFrom base 1 n) - 1 <<< n

/-- A number of bits, the lowest first, each under a probability chosen by those before; the next
bit has the weight `weight`. -/
def reverseTreeFrom (base front weight : Nat) : (n : Nat) → Decode Nat
  | 0 => pure 0
  | n + 1 => do
    let b ← decision (base + front)
    return b.toNat * weight + (← reverseTreeFrom base (2 * front + b.toNat) (2 * weight) n)

/-- A number of `n` bits, the lowest first. -/
def reverseTree (base n : Nat) : Decode Nat :=
  reverseTreeFrom base 1 1 n

/-! ## Packets -/

/-- The position in what is decoded. -/
def position : Decode Nat := do
  let d ← get
  return d.out.size - d.start

/-- The byte `distance + 1` before the end, if references can reach it. -/
def byteBack? (d : Decoder) (distance : Nat) : Option UInt8 :=
  if distance < min (d.out.size - d.start) d.window then d.out[d.out.size - 1 - distance]? else none

/-- The bits of a literal where the byte at the last distance is a likely value: as long as the
bits agree with it, it chooses the probabilities. -/
def matchedLiteral (base front : Nat) (likely : Nat) : (n : Nat) → Decode Nat
  | 0 => pure front
  | n + 1 => do
    let expected := likely.testBit n
    let b ← decision (base + (if expected then 0x200 else 0x100) + front)
    let front := 2 * front + b.toNat
    if b = expected then matchedLiteral base front likely n else treeFrom base front n

/-- The history after a literal. -/
def afterLiteral (history : Nat) : Nat :=
  if history < 4 then 0 else if history < 10 then history - 3 else history - 6

/-- A literal. -/
def literal (p : Properties) : Decode Unit := do
  let d ← get
  let before := ((byteBack? d 0).getD 0).toNat
  let place := ((← position) % 1 <<< p.literalPosition) <<< p.context + before >>> (8 - p.context)
  let base := literalAt + 0x300 * place
  let n ←
    if d.history < 7 then treeFrom base 1 8
    else matchedLiteral base 1 ((byteBack? d d.distances.1).getD 0).toNat 8
  modify fun d => { d with out := d.out.push n.toUInt8, history := afterLiteral d.history }

/-- The length of a reference, less two. -/
def length (base place : Nat) : Decode Nat := do
  if !(← decision base) then tree (base + 2 + 8 * place) 3
  else if !(← decision (base + 1)) then return 8 + (← tree (base + 130 + 8 * place) 3)
  else return 16 + (← tree (base + 258) 8)

/-- A new distance for a reference of a given length, less one. -/
def newDistance (length : Nat) : Decode Nat := do
  let slot ← tree (slotAt + 64 * min length 3) 6
  if slot < 4 then return slot
  else
    let lowBits := slot / 2 - 1
    let base := (2 + slot % 2) <<< lowBits
    if slot < 14 then return base + (← reverseTree (specialAt + base - slot) lowBits)
    else
      let high ← evenNumber 0 (lowBits - 4)
      return base + high * 16 + (← reverseTree alignAt 4)

/-- Writes `n` bytes, each the byte `distance + 1` before it. -/
def copy (distance : Nat) : (n : Nat) → Decode Unit
  | 0 => pure ()
  | n + 1 => do
    match byteBack? (← get) distance with
    | none => throw .invalid
    | some b =>
      modify fun d => { d with out := d.out.push b }
      copy distance n

/-- What a packet asks for. -/
inductive Packet where
  /-- A literal, which is written. -/
  | literal
  /-- Bytes to copy: how many. -/
  | copy (length : Nat)
  /-- The end of the data. -/
  | endMark
  deriving DecidableEq, Repr

/-- The distance of the end mark. -/
def endDistance : Nat := 0xFFFFFFFF

/-- A reference with a new distance. -/
def newReference (place : Nat) : Decode Packet := do
  let n ← length lengthAt place
  let distance ← newDistance n
  modify fun d =>
    { d with
      distances := (distance, d.distances.1, d.distances.2.1, d.distances.2.2.1)
      history := if d.history < 7 then 7 else 10 }
  if distance = endDistance then return .endMark else return .copy (n + 2)

/-- Makes the distance with the given age the last one. -/
def reuse (age : Nat) : Decode Unit := modify fun d =>
  let (a, b, c, e) := d.distances
  { d with
    distances :=
      match age with
      | 0 => (a, b, c, e)
      | 1 => (b, a, c, e)
      | 2 => (c, a, b, e)
      | _ => (e, a, b, c) }

/-- A reference that repeats a distance.  There must be output before it. -/
def repeatReference (place : Nat) : Decode Packet := do
  let history := (← get).history
  if (← position) = 0 then throw .invalid
  if !(← decision (isOlderAt + history)) then
    if !(← decision (isLongAt + 16 * history + place)) then
      modify fun d => { d with history := if history < 7 then 9 else 11 }
      return .copy 1
  else if !(← decision (isThirdAt + history)) then reuse 1
  else if !(← decision (isFourthAt + history)) then reuse 2
  else reuse 3
  let n ← length repeatLengthAt place
  modify fun d => { d with history := if history < 7 then 8 else 11 }
  return .copy (n + 2)

/-- A literal, a reference or the end mark. -/
def packet (p : Properties) : Decode Packet := do
  let place := (← position) % 1 <<< p.position
  let history := (← get).history
  if !(← decision (isMatchAt + 16 * history + place)) then
    literal p
    return .literal
  else if !(← decision (isRepeatAt + history)) then newReference place
  else repeatReference place

/-! ## Data -/

/-- Starts the range coder. -/
def restart : Decode Unit := do
  let d ← get
  match d.input with
  | first :: a :: b :: c :: e :: rest =>
    if first ≠ 0 then throw .invalid
    set { d with
      range := 0xFFFFFFFF, code := (Word.highFirst [a, b, c, e]).toUInt32, input := rest }
  | first :: _ => throw (if first ≠ 0 then .invalid else .ends)
  | [] => throw .ends

/-- Makes sure that the range coder has come to its end. -/
def finish : Decode Unit := do
  normalize
  if (← get).code ≠ 0 then throw .invalid

/-- Whether `n` bytes more are too many. -/
def Decoder.passesLimit (d : Decoder) (n : Nat) : Bool :=
  d.limit.any (· < d.out.size + n)

/-- Decodes until there are `size` bytes, at most `fuel` packets.  A reference may not write
more. -/
def decodeUpTo (p : Properties) (size : Nat) : (fuel : Nat) → Decode Unit
  | 0 => throw .invalid
  | fuel + 1 => do
    if (← get).passesLimit 0 then throw .invalid
    if size ≤ (← get).out.size then return
    match ← packet p with
    | .literal => decodeUpTo p size fuel
    | .copy n =>
      if size < (← get).out.size + n then throw .invalid
      copy (← get).distances.1 n
      decodeUpTo p size fuel
    | .endMark => throw .invalid

/-- Decodes `n` bytes more. -/
def decodeSized (p : Properties) (n : Nat) : Decode Unit := do
  decodeUpTo p ((← get).out.size + n) (n + 1)

/-- Decodes through the end mark, at most `fuel` packets. -/
def decodeMarked (p : Properties) : (fuel : Nat) → Decode Unit
  | 0 => throw .invalid
  | fuel + 1 => do
    match ← packet p with
    | .literal => decodeMarked p fuel
    | .copy n =>
      copy (← get).distances.1 n
      decodeMarked p fuel
    | .endMark => finish

/-- More packets than `n` bytes of input can hold: a decision narrows the range by one part in 67 at
least, so a byte holds less than 372 of them. -/
def packetBound (n : Nat) : Nat := 512 * (n + 8)

/-- The size in a header that stands for data with an end mark. -/
def unknownSize : Nat := 1 <<< 64 - 1

/-- How far back references reach under the dictionary size of a header. -/
def windowOf (dictionarySize : Nat) : Nat :=
  (max dictionarySize 4096 + 15) / 16 * 16

/-- The content of an lzma file. -/
def unpack (bytes : Bytes) : Except Error Bytes := do
  let some first := bytes.head? | throw .xzEnds
  let some p := Properties.ofByte? first | throw .xzFormat
  if bytes.length < 13 then throw .xzEnds
  let window := windowOf (Word.lowFirst ((bytes.take 5).drop 1))
  let size := Word.lowFirst ((bytes.take 13).drop 5)
  let d : Decoder :=
    { range := 0, code := 0, input := bytes.drop 13, probabilities := evenProbabilities p, window }
  let decoding : Decode Unit := do
    restart
    if size = unknownSize then decodeMarked p (packetBound bytes.length)
    else
      decodeSized p size
      finish
  match decoding d with
  | .ok (_, d) => if d.input = [] then return d.out.toList else throw .xzTrailing
  | .error .ends => throw .xzEnds
  | .error .invalid => throw .xzData

end Manpage.Archive.Lzma
