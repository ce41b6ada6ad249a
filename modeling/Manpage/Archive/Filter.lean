import Manpage.Archive.Basic

/-!
# Filters

What an xz file does to its content before it is compressed, so that it becomes more regular.
Machine code compresses better if its branches name their targets and not the way to them; here the
way is restored, so that the address in each branch is counted from the branch again.

## Main definitions

* `Branch.Machine`: the machines whose branches are known.
* `Branch.restore`: code with the addresses in its branches counted from the branches.
* `Filter`: a filter.
* `Filter.undo`, `Filter.undoAll`: the content before it was filtered.
-/

namespace Manpage.Archive

namespace Branch

/-- A machine whose branches are known. -/
inductive Machine where
  | x86
  | powerPC
  | itanium
  | arm
  | thumb
  | sparc
  deriving DecidableEq, Repr

/-- What the position of an instruction is a multiple of. -/
def Machine.alignment : Machine → Nat
  | x86 => 1
  | powerPC => 4
  | itanium => 16
  | arm => 4
  | thumb => 2
  | sparc => 4

/-! ## Instructions of one word -/

/-- A word of code for PowerPC. -/
def powerPC (position w : UInt32) : UInt32 :=
  if w >>> 26 = 0x12 ∧ w &&& 3 = 1 then
    (((w &&& 0x03FFFFFC) - position) &&& 0x03FFFFFC) ||| 0x48000001
  else w

/-- A word of code for ARM.  A branch counts words, from the second one after it. -/
def arm (position w : UInt32) : UInt32 :=
  if w >>> 24 = 0xEB then
    (((((w <<< 8) >>> 6) - (position + 8)) >>> 2) &&& 0x00FFFFFF) ||| 0xEB000000
  else w

/-- A word of code for SPARC.  A branch counts words, with a sign. -/
def sparc (position w : UInt32) : UInt32 :=
  if w >>> 22 = 0x100 ∨ w >>> 22 = 0x1FF then
    let way := ((w <<< 2) - position) >>> 2
    let sign : UInt32 := if way &&& 0x00400000 = 0 then 0 else 0x3FC00000
    (way &&& 0x003FFFFF) ||| sign ||| 0x40000000
  else w

/-- Code of words that are written with the lowest byte first, from a position on, each replaced
by what `f` gives for it; `out` is the code before. -/
def mapLowWords (f : UInt32 → UInt32 → UInt32) (position : UInt32) (out : Array UInt8) :
    Bytes → Array UInt8
  | a :: b :: c :: d :: rest =>
    let w := (Word.lowFirst [a, b, c, d]).toUInt32
    mapLowWords f (position + 4) (out ++ Word.lowBytes (f position w)) rest
  | bytes => out ++ bytes

/-- Code of words that are written with the highest byte first, from a position on, each replaced
by what `f` gives for it; `out` is the code before. -/
def mapHighWords (f : UInt32 → UInt32 → UInt32) (position : UInt32) (out : Array UInt8) :
    Bytes → Array UInt8
  | a :: b :: c :: d :: rest =>
    let w := (Word.highFirst [a, b, c, d]).toUInt32
    mapHighWords f (position + 4) (out ++ Word.highBytes (f position w)) rest
  | bytes => out ++ bytes

/-! ## Thumb -/

/-- Code for Thumb.  A branch is a pair of half words, each with eleven bits of the distance, which
is counted in half words from the second one after the branch. -/
def thumb (position : UInt32) (out : Array UInt8) : Bytes → Array UInt8
  | a :: b :: c :: d :: rest =>
    if b &&& 0xF8 = 0xF0 ∧ d &&& 0xF8 = 0xF8 then
      let high := (b &&& 7).toUInt32 <<< 8 ||| a.toUInt32
      let low := (d &&& 7).toUInt32 <<< 8 ||| c.toUInt32
      let way := ((high <<< 11 ||| low) <<< 1 - (position + 4)) >>> 1
      let bytes : Bytes :=
        [(way >>> 11).toUInt8, ((way >>> 19).toUInt8 &&& 7) ||| 0xF0,
          way.toUInt8, ((way >>> 8).toUInt8 &&& 7) ||| 0xF8]
      thumb (position + 4) (out ++ bytes) rest
    else thumb (position + 2) ((out.push a).push b) (c :: d :: rest)
  | bytes => out ++ bytes
  termination_by bytes => bytes.length

/-! ## Itanium -/

/-- The instructions of a bundle that can be branches under a template. -/
def branchSlots (template : Nat) : List Nat :=
  match template / 2 with
  | 8 => [2]
  | 9 => [1, 2]
  | 11 => [0, 1, 2]
  | 12 => [2]
  | 14 => [2]
  | _ => []

/-- An instruction of a bundle for Itanium.  A branch counts bundles, in twenty bits and a sign. -/
def itaniumInstruction (position : UInt32) (i : Nat) : Nat :=
  if i >>> 37 % 16 = 5 ∧ i >>> 9 % 8 = 0 then
    let bundles := i >>> 13 % 1 <<< 20
    let sign := i >>> 36 % 2
    let target := (sign <<< 20 + bundles) * 16
    let way := (target.toUInt32 - position).toNat / 16
    i - bundles <<< 13 - sign <<< 36 + (way % 1 <<< 20) <<< 13 + (way >>> 20 % 2) <<< 36
  else i

/-- A bundle for Itanium, as a number: a template of five bits and three instructions of 41. -/
def itaniumBundle (position : UInt32) (n : Nat) : Nat :=
  (branchSlots (n % 32)).foldl
    (fun n slot =>
      let weight := 1 <<< (5 + 41 * slot)
      let i := n / weight % 1 <<< 41
      n - i * weight + itaniumInstruction position i * weight)
    n

/-- Code for Itanium: bundles of sixteen bytes. -/
def itanium (position : UInt32) (out : Array UInt8) (bytes : Bytes) : Array UInt8 :=
  match h : bytes.drop 15 with
  | [] => out ++ bytes
  | _ :: rest =>
    have : rest.length < bytes.length := Word.length_lt_of_drop h
    let n := itaniumBundle position (Word.lowFirst (bytes.take 16))
    let bundle := (List.range 16).map fun i => (n >>> (8 * i)).toUInt8
    itanium (position + 16) (out ++ bundle) rest
  termination_by bytes.length

/-! ## X86 -/

/-- Whether a byte is the highest one of a number close to zero. -/
def isExtreme (b : UInt8) : Bool :=
  b = 0 || b = 0xFF

/-- A byte that starts a branch but was left as it is: whether the highest byte of its address is
extreme. -/
abbrev Left := Bool

/-- The distance of a branch from its target.  If one byte of the target has passed for the highest
of an address before, `recent` tells which, and it must not have become extreme. -/
def x86Way (position target : UInt32) (recent : List (Option Left)) : UInt32 :=
  let way := target - (position + 5)
  match recent.findIdx? Option.isSome with
  | none => way
  | some i =>
    let shift := 16 - 8 * i.toUInt32
    if isExtreme (way >>> shift).toUInt8 then
      (way ^^^ ((1 <<< (shift + 8)) - 1)) - (position + 5)
    else way

/-- Code for x86.  `recent` holds the last three bytes before it, the last one first: those that
start a branch but were left.  A branch is left if the highest byte of its address is not extreme
or if too much around it looks like a branch. -/
def x86 (position : UInt32) (recent : List (Option Left)) (out : Array UInt8) :
    Bytes → Array UInt8
  | a :: b :: c :: d :: e :: rest =>
    if a ≠ 0xE8 ∧ a ≠ 0xE9 then
      x86 (position + 1) (none :: recent.take 2) (out.push a) (b :: c :: d :: e :: rest)
    else
      let left := recent.filterMap id
      if isExtreme e ∧ left.length ≤ 1 ∧ left.all (!·) then
        let target := (Word.lowFirst [b, c, d, e]).toUInt32
        let way := x86Way position target recent
        let highest := if way >>> 24 &&& 1 = 0 then 0 else 0xFF
        x86 (position + 5) [] (out ++ (a :: (Word.lowBytes way).take 3 ++ [highest])) rest
      else
        x86 (position + 1) (some (isExtreme e) :: recent.take 2) (out.push a)
          (b :: c :: d :: e :: rest)
  | bytes => out ++ bytes
  termination_by bytes => bytes.length

/-! ## All machines -/

/-- Code for a machine, from a position on, with the addresses in its branches counted from the
branches. -/
def restore (machine : Machine) (position : UInt32) (code : Bytes) : Bytes :=
  let out :=
    match machine with
    | .x86 => x86 position [] #[] code
    | .powerPC => mapHighWords powerPC position #[] code
    | .itanium => itanium position #[] code
    | .arm => mapLowWords arm position #[] code
    | .thumb => thumb position #[] code
    | .sparc => mapHighWords sparc position #[] code
  out.toList

end Branch

/-- What is done to content before it is compressed. -/
inductive Filter where
  /-- Bytes are replaced by their differences from the bytes at a distance before them. -/
  | differences (distance : Nat)
  /-- Branches in machine code, which starts at a position, are made to name their targets. -/
  | branches (machine : Branch.Machine) (position : UInt32)
  deriving DecidableEq, Repr

namespace Filter

/-- The sums of bytes with those at a distance before them.  Before the start there are zeros. -/
def sums (distance : Nat) (bytes : Bytes) : Bytes :=
  let out := bytes.foldl (fun (out : Array UInt8) b =>
    out.push (b + if distance ≤ out.size then out.getD (out.size - distance) 0 else 0)) #[]
  out.toList

/-- Whether a filter can be used: machine code starts where an instruction can be. -/
def isUsable : Filter → Bool
  | differences _ => true
  | branches machine position => position.toNat % machine.alignment == 0

/-- The content before it was filtered. -/
def undo : Filter → Bytes → Bytes
  | differences distance, bytes => sums distance bytes
  | branches machine position, bytes => Branch.restore machine position bytes

/-- The content before it went through filters, one after the other. -/
def undoAll (filters : List Filter) (bytes : Bytes) : Bytes :=
  filters.foldr undo bytes

end Filter

end Manpage.Archive
