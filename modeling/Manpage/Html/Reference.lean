import Manpage.Charset.Legacy

/-!
# Character references

The references `&lt;`, `&gt;`, `&amp;`, `&nbsp;` and the numeric ones, as a document is read.  A
numeric reference to a code point that is no character gives the replacement character, and the
controls from 128 on are read as windows-1252 does.

## Main definitions

* `Reference.codePoint`: the character of a numeric reference.
* `Reference.read`: the text of a reference and what follows it.
-/

namespace Manpage.Html.Reference

/-- The character that takes the place of what is no character. -/
def replacement : Char := '\uFFFD'

/-- The character of the numeric reference to `n`. -/
def codePoint (n : Nat) : Char :=
  if n = 0 ∨ ¬ n.isValidChar then replacement
  else Windows1252.char n

/-- The value of a digit in the base `base`. -/
def digit? (base : Nat) (c : Char) : Option Nat :=
  let value? :=
    if c.isDigit then some (c.toNat - '0'.toNat)
    else if 'a' ≤ c ∧ c ≤ 'f' then some (c.toNat - 'a'.toNat + 10)
    else if 'A' ≤ c ∧ c ≤ 'F' then some (c.toNat - 'A'.toNat + 10)
    else none
  value?.filter (· < base)

/-- The number that digits in the base `base` spell. -/
def number (base : Nat) (digits : List Char) : Nat :=
  digits.foldl (fun n c => base * n + (digit? base c).getD 0) 0

/-- What follows a numeric reference, past the semicolon that ends it. -/
def afterSemicolon : List Char → List Char
  | ';' :: cs => cs
  | cs => cs

/-- A numeric reference in the base `base` whose digits come first in `cs`, and what follows it. -/
def numeric? (base : Nat) (cs : List Char) : Option (Char × List Char) :=
  match cs.takeWhile fun c => (digit? base c).isSome with
  | [] => none
  | digits => some (codePoint (number base digits), afterSemicolon (cs.drop digits.length))

/-- The references that have names. -/
def named : List (List Char × Char) :=
  [(['l', 't'], '<'), (['g', 't'], '>'), (['a', 'm', 'p'], '&'), (['n', 'b', 's', 'p'], '\u00A0')]

/-- Whether a named reference without a semicolon is plain text in an attribute value. -/
def isPlainInValue : List Char → Bool
  | [] => false
  | c :: _ => c == '=' || c.isAlphanum

/-- The reference named by the front of `cs`, and what follows it.  The semicolon may be left
out, except in an attribute value before an equals sign, a letter or a digit. -/
def named? (inValue : Bool) (cs : List Char) : Option (Char × List Char) :=
  named.findSome? fun (name, c) =>
    if name.isPrefixOf cs then
      match cs.drop name.length with
      | ';' :: rest => some (c, rest)
      | rest => if inValue && isPlainInValue rest then none else some (c, rest)
    else none

/-- The character that the text `cs` after an ampersand refers to, and what follows the
reference. -/
def read? (inValue : Bool) (cs : List Char) : Option (Char × List Char) :=
  match cs with
  | '#' :: 'x' :: rest => numeric? 16 rest
  | '#' :: 'X' :: rest => numeric? 16 rest
  | '#' :: rest => numeric? 10 rest
  | _ => named? inValue cs

/-- The character for the text `cs` after an ampersand, and the text that is still to be read.
An ampersand that starts no reference stands for itself. -/
def read (inValue : Bool) (cs : List Char) : Char × List Char :=
  (read? inValue cs).getD ('&', cs)

/-! ## A reference leaves no more text than there was -/

theorem length_afterSemicolon_le (cs : List Char) : (afterSemicolon cs).length ≤ cs.length := by
  unfold afterSemicolon
  split <;> grind

theorem length_numeric?_le {base : Nat} {cs rest : List Char} {c : Char}
    (h : numeric? base cs = some (c, rest)) : rest.length ≤ cs.length := by
  unfold numeric? at h
  split at h
  · exact absurd h (by simp)
  · simp only [Option.some.injEq, Prod.mk.injEq] at h
    obtain ⟨-, rfl⟩ := h
    exact Nat.le_trans (length_afterSemicolon_le _) (by simp)

theorem length_named?_le {inValue : Bool} {cs rest : List Char} {c : Char}
    (h : named? inValue cs = some (c, rest)) : rest.length ≤ cs.length := by
  unfold named? at h
  obtain ⟨⟨name, d⟩, -, h⟩ := List.exists_of_findSome?_eq_some h
  have hdrop : (cs.drop name.length).length ≤ cs.length := by simp
  revert h hdrop
  simp only
  generalize cs.drop name.length = tail
  intro h hdrop
  split at h
  · split at h
    · grind
    · split at h <;> grind
  · exact absurd h (by simp)

theorem length_read_le (inValue : Bool) (cs : List Char) :
    (read inValue cs).2.length ≤ cs.length := by
  unfold read
  cases h : read? inValue cs with
  | none => simp
  | some p =>
    obtain ⟨c, rest⟩ := p
    simp only [Option.getD_some]
    unfold read? at h
    split at h
    · have := length_numeric?_le h
      grind
    · have := length_numeric?_le h
      grind
    · have := length_numeric?_le h
      grind
    · exact length_named?_le h

end Manpage.Html.Reference
