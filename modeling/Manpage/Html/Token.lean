import Manpage.Html.Node
import Manpage.Html.Reference

/-!
# Tokens

A document as it is read: characters, start tags and end tags.  Reading never fails; a tag that
the text ends in gives no token.  Comments and declarations are passed over.

## Main definitions

* `Token`: a token of a document.
* `Token.attributes?`: the attributes of a tag.
* `Token.scan`: the tokens of a text, from left to right.

## Main results

* `Token.length_attributes?_lt`: reading a tag leaves less text than there was.
-/

namespace Manpage.Html

/-- A token of a document. -/
inductive Token where
  | char (c : Char)
  | startTag (tag : Tag) (attributes : List Attribute)
  | endTag (tag : Tag)
  deriving DecidableEq, Repr

namespace Token

/-- Whether `c` separates the parts of a tag. -/
def isSpace (c : Char) : Bool :=
  c == ' ' || c == '\n' || c == '\t' || c == '\x0C'

/-- A character of a name or a value, where NUL is no character. -/
def orReplacement (c : Char) : Char :=
  if c = '\x00' then Reference.replacement else c

/-- A character of a name, in lower case. -/
def nameChar (c : Char) : Char :=
  orReplacement c.toLower

/-- Whether `c` can be part of a tag name. -/
def isTagNameChar (c : Char) : Bool :=
  !(isSpace c || c == '/' || c == '>')

/-- Whether `c` can be part of an attribute name, its first character aside. -/
def isAttributeNameChar (c : Char) : Bool :=
  !(isSpace c || c == '/' || c == '>' || c == '=')

/-! ## Attribute values -/

/-- A value up to the quote `q`, and what follows it; all of the text if the quote never comes. -/
def quotedValue (q : Char) : List Char → List Char × List Char
  | [] => ([], [])
  | c :: cs =>
    if c = q then ([], cs)
    else if c = '&' then
      let p := Reference.read true cs
      let (value, rest) := quotedValue q p.2
      (p.1 :: value, rest)
    else
      let (value, rest) := quotedValue q cs
      (orReplacement c :: value, rest)
termination_by cs => cs.length
decreasing_by
  · exact Nat.lt_succ_of_le (Reference.length_read_le true cs)
  · exact Nat.lt_succ_self _

/-- A value without quotes, and what follows it. -/
def plainValue : List Char → List Char × List Char
  | [] => ([], [])
  | c :: cs =>
    if isSpace c || c == '>' then ([], c :: cs)
    else if c = '&' then
      let p := Reference.read true cs
      let (value, rest) := plainValue p.2
      (p.1 :: value, rest)
    else
      let (value, rest) := plainValue cs
      (orReplacement c :: value, rest)
termination_by cs => cs.length
decreasing_by
  · exact Nat.lt_succ_of_le (Reference.length_read_le true cs)
  · exact Nat.lt_succ_self _

/-- The value after an equals sign, and what follows it. -/
def assignedValue (cs : List Char) : List Char × List Char :=
  match cs.dropWhile isSpace with
  | '"' :: rest => quotedValue '"' rest
  | '\'' :: rest => quotedValue '\'' rest
  | rest => plainValue rest

/-- The value of an attribute whose name is read, and what follows it.  Without an equals sign the
value is empty. -/
def valueAfterName (cs : List Char) : List Char × List Char :=
  match cs.dropWhile isSpace with
  | '=' :: rest => assignedValue rest
  | rest => ([], rest)

theorem length_dropWhile_le {α : Type} (p : α → Bool) (xs : List α) :
    (xs.dropWhile p).length ≤ xs.length :=
  (List.dropWhile_sublist p).length_le

theorem length_quotedValue_le (q : Char) (cs : List Char) :
    (quotedValue q cs).2.length ≤ cs.length := by
  fun_induction quotedValue q cs with
  | case1 => simp
  | case2 => simp
  | case3 => grind [Reference.length_read_le]
  | case4 => grind

theorem length_plainValue_le (cs : List Char) : (plainValue cs).2.length ≤ cs.length := by
  fun_induction plainValue cs with
  | case1 => simp
  | case2 => simp
  | case3 => grind [Reference.length_read_le]
  | case4 => grind

theorem length_assignedValue_le (cs : List Char) : (assignedValue cs).2.length ≤ cs.length := by
  have hdrop := length_dropWhile_le isSpace cs
  unfold assignedValue
  split
  · next rest heq =>
    rw [heq] at hdrop
    exact Nat.le_trans (length_quotedValue_le _ rest) (Nat.le_trans (Nat.le_succ _) hdrop)
  · next rest heq =>
    rw [heq] at hdrop
    exact Nat.le_trans (length_quotedValue_le _ rest) (Nat.le_trans (Nat.le_succ _) hdrop)
  · exact Nat.le_trans (length_plainValue_le _) hdrop

theorem length_valueAfterName_le (cs : List Char) : (valueAfterName cs).2.length ≤ cs.length := by
  have hdrop := length_dropWhile_le isSpace cs
  unfold valueAfterName
  split
  · next rest heq =>
    rw [heq] at hdrop
    exact Nat.le_trans (length_assignedValue_le rest) (Nat.le_trans (Nat.le_succ _) hdrop)
  · exact hdrop

/-! ## Tags -/

/-- The attribute whose name starts with `c`, and what follows it. -/
def readAttribute (c : Char) (cs : List Char) : Attribute × List Char :=
  let name := nameChar c :: (cs.takeWhile isAttributeNameChar).map nameChar
  let (value, rest) := valueAfterName (cs.dropWhile isAttributeNameChar)
  (⟨String.ofList name, String.ofList value⟩, rest)

theorem length_readAttribute_le (c : Char) (cs : List Char) :
    (readAttribute c cs).2.length ≤ cs.length :=
  Nat.le_trans (length_valueAfterName_le _) (length_dropWhile_le isAttributeNameChar cs)

/-- The attributes of a tag whose name is read, and what follows the tag; nothing if the text ends
before the tag does. -/
def attributes? : List Char → Option (List Attribute × List Char)
  | [] => none
  | c :: cs =>
    if c = '>' then some ([], cs)
    else if isSpace c || c == '/' then attributes? cs
    else
      (attributes? (readAttribute c cs).2).map fun (others, rest) =>
        ((readAttribute c cs).1 :: others, rest)
termination_by cs => cs.length
decreasing_by
  · exact Nat.lt_succ_self _
  · exact Nat.lt_succ_of_le (length_readAttribute_le c cs)

theorem length_attributes?_lt {cs rest : List Char} {attributes : List Attribute}
    (h : attributes? cs = some (attributes, rest)) : rest.length < cs.length := by
  fun_induction attributes? cs generalizing attributes rest with
  | case1 => simp at h
  | case2 => grind
  | case3 c cs _ _ ih => exact Nat.lt_succ_of_lt (ih h)
  | case4 c cs _ _ ih =>
    obtain ⟨⟨others, r⟩, ho, hr⟩ := Option.map_eq_some_iff.1 h
    have := ih ho
    have := length_readAttribute_le c cs
    grind

/-- Attributes without those whose name occurs before. -/
def distinctNames (attributes : List Attribute) : List Attribute :=
  attributes.foldl (fun kept a => if kept.any (·.name == a.name) then kept else kept ++ [a]) []

/-- The tag whose name comes first in `cs`, its attributes, and what follows it. -/
def tag? (cs : List Char) : Option ((Tag × List Attribute) × List Char) :=
  (attributes? (cs.dropWhile isTagNameChar)).map fun (attributes, rest) =>
    let name := (cs.takeWhile isTagNameChar).map nameChar
    ((.ofName (String.ofList name), distinctNames attributes), rest)

theorem length_tag?_lt {cs rest : List Char} {t : Tag × List Attribute}
    (h : tag? cs = some (t, rest)) : rest.length < cs.length := by
  obtain ⟨⟨attributes, r⟩, ha, hr⟩ := Option.map_eq_some_iff.1 h
  have := length_attributes?_lt ha
  have := length_dropWhile_le isTagNameChar cs
  grind

/-! ## Texts -/

/-- What follows a comment or a declaration. -/
def afterComment (cs : List Char) : List Char :=
  (cs.dropWhile (· ≠ '>')).drop 1

theorem length_afterComment_le (cs : List Char) : (afterComment cs).length ≤ cs.length := by
  have := length_dropWhile_le (fun c => decide (c ≠ '>')) cs
  simp only [afterComment, List.length_drop]
  omega

/-- The tokens that come first in the text `c :: cs`, and the text that is still to be read. -/
def next (c : Char) (cs : List Char) : List Token × List Char :=
  if c = '&' then
    let (d, rest) := Reference.read false cs
    ([.char d], rest)
  else if c = '<' then
    match cs with
    | '/' :: d :: rest =>
      if d.isAlpha then
        match tag? (d :: rest) with
        | some ((tag, _), rest) => ([.endTag tag], rest)
        | none => ([], [])
      else ([], afterComment (d :: rest))
    | d :: rest =>
      if d.isAlpha then
        match tag? (d :: rest) with
        | some ((tag, attributes), rest) => ([.startTag tag attributes], rest)
        | none => ([], [])
      else if d = '!' ∨ d = '?' then ([], afterComment rest)
      else ([.char '<'], d :: rest)
    | [] => ([.char '<'], [])
  else ([.char c], cs)

theorem length_next_le (c : Char) (cs : List Char) : (next c cs).2.length ≤ cs.length := by
  unfold next
  split
  · exact Reference.length_read_le false cs
  split
  · split
    · next d rest =>
      split
      · split
        · next tag attributes rest' h =>
          have := length_tag?_lt h
          grind
        · simp
      · have := length_afterComment_le (d :: rest)
        grind
    · next d rest _ =>
      split
      · split
        · next tag attributes rest' h =>
          have := length_tag?_lt h
          grind
        · simp
      · split
        · have := length_afterComment_le rest
          grind
        · simp
    · simp
  · simp

/-- The tokens of a text, from left to right. -/
def scan : List Char → List Token
  | [] => []
  | c :: cs => (next c cs).1 ++ scan (next c cs).2
termination_by cs => cs.length
decreasing_by exact Nat.lt_succ_of_le (length_next_le c cs)

end Token

end Manpage.Html
