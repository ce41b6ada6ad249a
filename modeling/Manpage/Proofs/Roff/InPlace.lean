import Manpage.Proofs.Roff.Words

/-!
# Reading a text in place

A text can be set without taking it apart: a reader remembers the index of the next character, looks
up what it needs by its place, and puts the characters aside that it has not written yet. A place
outside of the text is a fault, and a fault ends the reading without a result.

No text has such a fault, in whatever state it is read. Each step moves the index forward and not
beyond the end of the text, an escape that the end of the text cuts short included, and the reading
comes to its end at the end of the text with what `State.setText` gives.

## Main definitions

* `slice?`, `sliceFrom?`: parts of a text by their places
* `escapeAt?`: the escape at a place, with the place where it ends
* `Reader`, `Reader.step`, `Reader.run`: the reading of a text

## Main results

* `isReadAs_escapeAt`: an escape is read in place as `Item.escapeAfter` reads it
* `Reader.exists_step`: a step takes the next item of the text
* `Reader.exists_run`: a reading takes all items, up to the end of the text
* `Reader.run_inBounds`: a reading stays within its text and sets it as `State.setText` does
-/

namespace Manpage

open Markup (Fragment)

/-! ## Places in a text -/

/-- The characters of a text from place `i` on. A place behind the end is a fault. -/
def sliceFrom? (text : List Char) (i : Nat) : Option (List Char) :=
  if i ≤ text.length then some (text.drop i) else none

/-- The characters of a text from place `i` up to place `j`, the latter excluded. Places out of
order or behind the end are a fault. -/
def slice? (text : List Char) (i j : Nat) : Option (List Char) :=
  if i ≤ j ∧ j ≤ text.length then some ((text.drop i).take (j - i)) else none

section Places

variable {text cs : List Char} {c : Char} {i : Nat}

theorem getElem?_of_drop (h : text.drop i = c :: cs) : text[i]? = some c := by
  rw [← List.head?_drop, h, List.head?_cons]

theorem drop_succ_of_drop (h : text.drop i = c :: cs) : text.drop (i + 1) = cs := by
  rw [← List.tail_drop, h, List.tail_cons]

theorem length_of_drop (h : text.drop i = c :: cs) : i + 1 + cs.length = text.length := by
  have hlength : text.length - i = cs.length + 1 := by
    rw [← List.length_drop, h, List.length_cons]
  omega

theorem sliceFrom?_of_drop (h : text.drop i = c :: cs) : sliceFrom? text (i + 1) = some cs := by
  rw [sliceFrom?, if_pos (length_of_drop h ▸ Nat.le_add_right _ _), drop_succ_of_drop h]

theorem slice?_of_drop {n : Nat} (h : text.drop i = c :: cs) (hn : n ≤ cs.length) :
    slice? text (i + 1) (i + 1 + n) = some (cs.take n) := by
  have hbound : i + 1 + n ≤ text.length := length_of_drop h ▸ Nat.add_le_add_left hn _
  rw [slice?, if_pos ⟨Nat.le_add_right _ _, hbound⟩, drop_succ_of_drop h, Nat.add_sub_cancel_left]

end Places

/-! ## Lengths of names -/

/-- How many characters a name takes up to the bracket that closes it. Without one, it takes all. -/
def bracketLength (cs : List Char) : Nat :=
  (cs.findIdx? (· == ']')).elim cs.length (· + 1)

/-- How many characters the name of a string takes. -/
def stringNameLength : List Char → Nat
  | [] => 0
  | '(' :: cs => min (cs.length + 1) 3
  | '[' :: cs => bracketLength ('[' :: cs)
  | _ :: _ => 1

/-- What a font escape asks for whose name starts with the character `name`, and how many characters
of the text behind it the name takes too. -/
def fontChange (name : Char) (rest : List Char) : Escape × Nat :=
  match name with
  | 'B' => (.font .bold, 0)
  | 'I' => (.font .italic, 0)
  | 'R' => (.font .roman, 0)
  | 'P' => (.font .roman, 0)
  | '(' => (.nothing, min rest.length 2)
  | '[' => (.nothing, bracketLength rest)
  | _ => (.nothing, 0)

section Names

open Item

variable {name rest : List Char}

theorem findIdx?_bracket_of_notMem (h : ']' ∉ name) : name.findIdx? (· == ']') = none :=
  List.findIdx?_eq_none_iff.mpr fun _ hc => beq_false_of_ne (ne_of_mem_of_not_mem hc h)

theorem findIdx?_bracket (h : ']' ∉ name) :
    (name ++ ']' :: rest).findIdx? (· == ']') = some name.length := by
  rw [List.findIdx?_append, findIdx?_bracket_of_notMem h, List.findIdx?_cons]
  simp

/-- What a name in brackets takes and what it leaves is all there is. -/
theorem bracketLength_add (cs : List Char) :
    bracketLength cs + (afterBracket cs).length = cs.length := by
  unfold bracketLength
  by_cases h : ']' ∈ cs
  · obtain ⟨name, rest, rfl, hname⟩ := List.eq_append_cons_of_mem h
    rw [findIdx?_bracket hname, afterBracket_append hname, List.length_append, List.length_cons]
    exact Nat.add_right_comm _ _ _
  · rw [findIdx?_bracket_of_notMem h, afterBracket_of_not_mem h]
    rfl

theorem stringNameLength_add (cs : List Char) :
    stringNameLength cs + (afterStringName cs).length = cs.length := by
  fun_cases stringNameLength cs with
  | case1 => rfl
  | case2 cs =>
    rw [afterStringName, List.length_drop, List.length_cons]
    omega
  | case3 cs =>
    have hname : afterBracket ('[' :: cs) = afterBracket cs := by
      rw [afterBracket, List.dropWhile_cons_of_pos (by decide), afterBracket]
    rw [afterStringName, ← hname, bracketLength_add]
  | case4 c cs hparen hbracket =>
    rw [afterStringName, List.length_cons, Nat.add_comm]
    · exact hparen
    · exact hbracket

theorem fontChange_spec (name : Char) (cs : List Char) :
    (fontChange name cs).1 = (fontEscape (name :: cs)).1 ∧
      (fontChange name cs).2 + (fontEscape (name :: cs)).2.length = cs.length := by
  fun_cases fontChange name cs with
  | case5 =>
    rw [fontEscape, List.length_drop]
    exact ⟨rfl, by omega⟩
  | case6 => exact ⟨rfl, bracketLength_add cs⟩
  | case7 =>
    rw [fontEscape]
    · exact ⟨rfl, Nat.zero_add _⟩
    all_goals assumption
  | _ => exact ⟨rfl, Nat.zero_add _⟩

end Names

/-! ## Escapes in place -/

/-- The font escape whose `f` stands at place `i`, with the place where it ends. -/
def fontEscapeAt? (text : List Char) (i : Nat) : Option (Escape × Nat) :=
  match text[i + 1]? with
  | some name => do
    let (e, n) := fontChange name (← sliceFrom? text (i + 2))
    return (e, i + 1 + n)
  | none => some (.char 'f', i)

/-- The glyph with a name of two characters whose parenthesis stands at place `i`, with the place
where it ends. -/
def parenthesizedGlyphAt? (text : List Char) (i : Nat) : Option (Escape × Nat) := do
  if i + 2 < text.length then
    let name ← slice? text (i + 1) (i + 3)
    return (.text (Glyph.text name), i + 2)
  else
    return (.char '(', i)

/-- The glyph with a long name whose bracket stands at place `i`, with the place where it ends. -/
def bracketedGlyphAt? (text : List Char) (i : Nat) : Option (Escape × Nat) := do
  match (← sliceFrom? text (i + 1)).findIdx? (· == ']') with
  | some n =>
    let name ← slice? text (i + 1) (i + 1 + n)
    return (.text (Glyph.text name), i + (n + 1))
  | none => return (.char '[', i)

/-- The escape whose first character behind the backslash is `c`, at place `i`, with the place where
it ends. -/
def escapeFrom? (text : List Char) (i : Nat) (c : Char) : Option (Escape × Nat) :=
  match c with
  | 'f' => fontEscapeAt? text i
  | '(' => parenthesizedGlyphAt? text i
  | '[' => bracketedGlyphAt? text i
  | '*' => do return (.nothing, i + stringNameLength (← sliceFrom? text (i + 1)))
  | '&' => some (.nothing, i)
  | '^' => some (.nothing, i)
  | '|' => some (.nothing, i)
  | ':' => some (.nothing, i)
  | 'e' => some (.char '\\', i)
  | '0' => some (.char ' ', i)
  | '~' => some (.char ' ', i)
  | c => some (.char c, i)

/-- The escape whose first character behind the backslash stands at place `i`, with the place where
it ends. -/
def escapeAt? (text : List Char) (i : Nat) : Option (Escape × Nat) := do
  escapeFrom? text i (← text[i]?)

/-- Whether an escape is found in place as it is read from the front of a text: without a fault, as
the same escape, and so that the text behind its end is what the reading leaves. -/
def IsReadAs (text : List Char) (found : Option (Escape × Nat)) (read : Escape × List Char) :
    Prop :=
  ∃ j, found = some (read.1, j) ∧ j + 1 + read.2.length = text.length

section Escapes

open Item

variable {text cs : List Char} {c : Char} {i : Nat}

/-- An escape of one character ends where it starts. -/
theorem isReadAs_single (h : text.drop i = c :: cs) (e : Escape) :
    IsReadAs text (some (e, i)) (e, cs) :=
  ⟨i, rfl, length_of_drop h⟩

theorem isReadAs_font (h : text.drop i = c :: cs) :
    IsReadAs text (fontEscapeAt? text i) (fontEscape cs) := by
  have hnext := drop_succ_of_drop h
  unfold fontEscapeAt?
  cases cs with
  | nil =>
    have hend : text[i + 1]? = none := by rw [← List.head?_drop, hnext, List.head?_nil]
    rw [hend]
    exact isReadAs_single h _
  | cons name cs =>
    obtain ⟨hescape, hlength⟩ := fontChange_spec name cs
    have htext := length_of_drop hnext
    rw [getElem?_of_drop hnext, sliceFrom?_of_drop hnext]
    exact ⟨i + 1 + (fontChange name cs).2, by rw [← hescape]; rfl, by omega⟩

theorem isReadAs_parenthesizedGlyph (h : text.drop i = c :: cs) :
    IsReadAs text (parenthesizedGlyphAt? text i) (parenthesizedGlyph cs) := by
  have htext := length_of_drop h
  unfold parenthesizedGlyphAt?
  rcases cs with - | ⟨a, - | ⟨b, cs⟩⟩
  · rw [if_neg (by simp [← htext])]
    exact isReadAs_single h _
  · rw [if_neg (by simp [← htext])]
    exact isReadAs_single h _
  · have hname : slice? text (i + 1) (i + 3) = some [a, b] := slice?_of_drop h (n := 2) (by simp)
    rw [List.length_cons, List.length_cons] at htext
    rw [if_pos (by omega), hname]
    exact ⟨i + 2, rfl, by show i + 2 + 1 + cs.length = _; omega⟩

theorem isReadAs_bracketedGlyph (h : text.drop i = c :: cs) :
    IsReadAs text (bracketedGlyphAt? text i) (bracketedGlyph cs) := by
  have htext := length_of_drop h
  unfold bracketedGlyphAt?
  rw [sliceFrom?_of_drop h, Option.bind_eq_bind, Option.bind_some]
  by_cases hclosed : ']' ∈ cs
  · obtain ⟨name, rest, rfl, hname⟩ := List.eq_append_cons_of_mem hclosed
    have hslice : slice? text (i + 1) (i + 1 + name.length) = some name := by
      rw [slice?_of_drop h (by simp), List.take_left]
    rw [List.length_append, List.length_cons] at htext
    rw [findIdx?_bracket hname, bracketedGlyph_append hname]
    show IsReadAs text (slice? text _ _ >>= _) _
    rw [hslice]
    exact ⟨i + (name.length + 1), rfl, by show _ + rest.length = _; omega⟩
  · rw [findIdx?_bracket_of_notMem hclosed, bracketedGlyph, if_neg hclosed]
    exact isReadAs_single h _

theorem isReadAs_string (h : text.drop i = c :: cs) :
    IsReadAs text (escapeFrom? text i '*') (escapeAfter '*' cs) := by
  have htext := length_of_drop h
  have hname := stringNameLength_add cs
  show IsReadAs text (sliceFrom? text (i + 1) >>= _) (.nothing, afterStringName cs)
  rw [sliceFrom?_of_drop h]
  exact ⟨i + stringNameLength cs, rfl, by show _ + (afterStringName cs).length = _; omega⟩

theorem escapeFrom?_of_not_mem (h : c ∉ escapeChars) :
    escapeFrom? text i c = some (.char c, i) := by
  unfold escapeFrom?
  split
  all_goals first | rfl | exact absurd (by decide) h

/-- **An escape is found in place** as it is read from the front of the text, and ends within the
text. -/
theorem isReadAs_escapeAt (h : text.drop i = c :: cs) :
    IsReadAs text (escapeAt? text i) (escapeAfter c cs) := by
  rw [escapeAt?, getElem?_of_drop h, Option.bind_eq_bind, Option.bind_some]
  by_cases hc : c ∈ escapeChars
  · simp only [escapeChars, List.mem_cons, List.not_mem_nil, or_false] at hc
    rcases hc with rfl | rfl | rfl | rfl | rfl | rfl | rfl | rfl | rfl | rfl | rfl
    · exact isReadAs_font h
    · exact isReadAs_parenthesizedGlyph h
    · exact isReadAs_bracketedGlyph h
    · exact isReadAs_string h
    all_goals exact isReadAs_single h _
  · rw [escapeFrom?_of_not_mem hc, escapeAfter_of_not_mem hc]
    exact isReadAs_single h _

/-- A bracket that is not closed stands for itself. -/
example : escapeAt? ['x', '\\', '[', 'a'] 2 = some (.char '[', 2) := by decide

/-- An escape ends within the text, and not before it starts. -/
theorem exists_escapeAt (h : i < text.length) :
    ∃ e j, escapeAt? text i = some (e, j) ∧ i ≤ j ∧ j < text.length := by
  have hdrop := List.drop_eq_getElem_cons h
  obtain ⟨j, hfound, hj⟩ := isReadAs_escapeAt hdrop
  have hrest := length_escapeAfter_le text[i] (text.drop (i + 1))
  have htext := length_of_drop hdrop
  exact ⟨_, j, hfound, by omega, by omega⟩

end Escapes

/-! ## Readers -/

/-- How far the reading of a text has come. -/
structure Reader where
  /-- The index of the next character. -/
  index : Nat := 0
  /-- Whether a quoted part is open. -/
  inQuotes : Bool := false
  /-- The character that the last item started with, quotes and dropped spaces aside. -/
  previous : Char := '\x00'
  /-- Text that is read, but not yet written. -/
  literal : List Char := []
  /-- What is written. -/
  output : List Fragment := []
  /-- The current font. -/
  font : Font
  deriving DecidableEq, Repr

namespace Reader

/-- Writes the text that is put aside. -/
def flush (r : Reader) : Reader :=
  { r with output := r.output ++ Markup.escape r.literal, literal := [] }

/-- Does what an escape asks for: text is put aside, and a change of font is written. -/
def obey (r : Reader) : Escape → Reader
  | .font f => { r with output := r.output ++ r.font.closing ++ f.opening, font := f }
  | .text cs => { r with literal := r.literal ++ cs }

/-- One step of the reading: a double quote, a space that is dropped from an argument, an escape, or
a character that stands for itself. There is no result if the step looks outside of the text. -/
def step (collapse : Bool) (text : List Char) (r : Reader) : Option Reader := do
  let c ← text[r.index]?
  if c = '"' then
    return { r with index := r.index + 1, inQuotes := !r.inQuotes }
  else if collapse && !r.inQuotes && r.previous == ' ' && c == ' ' then
    return { r with index := r.index + 1 }
  else if c = '\\' ∧ r.index + 1 < text.length then
    let (e, j) ← escapeAt? text (r.index + 1)
    return { r.flush.obey e with index := j + 1, previous := c }
  else
    return { r with index := r.index + 1, previous := c, literal := r.literal ++ [c] }

/-- Reads on to the end of the text. There is no result if a step has a fault, or if more than `n`
steps are needed. -/
def run (collapse : Bool) (text : List Char) : (n : Nat) → Reader → Option Reader
  | 0, r => if r.index < text.length then none else some r
  | n + 1, r =>
    if r.index < text.length then (r.step collapse text).bind (run collapse text n) else some r

/-- What a reading that has come to its end leaves of the state `s`, and what it has written. -/
def finish (r : Reader) (s : State) : State × List Fragment :=
  ({ s with font := r.font }, r.flush.output ++ if s.inPreformatted then [.newline] else [])

/-! ## Steps and items -/

/-- The reader once it has taken an item that ends before place `i`. -/
def take (collapse : Bool) (i : Nat) (r : Reader) : Item → Reader
  | .quote => { r with index := i, inQuotes := !r.inQuotes }
  | .char c =>
    if collapse && !r.inQuotes && r.previous == ' ' && c == ' ' then { r with index := i }
    else { r with index := i, previous := c, literal := r.literal ++ [c] }
  | .escape e => { r.flush.obey e with index := i, previous := '\\' }

section Step

open Item

variable (collapse : Bool) {text cs : List Char} {c : Char} {i : Nat} {r : Reader}

theorem index_take (item : Item) : (r.take collapse i item).index = i := by
  cases item with
  | char c =>
    rw [take]
    split_ifs <;> rfl
  | quote | escape => rfl

/-- **A step takes the next item**, without a fault, and what it leaves of the text is what reading
the item leaves. -/
theorem exists_step (h : text.drop r.index = c :: cs) :
    ∃ i, r.step collapse text = some (r.take collapse i (next c cs).1) ∧
      i + (next c cs).2.length = text.length := by
  have htext := length_of_drop h
  rw [step, getElem?_of_drop h, Option.bind_eq_bind, Option.bind_some]
  by_cases hquote : c = '"'
  · obtain rfl := hquote
    exact ⟨r.index + 1, rfl, htext⟩
  · rw [if_neg hquote]
    by_cases hlast : c = '\\' → cs = []
    · have hescape : ¬ (c = '\\' ∧ r.index + 1 < text.length) := by
        rintro ⟨hc, hindex⟩
        rw [hlast hc, List.length_nil] at htext
        omega
      rw [next_plain hquote hlast, if_neg hescape]
      refine ⟨r.index + 1, ?_, htext⟩
      show _ = some (r.take collapse (r.index + 1) (.char c))
      rw [take]
      split_ifs <;> rfl
    · obtain ⟨rfl, hcs⟩ := Classical.not_imp.mp hlast
      obtain ⟨d, ds, rfl⟩ := List.exists_cons_of_ne_nil hcs
      obtain ⟨j, hfound, hj⟩ := isReadAs_escapeAt (drop_succ_of_drop h)
      rw [List.length_cons] at htext
      rw [if_neg (by simp), if_pos ⟨rfl, by omega⟩, hfound]
      exact ⟨j + 1, rfl, hj⟩

/-- **A step goes forward** and not beyond the end of the text. -/
theorem exists_step_lt (h : r.index < text.length) :
    ∃ r', r.step collapse text = some r' ∧ r.index < r'.index ∧ r'.index ≤ text.length := by
  have hdrop := List.drop_eq_getElem_cons h
  obtain ⟨i, hstep, hi⟩ := exists_step collapse hdrop
  have hrest := length_next_le text[r.index] (text.drop (r.index + 1))
  have htext := length_of_drop hdrop
  refine ⟨_, hstep, ?_, ?_⟩
  · rw [index_take]
    omega
  · rw [index_take]
    omega

end Step

/-! ## Whole readings -/

open RunningText

/-- The font and the fragments of a reader once it has written the marks `ms` too. -/
def settle (r : Reader) (ms : List Mark) : Font × List Fragment :=
  (lastFont r.font (r.literal.map .char ++ ms), r.output ++ write r.font (r.literal.map .char ++ ms))

/-- The font and the fragments that a reader has in the end if it still takes `items`. -/
def outcome (collapse : Bool) (r : Reader) (items : List Item) : Font × List Fragment :=
  r.settle (marks collapse r.inQuotes (r.previous == ' ') items)

section Outcome

variable (r : Reader)

/-- What is put aside and no other text follows can be written at once. -/
theorem settle_of_leading?_eq_none {ms : List Mark} (h : leading? ms = none) :
    r.settle ms = (lastFont r.font ms, r.flush.output ++ write r.font ms) := by
  rw [settle, lastFont_append, write_chars_of_leading?_eq_none _ _ h, ← List.append_assoc]
  rfl

/-- The text put aside is written before an escape, which leaves a seam there. -/
theorem settle_obey (e : Escape) (ms : List Mark) :
    (r.flush.obey e).settle ms = r.settle (escapeMarks e ++ ms) := by
  have hseam : leading? (escapeMarks e ++ ms) = none := by cases e <;> rfl
  rw [settle_of_leading?_eq_none r hseam]
  cases e with
  | font f =>
    show (lastFont f ms, r.flush.output ++ r.font.closing ++ f.opening ++ write f ms) =
      (lastFont f ms, r.flush.output ++ (r.font.closing ++ f.opening ++ write f ms))
    simp only [List.append_assoc]
  | text cs => rfl

variable (collapse : Bool)

theorem outcome_nil : r.outcome collapse [] = (r.font, r.flush.output) := by
  rw [outcome, marks, settle_of_leading?_eq_none r rfl, write, List.append_nil]
  rfl

/-- **An item is taken** without a change to the outcome. -/
theorem outcome_take (i : Nat) (item : Item) (items : List Item) :
    (r.take collapse i item).outcome collapse items = r.outcome collapse (item :: items) := by
  cases item with
  | quote => rfl
  | char c =>
    rw [take, outcome, outcome, marks]
    split_ifs
    · rfl
    · simp [settle]
  | escape e =>
    rw [outcome, outcome, marks, ← settle_obey]
    cases e <;> rfl

end Outcome

section Run

open Item

variable (collapse : Bool) {text : List Char} {r : Reader}

theorem run_of_length_le (h : text.length ≤ r.index) (n : Nat) :
    run collapse text n r = some r := by
  cases n with
  | zero => exact if_neg (Nat.not_lt.mpr h)
  | succ n => exact if_neg (Nat.not_lt.mpr h)

/-- **A reading takes all items of the text**, without a fault, and ends at its end. It takes no
more steps than there are characters left. -/
theorem exists_run {n : Nat} (h : r.index ≤ text.length) (hn : text.length ≤ r.index + n) :
    ∃ r', run collapse text n r = some r' ∧ r'.index = text.length ∧
      r'.outcome collapse [] = r.outcome collapse (scan (text.drop r.index)) := by
  -- by induction on the items of what is left of the text
  induction hleft : text.drop r.index using scan.induct generalizing r n with
  | case1 =>
    have hend : text.length ≤ r.index := List.drop_eq_nil_iff.mp hleft
    rw [scan]
    exact ⟨r, run_of_length_le collapse hend n, Nat.le_antisymm h hend, rfl⟩
  | case2 c cs ih =>
    have htext := length_of_drop hleft
    have hrest := length_next_le c cs
    obtain ⟨i, hstep, hi⟩ := exists_step collapse hleft
    have hdrop : text.drop (r.take collapse i (next c cs).1).index = (next c cs).2 := by
      have hsuffix : (next c cs).2 <:+ text :=
        (next_suffix c cs).trans (hleft ▸ List.drop_suffix _ _)
      rw [index_take, List.suffix_iff_eq_drop.mp hsuffix, ← hi, Nat.add_sub_cancel]
    cases n with
    | zero => omega
    | succ n =>
      obtain ⟨r', hrun, hend, houtcome⟩ :=
        ih (n := n) (by rw [index_take]; omega) (by rw [index_take]; omega) hdrop
      rw [run, if_pos (by omega), hstep]
      refine ⟨r', hrun, hend, ?_⟩
      rw [houtcome, outcome_take, scan]

end Run

/-- **A reading stays within its text.** An escape, a step and a whole reading have no fault, for
any text and from any state: an escape ends within the text, a step goes forward and not beyond the
end, and the reading ends at the end of the text, after no more steps than the text has characters,
with what setting the text gives. -/
theorem run_inBounds (collapse : Bool) (s : State) (text : List Char) :
    (∀ i < text.length, ∃ e j, escapeAt? text i = some (e, j) ∧ i ≤ j ∧ j < text.length) ∧
      (∀ r : Reader, r.index < text.length → ∃ r',
        r.step collapse text = some r' ∧ r.index < r'.index ∧ r'.index ≤ text.length) ∧
      ∃ r, run collapse text text.length { font := s.font } = some r ∧ r.index = text.length ∧
        r.finish s = s.setText collapse text := by
  refine ⟨fun i hi => exists_escapeAt hi, fun r hr => exists_step_lt collapse hr, ?_⟩
  obtain ⟨r, hrun, hend, houtcome⟩ := exists_run collapse (r := { font := s.font })
    (Nat.zero_le text.length) (Nat.le_add_left _ _)
  refine ⟨r, hrun, hend, ?_⟩
  obtain ⟨hfont, houtput⟩ := Prod.mk.inj ((r.outcome_nil collapse).symm.trans houtcome)
  rw [finish, hfont, houtput]
  rfl

end Reader

end Manpage
