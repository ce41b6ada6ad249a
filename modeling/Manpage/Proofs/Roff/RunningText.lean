import Manpage.Proofs.Markup.SpaceRuns
import Manpage.Roff.State
import Manpage.Text.Basic

/-!
# Running text is set as running text

Setting a text gives fragments of running text, whatever the text. A line break occurs only in a
preformatted block, which setting a text neither starts nor ends. The text between two escapes is
written as it is escaped, and an escape shows in what is written around it only where it splits a
run of spaces.

## Main results

* `RunningText.write_chars`: the characters of a text are written as the text is escaped
* `RunningText.render_write_seam_iff`: where an escape shows
* `State.isInline_setText`: a text is set as running text
* `Text.mem_joinWith`: joining adds nothing but what is put in between
-/

namespace Manpage

open Markup

/-! ## Pieces of text -/

section Pieces

variable {α : Type}

theorem Text.mem_joinWith {gap : List α} {xs : List (List α)} {x : α}
    (h : x ∈ Text.joinWith gap xs) : x ∈ gap ∨ ∃ piece ∈ xs, x ∈ piece := by
  fun_induction Text.joinWith gap xs with
  | case1 => exact absurd h List.not_mem_nil
  | case2 piece => exact Or.inr ⟨piece, List.mem_singleton_self _, h⟩
  | case3 piece xs _ ih =>
    rcases List.mem_append.mp h with h | h
    · rcases List.mem_append.mp h with h | h
      · exact Or.inr ⟨piece, List.mem_cons_self, h⟩
      · exact Or.inl h
    · rcases ih h with h | ⟨q, hq, hx⟩
      · exact Or.inl h
      · exact Or.inr ⟨q, List.mem_cons_of_mem _ hq, hx⟩

end Pieces

/-! ## Running text -/

namespace RunningText

variable {newlines : Bool}

theorem isInline_closing (f : Font) : IsInline newlines f.closing := by
  cases f <;> simp [Font.closing, IsInline, Fragment.isInline]

theorem isInline_opening (f : Font) : IsInline newlines f.opening := by
  cases f <;> simp [Font.opening, IsInline, Fragment.isInline]

theorem isInline_writeChar (c : Char) (rest : List Mark) :
    (writeChar c rest).isInline newlines := by
  unfold writeChar
  split
  · split
    · rfl
    · exact Fragment.isInline_ofChar _ c
  · exact Fragment.isInline_ofChar _ c

theorem isInline_write (f : Font) (ms : List Mark) : IsInline newlines (write f ms) := by
  fun_induction write f ms with
  | case1 => exact IsInline.nil
  | case2 f c rest ih => exact isInline_cons.mpr ⟨isInline_writeChar c rest, ih⟩
  | case3 f rest ih => exact ih
  | case4 f g rest ih =>
    exact isInline_append.mpr
      ⟨isInline_append.mpr ⟨isInline_closing f, isInline_opening g⟩, ih⟩

/-! ### Characters between escapes -/

section Characters

variable {ms : List Mark} (f : Font) (cs : List Char)

/-- The character that marks start with, if they start with one. -/
def leading? : List Mark → Option Char
  | .char c :: _ => some c
  | _ => none

theorem writeChar_eq (c : Char) (ms : List Mark) :
    writeChar c ms = .ofCharBefore c (leading? ms) := by
  unfold writeChar Fragment.ofCharBefore
  split
  · simp [leading?]
  · next hspace =>
    rw [if_neg]
    rintro ⟨-, hms⟩
    cases ms with
    | nil => cases hms
    | cons m ms =>
      cases m with
      | char d =>
        obtain rfl := Option.some.inj hms
        exact hspace ms rfl
      | seam | font g => cases hms

/-- **Text is written as it is escaped**, with the character behind it taken into account. -/
theorem write_chars (ms : List Mark) :
    write f (cs.map Mark.char ++ ms) = escapeBefore (leading? ms) cs ++ write f ms := by
  induction cs with
  | nil => rfl
  | cons c cs ih =>
    have hnext : leading? (cs.map Mark.char ++ ms) = cs.head?.or (leading? ms) := by
      cases cs <;> rfl
    rw [List.map_cons, List.cons_append, write, ih, writeChar_eq, hnext]
    rfl

/-- Text that no other text follows is written by itself. -/
theorem write_chars_of_leading?_eq_none (h : leading? ms = none) :
    write f (cs.map Mark.char ++ ms) = escape cs ++ write f ms := by
  rw [write_chars, h, ← escape_eq_escapeBefore]

theorem write_chars_nil : write f (cs.map Mark.char) = escape cs := by
  have h := write_chars_of_leading?_eq_none f cs (show leading? [] = none from rfl)
  rwa [List.append_nil, write, List.append_nil] at h

/-- **An escape without effect of its own shows** exactly if it splits a run of spaces. -/
theorem render_write_seam_iff (a b : List Char) :
    render (write f (a.map .char ++ .seam :: b.map .char)) = render (write f ((a ++ b).map .char)) ↔
      ¬ SplitsRun a b := by
  rw [write_chars_of_leading?_eq_none f a rfl, write, write_chars_nil, write_chars_nil,
    render_append, eq_comm]
  exact render_escape_append_iff a b

end Characters

end RunningText

namespace State

variable (collapse : Bool) (s : State) (cs : List Char)

/-- **Running text sets running text**, with a line break only in a preformatted block. -/
theorem isInline_setText : IsInline s.inPreformatted (s.setText collapse cs).2 := by
  refine isInline_append.mpr ⟨RunningText.isInline_write _ _, ?_⟩
  cases h : s.inPreformatted with
  | false => exact IsInline.nil
  | true => exact isInline_cons.mpr ⟨rfl, IsInline.nil⟩

@[simp] theorem inPreformatted_text : (s.text cs).1.inPreformatted = s.inPreformatted := rfl

@[simp] theorem inPreformatted_argument : (s.argument cs).1.inPreformatted = s.inPreformatted :=
  rfl

theorem isInline_text : IsInline s.inPreformatted (s.text cs).2 :=
  isInline_setText false s cs

theorem isInline_argument : IsInline s.inPreformatted (s.argument cs).2 :=
  isInline_setText true s cs

end State

end Manpage
