import Manpage.Proofs.Markup.Rendered
import Manpage.Proofs.Roff.Fonts

/-!
# Font tags in a written text

The fonts of running text, read off the characters that are written. A `<` in such a text is always
the start of a font's tag, so reading the characters gives what reading the fragments gives: each
end tag closes the font that is open, each start tag comes when none is, and the font that is open
at the end is the one that the state has. A text starts in the font that the one before it has left,
so any number of texts set one after the other are read in the same way.

## Main definitions

* `Font.readText?`: the font after a written text, read off its tags
* `Passage`, `Passage.setAll`: texts set one after the other

## Main results

* `Font.readText?_render`: the tags in a text are fragments of their own
* `Passage.readText?_setAll`: texts are read as the fonts that they are set in
-/

namespace Manpage

open Markup

namespace Font

/-- **The font after a written text** that starts in the font `f`, read off its tags from left to
right. There is none if a tag closes a font that is not open or opens one inside another, or if a
`<` starts anything but the tag of a font. -/
def readText? (f : Font) : List Char → Option Font
  | [] => some f
  | '<' :: 'b' :: '>' :: cs => if f = .roman then readText? .bold cs else none
  | '<' :: 'i' :: '>' :: cs => if f = .roman then readText? .italic cs else none
  | '<' :: '/' :: 'b' :: '>' :: cs => if f = .bold then readText? .roman cs else none
  | '<' :: '/' :: 'i' :: '>' :: cs => if f = .italic then readText? .roman cs else none
  | '<' :: _ => none
  | _ :: cs => readText? f cs

section Reading

variable {f : Font} {t : Fragment} {fs : List Fragment} {newlines : Bool}

theorem readText?_cons_of_ne {c : Char} (h : c ≠ '<') (cs : List Char) :
    f.readText? (c :: cs) = f.readText? cs := by
  rw [readText?]
  case x_5 => exact h
  all_goals
    intro _ hc _
    exact h hc

/-- What holds no `<` is passed over. -/
theorem readText?_append_of_notMem {ds : List Char} (h : '<' ∉ ds) (cs : List Char) :
    f.readText? (ds ++ cs) = f.readText? cs := by
  induction ds with
  | nil => rfl
  | cons d ds ih =>
    obtain ⟨hd, hds⟩ := List.ne_and_not_mem_of_not_mem_cons h
    rw [List.cons_append, readText?_cons_of_ne hd.symm, ih hds]

/-- Running text holds a `<` only where a tag starts. -/
theorem notMem_chars_of_isTag (ht : t.isInline newlines) (htag : t.isTag = false) :
    '<' ∉ t.chars := by
  cases t with
  | char c => exact fun h => ne_of_isPlain ht (by decide) (List.mem_singleton.mp h).symm
  | code n =>
    intro h
    rcases List.mem_cons.mp h with h | h
    · exact absurd h (by decide)
    · exact (Fragment.code n).not_mem_tail_chars.1 h
  | less | greater | ampersand | blank | newline => decide
  | opening e | closing e => exact absurd htag (by simp [Fragment.isTag])
  | _ => exact absurd ht Bool.false_ne_true

/-- A fragment of running text is read in a text as it is read alone. -/
theorem readText?_chars (ht : t.isInline newlines) (cs : List Char) :
    f.readText? (t.chars ++ cs) = (f.read? [t]).bind (·.readText? cs) := by
  cases htag : t.isTag with
  | false =>
    rw [readText?_append_of_notMem (notMem_chars_of_isTag ht htag), read?_cons_of_isTag htag]
    rfl
  | true =>
    have hmem := mem_fontTags ht htag
    simp only [List.mem_cons, List.not_mem_nil, or_false] at hmem
    rcases hmem with rfl | rfl | rfl | rfl <;> cases f <;> rfl

/-- **The tags in a text are fragments of their own**: a rendered text is read as its fragments
are. -/
theorem readText?_render (h : IsInline newlines fs) : f.readText? (render fs) = f.read? fs := by
  induction fs generalizing f with
  | nil => rfl
  | cons t fs ih =>
    obtain ⟨ht, hfs⟩ := isInline_cons.mp h
    have hrest : ∀ g : Font, g.readText? (render fs) = g.read? fs := fun g => ih hfs
    rw [render_cons, readText?_chars ht, funext hrest, ← read?_append, List.singleton_append]

end Reading

end Font

/-! ## Texts one after the other -/

/-- A text that is set: as an argument or not, and in a state whose font gives way to the one that
the text before it has left. -/
structure Passage where
  state : State
  collapse : Bool
  text : List Char

namespace Passage

/-- Sets a passage that starts in the font `f`. -/
def set (f : Font) (p : Passage) : State × List Fragment :=
  { p.state with font := f }.setText p.collapse p.text

/-- Sets passages one after the other, with the font carried along. -/
def setAll (f : Font) : List Passage → Font × List Fragment
  | [] => (f, [])
  | p :: ps =>
    let (s, text) := p.set f
    let (g, rest) := setAll s.font ps
    (g, text ++ rest)

variable (f : Font) (ps : List Passage)

theorem setAll_cons (p : Passage) :
    setAll f (p :: ps) =
      ((setAll (p.set f).1.font ps).1, (p.set f).2 ++ (setAll (p.set f).1.font ps).2) := rfl

/-- Passages are set as running text. -/
theorem isInline_setAll : IsInline true (setAll f ps).2 := by
  induction ps generalizing f with
  | nil => exact IsInline.nil
  | cons p ps ih =>
    have hp : IsInline p.state.inPreformatted (p.set f).2 := State.isInline_setText _ _ _
    rw [setAll_cons]
    exact isInline_append.mpr ⟨hp.mono fun _ => rfl, ih _⟩

/-- Each passage is read from the font that the one before it has left. -/
theorem read?_setAll : f.read? (setAll f ps).2 = some (setAll f ps).1 := by
  induction ps generalizing f with
  | nil => rfl
  | cons p ps ih =>
    have hp : f.read? (p.set f).2 = some (p.set f).1.font :=
      State.read?_setText p.collapse { p.state with font := f } p.text
    rw [setAll_cons, Font.read?_append, hp, Option.bind_some, ih]

/-- **Texts are read as the fonts that they are set in.** Of the text that one call writes, and of
the texts that any number of calls write one after the other, each end tag closes the font that is
open, each start tag comes when none is, no other `<` is in it, and the font that is open at the end
is the one that is left. -/
theorem readText?_setAll :
    (∀ (s : State) (collapse : Bool) (cs : List Char),
        s.font.readText? (render (s.setText collapse cs).2) =
          some (s.setText collapse cs).1.font) ∧
      ∀ (f : Font) (ps : List Passage),
        f.readText? (render (setAll f ps).2) = some (setAll f ps).1 := by
  constructor
  · intro s collapse cs
    rw [Font.readText?_render (s.isInline_setText collapse cs), s.read?_setText]
  · intro f ps
    rw [Font.readText?_render (isInline_setAll f ps), read?_setAll]

end Passage

end Manpage
