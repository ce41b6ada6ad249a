import Manpage.Proofs.Markup.Tally
import Manpage.Proofs.Roff.RunningText

/-!
# The fonts of running text

Running text is written with the tags of its fonts, and reading these tags gives back the font: each
end tag closes the font that is open, each start tag comes when none is. So what a text weighs is
told by the font before it and the font after it.

## Main definitions

* `Font.read?`: the font after fragments, read off their tags
* `Font.weight`: what the start tag of a font weighs

## Main results

* `RunningText.read?_write`: a written text is read as the font after it
* `tally_of_read?`: what a text weighs is the change of its font
-/

namespace Manpage

open Markup

namespace Font

/-- The font after fragments that start in the font `f`, read off their tags. There is none if a tag
closes a font that is not open, or opens one inside another. -/
def read? (f : Font) : List Fragment → Option Font
  | [] => some f
  | .opening .b :: fs => if f = .roman then read? .bold fs else none
  | .opening .i :: fs => if f = .roman then read? .italic fs else none
  | .closing .b :: fs => if f = .bold then read? .roman fs else none
  | .closing .i :: fs => if f = .italic then read? .roman fs else none
  | _ :: fs => read? f fs

/-- What the start tag of a font weighs. -/
def weight (w : Fragment → Int) (f : Font) : Int :=
  tally w f.opening

variable {f g : Font} {fs gs : List Fragment} {w : Fragment → Int}

theorem read?_cons_of_isTag {t : Fragment} (h : t.isTag = false) :
    f.read? (t :: fs) = f.read? fs := by
  cases t with
  | opening e => exact absurd h (by simp [Fragment.isTag])
  | closing e => exact absurd h (by simp [Fragment.isTag])
  | _ => rfl

theorem read?_append : f.read? (fs ++ gs) = (f.read? fs).bind (·.read? gs) := by
  fun_induction read? f fs <;> simp_all [read?]

/-- What is read can be read as far as any place in it. -/
theorem exists_read?_of_prefix (h : f.read? fs = some g) (hstarts : gs <+: fs) :
    ∃ k, f.read? gs = some k := by
  obtain ⟨rest, rfl⟩ := hstarts
  rw [read?_append, Option.bind_eq_some_iff] at h
  obtain ⟨k, hk, -⟩ := h
  exact ⟨k, hk⟩

theorem read?_closing : f.read? f.closing = some .roman := by
  cases f <;> rfl

theorem read?_opening : Font.roman.read? g.opening = some g := by
  cases g <;> rfl

@[simp] theorem weight_roman : weight w .roman = 0 := rfl

theorem weight_bold : weight w .bold = w (.opening .b) := Int.add_zero _

theorem weight_italic : weight w .italic = w (.opening .i) := Int.add_zero _

/-- The tags of running text are those of fonts. -/
theorem mem_fontTags {newlines : Bool} {t : Fragment} (ht : t.isInline newlines)
    (htag : t.isTag = true) :
    t ∈ [.opening .b, .opening .i, .closing .b, .closing .i] := by
  cases t with
  | opening e => cases e <;> simp_all [Fragment.isInline]
  | closing e => cases e <;> simp_all [Fragment.isInline]
  | _ => simp_all [Fragment.isInline, Fragment.isTag]

/-- **What a text weighs** is the change of its font. -/
theorem tally_of_read? (hw : IsTagWeight w) {newlines : Bool} (hfs : IsInline newlines fs)
    (h : f.read? fs = some g) : tally w fs = g.weight w - f.weight w := by
  have hbold := hw.bold
  have hitalic := hw.italic
  induction fs generalizing f with
  | nil =>
    obtain rfl := Option.some.inj h
    rw [tally_nil, Int.sub_self]
  | cons t fs ih =>
    obtain ⟨ht, hrest⟩ := isInline_cons.mp hfs
    rw [tally_cons]
    cases htag : t.isTag with
    | false =>
      rw [read?_cons_of_isTag htag] at h
      rw [hw.weightless t htag, ih hrest h, Int.zero_add]
    | true =>
      have hmem := mem_fontTags ht htag
      simp only [List.mem_cons, List.not_mem_nil, or_false] at hmem
      rcases hmem with rfl | rfl | rfl | rfl
      all_goals
        rw [read?, Option.ite_none_right_eq_some] at h
        obtain ⟨rfl, h⟩ := h
        rw [ih hrest h]
        simp only [weight_roman, weight_bold, weight_italic]
        omega

end Font

namespace RunningText

variable {w : Fragment → Int}

theorem isTag_ofChar (c : Char) : (Fragment.ofChar c).isTag = false := by
  unfold Fragment.ofChar
  split_ifs <;> rfl

theorem isTag_writeChar (c : Char) (rest : List Mark) : (writeChar c rest).isTag = false := by
  unfold writeChar
  split
  · split_ifs
    · rfl
    · exact isTag_ofChar c
  · exact isTag_ofChar c

/-- **A written text is read as the font after it.** -/
theorem read?_write (f : Font) (ms : List Mark) : f.read? (write f ms) = some (lastFont f ms) := by
  fun_induction write f ms with
  | case1 => rfl
  | case2 f c rest ih =>
    rw [Font.read?_cons_of_isTag (isTag_writeChar c rest)]
    exact ih
  | case3 f rest ih => exact ih
  | case4 f g rest ih =>
    rw [Font.read?_append, Font.read?_append, Font.read?_closing, Option.bind_some,
      Font.read?_opening, Option.bind_some, ih, lastFont]

end RunningText

/-! ## Texts of a page -/

namespace State

variable {w : Fragment → Int} (collapse : Bool) (s : State) (cs : List Char)

theorem read?_setText :
    s.font.read? (s.setText collapse cs).2 = some (s.setText collapse cs).1.font := by
  rw [setText, Font.read?_append, RunningText.read?_write, Option.bind_some]
  split_ifs <;> rfl

/-- **A text weighs the change of its font.** -/
theorem tally_setText (hw : IsTagWeight w) :
    tally w (s.setText collapse cs).2 =
      (s.setText collapse cs).1.font.weight w - s.font.weight w :=
  Font.tally_of_read? hw (s.isInline_setText collapse cs) (s.read?_setText collapse cs)

theorem tally_text (hw : IsTagWeight w) :
    tally w (s.text cs).2 = (s.text cs).1.font.weight w - s.font.weight w :=
  s.tally_setText false cs hw

theorem tally_argument (hw : IsTagWeight w) :
    tally w (s.argument cs).2 = (s.argument cs).1.font.weight w - s.font.weight w :=
  s.tally_setText true cs hw

end State

end Manpage
