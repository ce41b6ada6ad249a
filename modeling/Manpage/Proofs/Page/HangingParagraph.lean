import Manpage.Proofs.Page.Balance
import Manpage.Proofs.Roff.LastLine

/-!
# Hanging paragraphs

A request for a hanging paragraph makes the next line of text the term of a list and all lines of
text after it the body, wherever on a page it comes and whatever comments stand between the lines.
The body stays open, and the next request that ends an indent closes it. So between two lines a page
is outside of an indent, in its term or in its body, and never waits for a term to begin.

## Main definitions

* `State.textLines`: lines of text set one after the other

## Main results

* `State.feedAll_body`: lines of text in the body of an indent
* `State.feedAll_hanging`: the lines of a hanging paragraph
* `Page.written_hanging`: what a page writes for a hanging paragraph
-/

namespace Manpage

open Markup

/-- A line of text is neither a comment nor a control line. -/
def IsTextLine (line : List Char) : Prop :=
  isComment line = false ∧ Inline.isControl line = false

namespace State

/-- **Lines of text set one after the other**, each with a space before it and in the font that the
line before it has left. -/
def textLines (s : State) : List (List Char) → State × List Fragment
  | [] => (s, [])
  | line :: lines =>
    let (t, text) := s.text line
    let (u, rest) := t.textLines lines
    (u, .char ' ' :: text ++ rest)

variable {s t : State} {body term : List Char} {lines more : List (List Char)}

/-- The font after a text is told by the font before it. -/
theorem font_text_congr (hfont : s.font = t.font) (line : List Char) :
    (s.text line).1.font = (t.text line).1.font := by
  simp only [text, setText, hfont]

/-- In the body of an indent, lines of text are set as they are anywhere in the same font. -/
theorem feedAll_body (hindent : s.indent = .body) (hfont : s.font = t.font)
    (hpre : s.inPreformatted = t.inPreformatted) (htext : ∀ line ∈ lines, IsTextLine line) :
    (s.feedAll lines).2 = (t.textLines lines).2 ∧
      (s.feedAll lines).1.font = (t.textLines lines).1.font ∧
        (s.feedAll lines).1.indent = .body := by
  induction lines generalizing s t with
  | nil => exact ⟨rfl, hfont, hindent⟩
  | cons line lines ih =>
    obtain ⟨⟨hcomment, hcontrol⟩, hlines⟩ := List.forall_mem_cons.mp htext
    have hbody : (s.text line).1.indent = .body := hindent
    have hline := feed_text (s := s) hcomment hcontrol
    rw [Block.countdown_of_ne (by simp [hbody]) (by simp [hbody]), List.append_nil] at hline
    obtain ⟨hwritten, hafter, hstays⟩ :=
      ih (s := { (s.text line).1 with lastLine := some line }) (t := (t.text line).1) hindent
        (font_text_congr hfont line) hpre hlines
    rw [feedAll_cons hline]
    refine ⟨?_, hafter, hstays⟩
    rw [textLines, hwritten, text, setText_congr hfont hpre]
    rfl

/-- **The lines of a hanging paragraph**: the first line of text is the term, and the others are the
body, in the fonts that they are set in one after the other. -/
theorem feedAll_hanging (hrequest : Request.ofName? (splitRequest body).1 = some .tp)
    (htext : ∀ line ∈ term :: more, IsTextLine line) :
    (s.feedAll (('.' :: body) :: term :: more)).2 =
        (Block.leaveIndent s).2 ++ [.opening .dl, .opening .dt] ++ .char ' ' :: (s.text term).2 ++
          [.closing .dt, .opening .dd] ++ ((s.text term).1.textLines more).2 ∧
      (s.feedAll (('.' :: body) :: term :: more)).1.font =
        ((s.text term).1.textLines more).1.font ∧
      (s.feedAll (('.' :: body) :: term :: more)).1.indent = .body := by
  obtain ⟨⟨hcomment, hcontrol⟩, hmore⟩ := List.forall_mem_cons.mp htext
  let inTerm : State :=
    { (Block.leaveIndent s).1 with
      indent := .term, lastRequest := some .tp, lastLine := some ('.' :: body) }
  let inBody : State := { (inTerm.text term).1 with indent := .body, lastLine := some term }
  have hfont : inTerm.font = s.font := Block.font_leaveIndent s
  have hpre : inTerm.inPreformatted = s.inPreformatted := Block.inPreformatted_leaveIndent s
  have hterm : inTerm.feed term =
      (inBody, .char ' ' :: (s.text term).2 ++ [.closing .dt, .opening .dd]) := by
    have hsame : (inTerm.text term).2 = (s.text term).2 := setText_congr hfont hpre false term
    have hopen : (inTerm.text term).1.indent = .term := rfl
    rw [feed_text hcomment hcontrol, Block.countdown_of_term hopen, hsame]
  obtain ⟨hwritten, hafter, hstays⟩ :=
    feedAll_body (s := inBody) (t := (s.text term).1) rfl (font_text_congr hfont term) hpre hmore
  rw [feedAll_cons (feed_hangingRequest hrequest s), feedAll_cons hterm]
  refine ⟨?_, hafter, hstays⟩
  rw [hwritten]
  simp only [List.append_assoc, List.cons_append]

end State

namespace Page

/-- **What a page writes for a hanging paragraph.** Between two lines a page is outside of an
indent, in its term or in its body. Wherever the request comes, with whatever argument, and whatever
comments stand between the lines of text that follow it: the body of an indent that is open is
closed, the first line of text is written as the term, the others as the body, each as text is set
in the font that the line before it has left, and the body stays open. -/
theorem written_hanging :
    (∀ lines, (stateAfter lines).indent ∈ [.none, .term, .body]) ∧
      ∀ (before lines more : List (List Char)) (body term : List Char),
        Request.ofName? (splitRequest body).1 = some .tp →
        lines.filter (!isComment ·) = term :: more →
        (∀ line ∈ term :: more, Inline.isControl line = false) →
        written (before ++ ('.' :: body) :: lines) =
            written before ++
              (if (stateAfter before).indent = .body then "</dd></dl>".toList else []) ++
              "<dl><dt>".toList ++ ' ' :: render ((stateAfter before).text term).2 ++
              "</dt><dd>".toList ++
              render (((stateAfter before).text term).1.textLines more).2 ∧
          (stateAfter (before ++ ('.' :: body) :: lines)).indent = .body ∧
          (stateAfter (before ++ ('.' :: body) :: lines)).font =
            (((stateAfter before).text term).1.textLines more).1.font := by
  constructor
  · intro lines
    have hrequested : (stateAfter lines).indent ≠ .requested :=
      State.indent_feedAll (by decide) lines
    cases h : (stateAfter lines).indent with
    | requested => exact absurd h hrequested
    | _ => decide
  · intro before lines more body term hrequest hlines hcontrol
    have htext : ∀ line ∈ term :: more, IsTextLine line := by
      intro line hline
      refine ⟨?_, hcontrol line hline⟩
      rw [← hlines, List.mem_filter] at hline
      simpa using hline.2
    have hskip : (stateAfter before).feedAll (('.' :: body) :: lines) =
        (stateAfter before).feedAll (('.' :: body) :: term :: more) := by
      rw [← State.feedAll_filter, List.filter_cons_of_pos (by simp [isComment_of_ofName? hrequest]),
        hlines]
    obtain ⟨hwritten, hfont, hindent⟩ :=
      State.feedAll_hanging (s := stateAfter before) hrequest htext
    rw [written_append, stateAfter_append, hskip, hwritten]
    refine ⟨?_, hindent, hfont⟩
    have hclosed : render (if (stateAfter before).indent = .body then Block.listEnd else []) =
        if (stateAfter before).indent = .body then "</dd></dl>".toList else [] := by
      split_ifs <;> rfl
    have hstart : render [.opening .dl, .opening .dt] = "<dl><dt>".toList := rfl
    have hbody : render [.closing .dt, .opening .dd] = "</dt><dd>".toList := rfl
    have hspace : ∀ fs, render (.char ' ' :: fs) = ' ' :: render fs := fun _ => rfl
    rw [Block.snd_leaveIndent]
    simp only [render_append, hclosed, hstart, hbody, hspace, List.append_assoc]

/-- A hanging paragraph behind another one, with comments between its lines and a font that its term
leaves to its body. -/
theorem written_hanging_comments :
    written [".TP".toList, "a".toList, "b".toList, ".TP 4".toList, "'x".toList, "\\fBc".toList,
          ".\\\" y".toList, "d\\fR".toList, "e".toList] =
        written [".TP".toList, "a".toList, "b".toList] ++
          "</dd></dl><dl><dt> <b>c</dt><dd> d</b> e".toList ∧
      (stateAfter [".TP".toList, "a".toList, "b".toList, ".TP 4".toList, "'x".toList,
        "\\fBc".toList, ".\\\" y".toList, "d\\fR".toList, "e".toList]).indent = .body := by
  obtain ⟨hwritten, hindent, -⟩ := written_hanging.2 [".TP".toList, "a".toList, "b".toList]
    ["'x".toList, "\\fBc".toList, ".\\\" y".toList, "d\\fR".toList, "e".toList]
    ["d\\fR".toList, "e".toList] "TP 4".toList "\\fBc".toList (by decide) (by decide) (by decide)
  refine ⟨hwritten.trans ?_, hindent⟩
  decide +kernel

end Page

end Manpage
