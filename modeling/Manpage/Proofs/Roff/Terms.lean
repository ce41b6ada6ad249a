import Manpage.Proofs.Markup.Rendered
import Manpage.Proofs.Roff.Lines
import Manpage.Proofs.Text.Lines

/-!
# Terms of indented paragraphs

A quoted term is the first of the arguments that double quotes split the line into, and blank pieces
do not count there. An empty pair of quotes is looked for before, and gives no term whatever comes
behind it. But quotes around blanks are only a blank piece, and the text behind them, which is the
width of the indent, is taken for the term unless it is blank as well.

## Main results

* `Block.term?_blank`: the term behind quotes that hold blanks
* `State.render_feed_blankTerm`: what a line with a blank term writes
-/

namespace Manpage

open Markup

variable {term rest : List Char}

namespace Block

/-- A double quote is no blank. -/
theorem ne_quote_of_isBlankText (hterm : Text.isBlankText term) : ∀ c ∈ term, c ≠ '"' := by
  rintro c hc rfl
  exact absurd (List.all_eq_true.mp hterm '"' hc) (by decide)

/-- Quotes around blanks split a line into blanks and what stands behind the quotes. -/
theorem quotedArguments_blank (hterm : Text.isBlankText term) (hrest : '"' ∉ rest) :
    quotedArguments ('"' :: (term ++ '"' :: rest)) =
      if Text.isBlankText rest then [] else [rest] := by
  have hquote : ∀ c ∈ term, (c == '"') = false := fun c hc =>
    beq_false_of_ne (ne_quote_of_isBlankText hterm c hc)
  have hpieces : Text.pieces (· == '"') rest = [rest] :=
    Text.pieces_of_forall fun c hc => beq_false_of_ne (ne_of_mem_of_not_mem hc hrest)
  rw [quotedArguments, Text.pieces_cons, if_pos (by decide), Text.pieces_append hquote,
    Text.pieces_cons, if_pos (by decide), hpieces, List.modifyHead_cons, List.append_nil]
  have hempty : Text.isBlankText [] = true := rfl
  cases hblank : Text.isBlankText rest <;> simp [hterm, hblank, hempty]

/-- **Behind quotes that hold blanks** there is a term if the quotes are not empty and what follows
them is not blank. -/
theorem term?_blank (hterm : Text.isBlankText term) (hrest : '"' ∉ rest) :
    term? ('"' :: (term ++ '"' :: rest)) =
      if term = [] ∨ Text.isBlankText rest then none else some rest := by
  cases term with
  | nil => rfl
  | cons c term =>
    have hc : c ≠ '"' := ne_quote_of_isBlankText hterm c List.mem_cons_self
    have hquoted : term? ('"' :: (c :: term ++ '"' :: rest)) =
        (quotedArguments ('"' :: (c :: term ++ '"' :: rest))).head? := by
      rw [List.cons_append, term?]
      exact fun _ h => hc (List.cons.inj h).1
    rw [hquoted, quotedArguments_blank hterm hrest]
    simp only [List.cons_ne_nil, false_or]
    split_ifs <;> rfl

/-- What an indented paragraph writes before its body. -/
def hangingText (s : State) (term : Option (List Char)) : List Char :=
  match term with
  | some term => "<dl><dt>".toList ++ render (s.argument term).2 ++ "</dt><dd>".toList
  | none => "<dl><dd>".toList

theorem hangingText_leaveIndent (s : State) (term : Option (List Char)) :
    hangingText (leaveIndent s).1 term = hangingText s term := by
  cases term with
  | none => rfl
  | some term =>
    unfold hangingText State.argument
    dsimp only
    rw [State.setText_congr (font_leaveIndent s) (inPreformatted_leaveIndent s)]

theorem indent_hanging (s : State) (args : List Char) : (hanging s args).1.indent = .body := by
  unfold hanging
  split <;> rfl

theorem render_hanging (s : State) (args : List Char) :
    render (hanging s args).2 = hangingText s (term? args) := by
  unfold hanging hangingText
  cases term? args with
  | none => rfl
  | some term =>
    have hopening : render [.opening .dl, .opening .dt] = "<dl><dt>".toList := rfl
    have hclosing : render [.closing .dt, .opening .dd] = "</dt><dd>".toList := rfl
    dsimp only
    rw [render_append, render_append, hopening, hclosing]

theorem render_leaveIndent (s : State) :
    render (leaveIndent s).2 = if s.indent = .body then "</dd></dl>".toList else [] := by
  rw [snd_leaveIndent]
  split_ifs <;> rfl

end Block

namespace State

/-- **A line with an indented paragraph** closes the indent that is open, if one is, and opens the
body of the next one, behind its term if there is one. -/
theorem feed_indented (s : State) (args : List Char) :
    (s.feed (".IP ".toList ++ args)).1.indent = .body ∧
      render (s.feed (".IP ".toList ++ args)).2 =
        (if s.indent = .body then "</dd></dl>".toList else []) ++
          Block.hangingText s (Block.term? args) := by
  have hline : ".IP ".toList ++ args = '.' :: 'I' :: 'P' :: ' ' :: args := rfl
  have hrequest : Request.ofName? (splitRequest ('I' :: 'P' :: ' ' :: args)).1 = some .ip := rfl
  have hperform : (Block.leaveIndent s).1.perform (control 7) .ip
      (splitRequest ('I' :: 'P' :: ' ' :: args)).2 =
      ((Block.hanging (Block.leaveIndent s).1 args).1,
        (Block.hanging (Block.leaveIndent s).1 args).2) := rfl
  have hbody := Block.indent_hanging (Block.leaveIndent s).1 args
  rw [hline, feed_perform hrequest (Prod.eta (Block.leaveIndent s)).symm hperform,
    Block.countdown_of_ne (by simp [hbody]) (by simp [hbody])]
  refine ⟨hbody, ?_⟩
  rw [List.append_nil, render_append, Block.render_leaveIndent, Block.render_hanging,
    Block.hangingText_leaveIndent]

/-- **What a line with a blank term writes.** It closes the indent that is open, if one is, and
opens the body of the next one. It writes no term exactly if its quotes are empty or nothing but
blanks stand behind them; else what stands behind the quotes is written as the term. -/
theorem render_feed_blankTerm (hterm : Text.isBlankText term) (hrest : '"' ∉ rest) (s : State) :
    (s.feed (".IP \"".toList ++ term ++ "\"".toList ++ rest)).1.indent = .body ∧
      render (s.feed (".IP \"".toList ++ term ++ "\"".toList ++ rest)).2 =
        (if s.indent = .body then "</dd></dl>".toList else []) ++
          (if term = [] ∨ Text.isBlankText rest then "<dl><dd>".toList
            else "<dl><dt>".toList ++ render (s.argument rest).2 ++ "</dt><dd>".toList) ∧
      (render (s.feed (".IP \"".toList ++ term ++ "\"".toList ++ rest)).2 =
          (if s.indent = .body then "</dd></dl>".toList else []) ++ "<dl><dd>".toList ↔
        term = [] ∨ Text.isBlankText rest) := by
  have hline : ".IP \"".toList ++ term ++ "\"".toList ++ rest =
      ".IP ".toList ++ '"' :: (term ++ '"' :: rest) := by simp
  obtain ⟨hbody, htext⟩ := s.feed_indented ('"' :: (term ++ '"' :: rest))
  have hwritten : Block.hangingText s (Block.term? ('"' :: (term ++ '"' :: rest))) =
      if term = [] ∨ Text.isBlankText rest then "<dl><dd>".toList
      else "<dl><dt>".toList ++ render (s.argument rest).2 ++ "</dt><dd>".toList := by
    rw [Block.term?_blank hterm hrest]
    split_ifs <;> rfl
  rw [hline, htext, hwritten]
  refine ⟨hbody, rfl, ?_⟩
  rw [List.append_cancel_left_eq]
  split_ifs with h
  · exact iff_of_true rfl h
  · exact iff_of_false (by simp) h

/-- A blank term with a blank width behind it, and no term at all with a width, in an indent. -/
theorem render_feed_blankTerm_width :
    Text.isBlankText " \t".toList ∧ '"' ∉ " ".toList ∧
      render (State.feed { indent := .body } ".IP \" \t\" ".toList).2 =
        "</dd></dl><dl><dd>".toList ∧
      Text.isBlankText [] ∧ '"' ∉ " 4".toList ∧
      render (State.feed { indent := .body } ".IP \"\" 4".toList).2 =
        "</dd></dl><dl><dd>".toList := by
  have hblank : Text.isBlankText " \t".toList := by decide
  have hwidth : '"' ∉ " 4".toList := by decide
  have hspace : '"' ∉ " ".toList := by decide
  have hempty : Text.isBlankText [] := rfl
  refine ⟨hblank, hspace, ?_, hempty, hwidth, ?_⟩
  · exact (render_feed_blankTerm hblank hspace { indent := .body }).2.2.mpr (Or.inr (by decide))
  · exact (render_feed_blankTerm hempty hwidth { indent := .body }).2.2.mpr (Or.inl rfl)

/-- The width of the indent is written as the term behind quotes that hold a space. -/
theorem render_feed_blankTerm_ne :
    render (State.feed {} ".IP \" \" 4".toList).2 = "<dl><dt> 4</dt><dd>".toList ∧
      render (State.feed {} ".IP \" \" 4".toList).2 ≠ "<dl><dd>".toList := by
  decide +kernel

end State

end Manpage
