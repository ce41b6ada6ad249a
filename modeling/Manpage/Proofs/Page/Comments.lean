import Manpage.Proofs.Page.Reading
import Manpage.Proofs.Roff.LastLine

/-!
# Comments

Comments are told from other lines once lines are joined, so a comment that goes on takes the lines
that it goes on with along. A comment can be deleted together with them, and by itself if it goes on
with none. Deleting only a part of it brings the rest to light.

## Main results

* `rawHtml_comment`: a comment leaves no trace
-/

namespace Manpage.Page

open Continuation (joined GoesOn)
open Text (EndsLine)
open Markup (render)

variable {before comment after line : List Char}

/-- **A comment leaves no trace** in a page: a line that starts like one and goes on with no other
line, or a line with those that it goes on with, if they start like one when they are joined. -/
theorem rawHtml_comment (hbefore : EndsLine before) (hcomment : EndsLine comment ∨ after = [])
    (hopen : ¬ GoesOn (Text.lines before))
    (hline : Text.lines comment = [line] ∧ line.getLast? ≠ some '\\' ∨
      joined (Text.lines comment) = [line] ∧ (¬ GoesOn (Text.lines comment) ∨ after = []))
    (hmark : ['\''] <+: line ∨ ['.', '\\'] <+: line ∨ ['\\', '\\'] <+: line) :
    rawHtml (before ++ comment ++ after) = rawHtml (before ++ after) := by
  have hjoined : joined (Text.lines comment) = [line] ∧
      (¬ GoesOn (Text.lines comment) ∨ after = []) := by
    rcases hline with ⟨hline, hlast⟩ | hjoined
    · obtain ⟨hjoined, hends⟩ := Continuation.joined_eq_self (List.forall_mem_singleton.mpr hlast)
      rw [hline]
      exact ⟨hjoined, Or.inl hends⟩
    · exact hjoined
  have hrest : logicalLines (comment ++ after) = line :: logicalLines after := by
    rw [← List.singleton_append, ← hjoined.1, ← logicalLines_eq_joined]
    by_cases hafter : after = []
    · rw [hafter, List.append_nil]
      exact (List.append_nil _).symm
    · exact logicalLines_append (hcomment.resolve_right hafter)
        (hjoined.2.resolve_right hafter) after
  have hskip : ∀ l ∈ [line], isComment l := by
    intro l hl
    rw [List.mem_singleton.mp hl]
    exact isComment_iff.mpr hmark
  calc rawHtml (before ++ comment ++ after)
      = render (markup (logicalLines before ++ [line] ++ logicalLines after)) := by
        rw [rawHtml, List.append_assoc, logicalLines_append hbefore hopen, hrest,
          List.append_assoc, List.singleton_append]
    _ = render (markup (logicalLines before ++ logicalLines after)) := by
        rw [markup, markup, State.feedAll_skip hskip]
    _ = rawHtml (before ++ after) := by
        rw [rawHtml, logicalLines_append hbefore hopen]

/-- A comment by itself, and one that goes on. -/
theorem rawHtml_comment_between_text :
    rawHtml ("a\n".toList ++ ".\\\" x\n".toList ++ "b".toList) =
        rawHtml ("a\n".toList ++ "b".toList) ∧
      rawHtml ("a\n".toList ++ ".\\\" x\\\ny\n".toList ++ "b".toList) =
        rawHtml ("a\n".toList ++ "b".toList) := by
  have ha : EndsLine "a\n".toList := Or.inr ⟨['a'], rfl⟩
  have hopen : ¬ GoesOn (Text.lines "a\n".toList) := by decide +kernel
  constructor
  · have hcomment : EndsLine ".\\\" x\n".toList := Or.inr ⟨".\\\" x".toList, rfl⟩
    have hline : Text.lines ".\\\" x\n".toList = [".\\\" x".toList] := by decide +kernel
    exact rawHtml_comment ha (Or.inl hcomment) hopen (Or.inl ⟨hline, by decide⟩)
      (Or.inr (Or.inl ⟨"\" x".toList, rfl⟩))
  · have hcomment : EndsLine ".\\\" x\\\ny\n".toList := Or.inr ⟨".\\\" x\\\ny".toList, rfl⟩
    have hline : joined (Text.lines ".\\\" x\\\ny\n".toList) = [".\\\" xy".toList] ∧
        ¬ GoesOn (Text.lines ".\\\" x\\\ny\n".toList) := by decide +kernel
    exact rawHtml_comment ha (Or.inl hcomment) hopen (Or.inr ⟨hline.1, Or.inl hline.2⟩)
      (Or.inr (Or.inl ⟨"\" xy".toList, rfl⟩))

/-- The line that a comment goes on with is text once the comment is deleted. -/
theorem rawHtml_ne_comment_goesOn :
    Text.lines ".\\\" x\\\n".toList = [".\\\" x\\".toList] ∧
      ['.', '\\'] <+: ".\\\" x\\".toList ∧
      rawHtml ".\\\" x\\\ntext".toList ≠ rawHtml "text".toList := by
  refine ⟨by decide +kernel, ⟨"\" x\\".toList, rfl⟩, by decide +kernel⟩

end Manpage.Page
