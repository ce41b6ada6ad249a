import Manpage.Page
import Manpage.Proofs.Text.Lines
import Mathlib.Data.List.Basic

/-!
# Line endings

A page depends on its lines and on nothing else of its text. A carriage return before a line feed is
part of the ending, so writing one before each line feed leaves the lines as they are, and with them
what continues which line. The end of a text ends its last line, too, so a line feed may be missing
there: one that is added starts no line of its own, unless the text has no line at all.

## Main definitions

* `Text.withReturns`: a text with a carriage return before each line feed

## Main results

* `Text.lines_withReturns`, `Text.lines_concat_newline`: texts with the same lines
* `Page.rawHtml_lineEndings`: the page does not depend on how its lines end
-/

namespace Manpage

namespace Text

variable {piece text : List Char} {ps : List (List Char)}

/-- A text with a carriage return before each line feed. -/
def withReturns (text : List Char) : List Char :=
  text.flatMap fun c => if c = '\n' then ['\r', '\n'] else [c]

theorem withReturns_append (text more : List Char) :
    withReturns (text ++ more) = withReturns text ++ withReturns more :=
  List.flatMap_append

theorem withReturns_newline_cons (text : List Char) :
    withReturns ('\n' :: text) = '\r' :: '\n' :: withReturns text := rfl

/-- A text without line feeds stays as it is. -/
theorem withReturns_of_notMem (h : '\n' ∉ text) : withReturns text = text := by
  induction text with
  | nil => rfl
  | cons c text ih =>
    obtain ⟨hc, htext⟩ := List.ne_and_not_mem_of_not_mem_cons h
    rw [withReturns, List.flatMap_cons, if_neg hc.symm, ← withReturns, ih htext]
    rfl

/-- A carriage return at the end of a line is dropped. -/
theorem dropReturn_concat (piece : List Char) : dropReturn (piece ++ ['\r']) = piece := by
  induction piece with
  | nil => rfl
  | cons c piece ih =>
    rw [List.cons_append, dropReturn, ih]
    exact fun _ h => List.append_ne_nil_of_right_ne_nil piece (List.cons_ne_nil _ _) h

/-- No other character is. -/
theorem dropReturn_of_getLast? (h : piece.getLast? ≠ some '\r') : dropReturn piece = piece := by
  fun_induction dropReturn piece with
  | case1 => rfl
  | case2 => exact absurd rfl h
  | case3 c cs _ ih =>
    cases cs with
    | nil => rfl
    | cons d cs => rw [ih (by rwa [List.getLast?_cons_cons] at h)]

/-- A piece with a line feed after it is a line. -/
theorem linesOfPieces_cons (piece : List Char) (h : ps ≠ []) :
    linesOfPieces (piece :: ps) = dropReturn piece :: linesOfPieces ps :=
  linesOfPieces_append [piece] h

/-- The line that ends at the first line feed, and those after it. -/
theorem lines_append_newline_cons (hpiece : '\n' ∉ piece) (rest : List Char) :
    lines (piece ++ '\n' :: rest) = dropReturn piece :: lines rest := by
  rw [lines, pieces_append_sep hpiece, linesOfPieces_cons piece (pieces_ne_nil _ rest), lines]

/-- **Carriage returns before the line feeds** leave the lines of a text as they are. -/
theorem lines_withReturns (h : '\r' ∉ text) : lines (withReturns text) = lines text := by
  induction text using pieces_induction '\n' with
  | last piece hpiece => rw [withReturns_of_notMem hpiece]
  | cons piece rest hpiece ih =>
    obtain ⟨hreturn, hrest⟩ := not_or.mp (fun hmem => h (List.mem_append.mpr hmem))
    have hlast : piece.getLast? ≠ some '\r' := fun hlast =>
      hreturn (List.mem_of_getLast? hlast)
    have hpiece' : '\n' ∉ piece ++ ['\r'] := by
      rw [List.mem_append, List.mem_singleton]
      exact not_or.mpr ⟨hpiece, by decide⟩
    calc lines (withReturns (piece ++ '\n' :: rest))
        = lines ((piece ++ ['\r']) ++ '\n' :: withReturns rest) := by
          rw [withReturns_append, withReturns_of_notMem hpiece, withReturns_newline_cons,
            List.append_assoc, List.singleton_append]
      _ = piece :: lines rest := by
          rw [lines_append_newline_cons hpiece', dropReturn_concat,
            ih (List.not_mem_of_not_mem_cons hrest)]
      _ = lines (piece ++ '\n' :: rest) := by
          rw [lines_append_newline_cons hpiece, dropReturn_of_getLast? hlast]

/-- **A line feed at the end** of a text whose last line has not ended adds no line. -/
theorem lines_concat_newline (hne : text ≠ []) (hreturn : text.getLast? ≠ some '\r')
    (hend : text.getLast? ≠ some '\n') : lines (text ++ ['\n']) = lines text := by
  induction text using pieces_induction '\n' with
  | last piece hpiece =>
    have hlines : lines piece = [piece] := by
      rw [lines, pieces_of_notMem hpiece, linesOfPieces, if_neg hne]
    rw [lines_append_newline_cons hpiece, dropReturn_of_getLast? hreturn, hlines]
    rfl
  | cons piece rest hpiece ih =>
    have hrest : rest ≠ [] := by
      rintro rfl
      exact hend List.getLast?_concat
    have hlast : (piece ++ '\n' :: rest).getLast? = rest.getLast? := by
      rw [List.getLast?_append_cons, List.getLast?_cons_of_ne_nil hrest]
    rw [hlast] at hreturn hend
    rw [List.append_assoc, List.cons_append, lines_append_newline_cons hpiece,
      lines_append_newline_cons hpiece, ih hrest hreturn hend]

end Text

namespace Page

/-- A page depends on its lines only. -/
theorem rawHtml_congr {text other : List Char} (h : Text.lines text = Text.lines other) :
    rawHtml text = rawHtml other := by
  rw [rawHtml, rawHtml, logicalLines, logicalLines, h]

/-- **The page does not depend on how its lines end**: with a carriage return before each line feed
or without them, and with a line feed at the end or without it. -/
theorem rawHtml_lineEndings {text : List Char} (h : '\r' ∉ text) :
    rawHtml (Text.withReturns text) = rawHtml text ∧
      (text ≠ [] → text.getLast? ≠ some '\n' → rawHtml (text ++ ['\n']) = rawHtml text) := by
  refine ⟨rawHtml_congr (Text.lines_withReturns h), fun hne hend => rawHtml_congr ?_⟩
  exact Text.lines_concat_newline hne (fun hlast => h (List.mem_of_getLast? hlast)) hend

/-- The second line of the block continues on an empty line, and the last one on nothing. -/
theorem rawHtml_lineEndings_continued :
    rawHtml ".nf\r\na\\\r\n\r\n b\\".toList = rawHtml ".nf\na\\\n\n b\\".toList ∧
      rawHtml ".nf\na\\\n\n b\\\n".toList = rawHtml ".nf\na\\\n\n b\\".toList := by
  have hreturn : '\r' ∉ ".nf\na\\\n\n b\\".toList := by decide
  obtain ⟨hreturns, hnewline⟩ := rawHtml_lineEndings hreturn
  exact ⟨hreturns, hnewline (by decide) (by decide)⟩

end Page

end Manpage
