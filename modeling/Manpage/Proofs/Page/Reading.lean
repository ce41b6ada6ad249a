import Manpage.Page
import Manpage.Proofs.Charset.Utf8
import Manpage.Proofs.Roff.Continuation
import Mathlib.Tactic.ByContra

/-!
# Reading pages

The logical lines of a page are the lines of its text, joined. A page that is read from a stream of
bytes is decoded line by line, and one whose text is at hand is not decoded at all. Both ways give
the same page if the bytes encode a text, and if they do not, one of the lines fails, wherever it
stands and whatever it continues.

## Main results

* `logicalLines_eq_joined`: the logical lines of a page's text
* `logicalLines_append`: a page can be cut where a line ends and does not go on
* `ofLines_eq`: a page whose lines come from a source that can fail
* `ofLines_lines`: a page from a stream is the page of the text that the bytes encode
-/

namespace Manpage.Page

/-! ## Logical lines -/

/-- The logical lines of a page's text are its lines, joined. -/
theorem logicalLines_eq_joined (text : List Char) :
    logicalLines text = Continuation.joined (Text.lines text) := by
  rw [logicalLines, Continuation.logicalLines, Continuation.logicalLinesFrom_ok,
    List.filterMap_map]
  exact List.filterMap_some

/-- Lines that do not end in a backslash are the logical lines of a page. -/
theorem logicalLines_eq_lines {text : List Char}
    (h : ∀ line ∈ Text.lines text, line.getLast? ≠ some '\\') :
    logicalLines text = Text.lines text := by
  rw [logicalLines_eq_joined, (Continuation.joined_eq_self h).1]

/-- The logical lines of a text that is cut where a line ends and does not go on. -/
theorem logicalLines_append {before : List Char} (h : Text.EndsLine before)
    (hopen : ¬ Continuation.GoesOn (Text.lines before)) (rest : List Char) :
    logicalLines (before ++ rest) = logicalLines before ++ logicalLines rest := by
  rw [logicalLines_eq_joined, logicalLines_eq_joined, logicalLines_eq_joined, Text.lines_append h,
    Continuation.joined_append hopen]

/-! ## Streams -/

/-- A page whose lines come from a source that can fail is the page of the lines that come, or else
the first failure. -/
theorem ofLines_eq {ε : Type} (items : List (Except ε (List Char))) :
    ofLines items = (Continuation.attempt items).map fun lines =>
      Markup.render (markup (Continuation.joined lines)) := by
  rw [ofLines, Continuation.attempt_logicalLines]
  cases Continuation.attempt items <;> rfl

/-- **A page from a stream** of bytes is the page of the text that they encode, with option links or
without. Bytes that encode no text give a failure instead. -/
theorem ofLines_lines (bytes : Bytes) :
    (∀ text, bytes = Utf8.encode text →
      ofLines (Utf8.lines bytes) = .ok (rawHtml text) ∧
        (ofLines (Utf8.lines bytes)).map linkHtml = .ok (html text)) ∧
    ((∀ text, bytes ≠ Utf8.encode text) →
      ofLines (Utf8.lines bytes) = .error .notUtf8 ∧
        (ofLines (Utf8.lines bytes)).map linkHtml = .error .notUtf8) := by
  constructor
  · rintro text rfl
    have hraw : ofLines (Utf8.lines (Utf8.encode text)) = .ok (rawHtml text) := by
      rw [ofLines_eq, Utf8.lines_encode, Continuation.attempt_ok, rawHtml, logicalLines_eq_joined]
      rfl
    rw [hraw]
    exact ⟨rfl, rfl⟩
  · intro hbytes
    have hraw : ofLines (Utf8.lines bytes) = .error .notUtf8 := by
      have hfails : ∃ e, .error e ∈ Utf8.lines bytes := by
        by_contra hnone
        obtain ⟨text, htext⟩ := Utf8.exists_encode_of_forall_lines (not_exists.mp hnone)
        exact hbytes text htext
      obtain ⟨e, he⟩ := hfails
      obtain ⟨first, hfirst⟩ := Continuation.exists_attempt_eq_error he
      cases first
      rw [ofLines_eq, hfirst]
      rfl
    rw [hraw]
    exact ⟨rfl, rfl⟩

/-- A character is read whole, and not if a line feed cuts it. -/
theorem ofLines_lines_cut_character :
    ofLines (Utf8.lines [46, 66, 32, 0xC3, 0xA9, 13, 10, 120]) = .ok (rawHtml ".B é\r\nx".toList) ∧
      ofLines (Utf8.lines [46, 66, 32, 0xC3, 10, 0xA9]) = .error .notUtf8 := by
  refine ⟨((ofLines_lines _).1 _ ?_).1, ((ofLines_lines _).2 fun text h => ?_).1⟩
  · decide +kernel
  · have hnone : Utf8.decode? [46, 66, 32, 0xC3, 10, 0xA9] = none := by decide +kernel
    rw [Utf8.decode?_eq_some_iff.mpr h] at hnone
    exact absurd hnone (Option.some_ne_none _)

end Manpage.Page
