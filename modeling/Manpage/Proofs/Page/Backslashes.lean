import Manpage.Proofs.Page.Markup
import Manpage.Proofs.Page.Reading
import Manpage.Proofs.Roff.Backslashes

/-!
# The backslashes of a page

A page whose escapes are finished and stand for no backslash has none in its HTML, unless a note on
another page or a prototype in preformatted text writes a part of its argument as it stands.

## Main definitions

* `Page.IsBenign`: pages whose escapes are finished and stand for no backslash

## Main results

* `Page.backslash_mem_rawHtml_iff`: when the HTML of such a page holds a backslash
-/

namespace Manpage

open Markup

/-- A backslash is written only as itself. -/
theorem Markup.backslash_mem_render_iff {fs : List Fragment} :
    '\\' ∈ render fs ↔ .char '\\' ∈ fs := by
  have hchars : ∀ f : Fragment, '\\' ∈ f.chars ↔ f = .char '\\' := by
    intro f
    cases f with
    | char c => simp [Fragment.chars, eq_comm]
    | code n =>
      have hdigits : '\\' ∉ Nat.toDigits 10 n := fun h =>
        absurd (Nat.isDigit_of_mem_toDigits (by decide) (by decide) h) (by decide)
      simp [Fragment.chars, hdigits]
    | opening e | closing e => cases e <;> decide
    | _ => decide
  simp [render, hchars]

namespace Page

/-- Pages whose escapes are finished and stand for no backslash: behind each backslash stands, on
its line, a character other than a backslash, an `e` or a double quote, and no glyph of a backslash
is called by its name. -/
structure IsBenign (text : List Char) : Prop where
  followed : ∀ line ∈ Text.lines text, ∀ after, '\\' :: after <:+ line →
    ∃ c ∈ after.head?, c ∉ ['\\', 'e', '"']
  glyph : ¬ "\\(rs".toList <:+: text
  longGlyph : ¬ "\\[rs]".toList <:+: text

variable {text : List Char}

theorem IsBenign.of_mem_lines (h : IsBenign text) : ∀ line ∈ Text.lines text, Benign line :=
  fun line hline => ⟨h.followed line hline,
    fun hglyph => h.glyph (hglyph.trans (Text.infix_of_mem_lines hline)),
    fun hglyph => h.longGlyph (hglyph.trans (Text.infix_of_mem_lines hline))⟩

/-- The lines of such a page do not go on. -/
theorem IsBenign.logicalLines_eq (h : IsBenign text) : logicalLines text = Text.lines text := by
  refine logicalLines_eq_lines fun line hline hlast => ?_
  obtain ⟨before, rfl⟩ := List.getLast?_eq_some_iff.mp hlast
  obtain ⟨c, hc, -⟩ := h.followed _ hline [] (List.suffix_append before _)
  exact absurd hc (by simp)

/-- **When a page leaks a backslash**: the HTML of a page whose escapes are finished and stand for
no backslash holds one exactly if a note on another page has one in its reference, or a prototype in
preformatted text has one in its parts. -/
theorem backslash_mem_rawHtml_iff (h : IsBenign text) :
    '\\' ∈ rawHtml text ↔ ∃ x ∈ calls (logicalLines text), x.2.writesRaw x.1 := by
  have hbenign : ∀ line ∈ logicalLines text, Benign line :=
    h.logicalLines_eq ▸ h.of_mem_lines
  have hlines : .char '\\' ∈ (State.feedAll {} (logicalLines text)).2 ↔
      ∃ x ∈ calls (logicalLines text), x.2.writesRaw x.1 :=
    State.leaks_feedAll (fun name hname => absurd hname (by simp)) hbenign
  have hend : ∀ s : State, .char '\\' ∉ s.finish := by
    intro s
    unfold State.finish
    split_ifs <;> simp
  rw [rawHtml, backslash_mem_render_iff, ← hlines]
  simp [markup, start, hend]

/-- The reference of a note is written as it stands. -/
theorem backslash_mem_rawHtml_reference :
    IsBenign ".so a\\-b".toList ∧ '\\' ∈ rawHtml ".so a\\-b".toList := by
  have hlines : Text.lines ".so a\\-b".toList = [".so a\\-b".toList] := by decide +kernel
  have hbenign : IsBenign ".so a\\-b".toList := by
    refine ⟨?_, by decide +kernel, by decide +kernel⟩
    rw [hlines]
    simp [List.suffix_cons_iff]
  exact ⟨hbenign, (backslash_mem_rawHtml_iff hbenign).mpr (by decide +kernel)⟩

/-- The parts of a prototype are written as they stand. -/
theorem backslash_mem_rawHtml_prototype :
    IsBenign ".nf\n.BI \"a\\-b\"".toList ∧ '\\' ∈ rawHtml ".nf\n.BI \"a\\-b\"".toList := by
  have hlines : Text.lines ".nf\n.BI \"a\\-b\"".toList =
      [".nf".toList, ".BI \"a\\-b\"".toList] := by decide +kernel
  refine ⟨⟨?_, by decide +kernel, by decide +kernel⟩, by decide +kernel⟩
  rw [hlines]
  simp [List.suffix_cons_iff]

end Page

end Manpage
