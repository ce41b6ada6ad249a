import Manpage.Proofs.Roff.Lines
import Manpage.Proofs.Roff.Words

/-!
# References to other pages

A line that names a page and its section is a link to that page, whatever characters the name and
the text behind the section hold and whatever state the line comes in, with one exception: in a
preformatted block a set text ends with a line break, and what stands behind the section may not
hold one, so that there no reference is ever linked and the name is written as a bold word.

## Main definitions

* `IsSection`: the sections that a reference can name
* `linkText`: the text of a link to a page

## Main results

* `Inline.section?_of_isSection`: when the second word of a reference names a section
* `Inline.reference_words`: what a page and its section are written as
* `State.render_feed_reference`: what a line with a page and its section writes
-/

namespace Manpage

open Markup

/-- A **section** is a digit, with a letter, a digit or an underscore behind it or not. -/
def IsSection : List Char → Prop
  | [d] => d.isDigit
  | [d, c] => d.isDigit ∧ Inline.isSectionChar c
  | _ => False

/-- The text of a link to the page `page` of the section `sect`. -/
def linkText (page sect : List Char) : List Char :=
  '<' :: ("a href=\"/man".toList ++ sect ++ "/".toList ++ page ++ ".".toList ++ sect ++
    "\"><b>".toList ++ page ++ "</b>(".toList ++ sect ++ ")</a>".toList)

variable {c : Char} {page sect leftover : List Char}

/-! ## Sections -/

theorem isPlain_of_isSectionChar (h : Inline.isSectionChar c) : isPlain c := by
  obtain ⟨r, hr, hc⟩ := exists_range_of_isAlphanum (by simpa [Inline.isSectionChar] using h)
  simp only [List.mem_cons, List.not_mem_nil, or_false] at hr
  have hbounds : 0x20 ≤ c.toNat ∧ c.toNat ≤ 0x7E := by grind
  have hmarkup : c ≠ '<' ∧ c ≠ '>' ∧ c ≠ '&' := by
    refine ⟨?_, ?_, ?_⟩ <;> rintro rfl <;> rcases hr with rfl | rfl | rfl | rfl <;>
      exact absurd hc (by decide)
  simp only [isPlain, hmarkup, Char.le_def, UInt32.le_iff_toNat_le, Bool.and_eq_true,
    decide_eq_true_eq, bne_iff_ne, ne_eq, not_false_eq_true, and_true]
  exact hbounds

namespace IsSection

theorem isSectionChar (h : IsSection sect) : ∀ c ∈ sect, Inline.isSectionChar c := by
  have hdigit : ∀ {d : Char}, d.isDigit → Inline.isSectionChar d := by
    intro d hd
    simp [Inline.isSectionChar, Char.isAlphanum, hd]
  rcases sect with - | ⟨d, - | ⟨c, - | ⟨_, _⟩⟩⟩
  · exact h.elim
  · simpa using hdigit h
  · simpa using And.intro (hdigit h.1) h.2
  · exact h.elim

/-- A section is set as it stands. -/
theorem isWord (h : IsSection sect) : IsWord sect := by
  intro c hc
  have hchar := h.isSectionChar c hc
  refine ⟨?_, ?_, ?_⟩ <;> rintro rfl <;> exact absurd hchar (by decide)

theorem escape_eq (h : IsSection sect) : escape sect = sect.map .char :=
  escape_of_isPlain h.isWord fun c hc => isPlain_of_isSectionChar (h.isSectionChar c hc)

end IsSection

/-- The word that names a section, with what stands behind its parenthesis. -/
def sectionWord (sect leftover : List Char) : List Char :=
  '(' :: (sect ++ ')' :: leftover)

theorem isWord_sectionWord (hsect : IsSection sect) (hleftover : IsWord leftover) :
    IsWord (sectionWord sect leftover) := by
  have hopening : IsWord ['('] := by simp [IsWord]
  have hclosing : IsWord [')'] := by simp [IsWord]
  exact hopening.append (hsect.isWord.append (hclosing.append hleftover))

theorem escape_sectionWord (hsect : IsSection sect) (hleftover : IsWord leftover) :
    escape (sectionWord sect leftover) =
      .char '(' :: (sect.map Fragment.char ++ .char ')' :: escape leftover) := by
  have hopening : Fragment.ofChar '(' = .char '(' := rfl
  have hclosing : Fragment.ofChar ')' = .char ')' := rfl
  rw [escape_word (isWord_sectionWord hsect hleftover), sectionWord, List.map_cons,
    List.map_append, ← escape_word hsect.isWord, hsect.escape_eq, List.map_cons,
    ← escape_word hleftover, hopening, hclosing]

namespace Inline

/-- **A word names a section** if it starts with the section in parentheses, and no line break comes
behind it. -/
theorem section?_of_isSection (h : IsSection sect) (rest : List Fragment) :
    Inline.section? (.char '(' :: (sect.map Fragment.char ++ .char ')' :: rest)) =
      if .newline ∈ rest then none else some (sect.map .char, rest) := by
  rcases sect with - | ⟨d, - | ⟨c, - | ⟨_, _⟩⟩⟩
  · exact h.elim
  · have hd : d.isDigit := h
    simp [section?, hd]
  · obtain ⟨hd, hc⟩ := h
    have hparen : c ≠ ')' := by
      rintro rfl
      exact absurd hc (by decide)
    simp [section?, hd, hc]
  · exact h.elim

/-- In a preformatted block the line break at the end of the text stands behind the section. -/
theorem section?_sectionWord (hsect : IsSection sect) (hleftover : IsWord leftover) (s : State) :
    Inline.section? (escape (sectionWord sect leftover) ++ s.lineEnd) =
      if s.inPreformatted then none else some (sect.map .char, escape leftover) := by
  have hnewline : Fragment.newline ∉ escape leftover := by
    rw [escape_word hleftover]
    intro hmem
    obtain ⟨c, -, hc⟩ := List.mem_map.mp hmem
    exact ofChar_ne_newline c hc
  rw [escape_sectionWord hsect hleftover, List.cons_append, List.append_assoc,
    List.cons_append, section?_of_isSection hsect, State.lineEnd]
  by_cases hpre : s.inPreformatted
  · rw [if_pos hpre, if_pos (List.mem_append_right _ List.mem_cons_self), if_pos hpre]
  · rw [if_neg hpre, List.append_nil, if_neg hnewline, if_neg hpre]

/-- **A page and its section** are a link, or two words if text is preformatted. -/
theorem reference_words (hpage : IsWord page) (hsect : IsSection sect) (hleftover : IsWord leftover)
    (s : State) :
    reference s (page ++ ' ' :: sectionWord sect leftover) =
      (s, if s.inPreformatted then
          boldFirst [escape page, escape (sectionWord sect leftover) ++ [.newline]]
        else .char ' ' :: pageLink (escape page) (sect.map .char) ++ escape leftover) := by
  have hword := isWord_sectionWord hsect hleftover
  have hplain : .char ' ' ∉ escape (sectionWord sect leftover) ++ s.lineEnd := by
    refine List.not_mem_append (notMem_escape hword) ?_
    unfold State.lineEnd
    split_ifs <;> simp
  have hne : page ++ ' ' :: sectionWord sect leftover ≠ [] := by simp
  rw [reference, if_neg hne, State.argument_words hpage hword]
  dsimp only
  rw [splitWords_two (notMem_escape hpage) hplain,
    referenceWords, section?_sectionWord hsect hleftover]
  by_cases hpre : s.inPreformatted
  · simp only [hpre, if_true, State.lineEnd]
  · simp only [hpre, if_false, Bool.false_eq_true]

theorem render_pageLink (page : List Fragment) (sect : List Char) :
    render (pageLink page (sect.map .char)) = linkText (render page) sect := by
  have hstart : render [.anchorStart] ++ render (wording "/man") =
      '<' :: "a href=\"/man".toList := rfl
  have hslash : render [.char '/'] = "/".toList := rfl
  have hperiod : render [.char '.'] = ".".toList := rfl
  have hbold : render [.valueEnd, .opening .b] = "\"><b>".toList := rfl
  have hopening : render [.closing .b, .char '('] = "</b>(".toList := rfl
  have hend : render [.char ')', .anchorEnd] = ")</a>".toList := rfl
  rw [pageLink, linkText]
  simp only [render_append, render_map_char, hstart, hslash, hperiod, hbold, hopening, hend]
  simp only [List.cons_append]

end Inline

/-! ## Lines -/

namespace State

/-- **A page and its section are linked**, whatever characters stand in the name and behind the
section, if text is not preformatted: the line writes the link and what stands behind the section,
and then only the tags that the countdown of indents adds. In a preformatted block it writes the
page as a bold word, and the section as the word behind it. -/
theorem render_feed_reference (hpage : IsWord page) (hsect : IsSection sect)
    (hleftover : IsWord leftover) (s : State) :
    render (s.feed (".BR ".toList ++ page ++ " (".toList ++ sect ++ ")".toList ++ leftover)).2 =
      (if s.inPreformatted then
          " <b>".toList ++ render (escape page) ++ "</b> (".toList ++ sect ++ ")".toList ++
            render (escape leftover) ++ "\n".toList
        else " ".toList ++ linkText (render (escape page)) sect ++ render (escape leftover)) ++
      render (Block.countdown s).2 := by
  have hline : ".BR ".toList ++ page ++ " (".toList ++ sect ++ ")".toList ++ leftover =
      '.' :: 'B' :: 'R' :: ' ' :: (page ++ ' ' :: sectionWord sect leftover) := by
    simp [sectionWord]
  have hrequest : Request.ofName? (splitRequest
      ('B' :: 'R' :: ' ' :: (page ++ ' ' :: sectionWord sect leftover))).1 = some .br := rfl
  have hperform : s.perform (control 7) .br (splitRequest
      ('B' :: 'R' :: ' ' :: (page ++ ' ' :: sectionWord sect leftover))).2 = _ :=
    Inline.reference_words hpage hsect hleftover s
  rw [hline, feed_perform_of_not_ends hrequest rfl hperform, render_append]
  congr 1
  split_ifs
  · rw [escape_sectionWord hsect hleftover]
    simp [Inline.boldFirst, Fragment.chars, Element.name]
  · rw [List.cons_append, render_cons, render_append, Inline.render_pageLink]
    simp [Fragment.chars]

/-- A reference whose name and whose leftover hold characters of markup, in the term of an indent
and in a preformatted block there. -/
theorem render_feed_reference_markup :
    IsWord "a<b>".toList ∧ IsSection "3p".toList ∧ IsWord ",&".toList ∧
      render (State.feed { indent := .term } ".BR a<b> (3p),&".toList).2 =
        (" <a href=\"/man3p/a&lt;b&gt;.3p\"><b>a&lt;b&gt;</b>(3p)</a>,&amp;" ++
          "</dt><dd>").toList ∧
      render (State.feed { indent := .term, inPreformatted := true }
          ".BR a<b> (3p),&".toList).2 =
        " <b>a&lt;b&gt;</b> (3p),&amp;\n</dt><dd>".toList := by
  have hpage : IsWord "a<b>".toList := by simp [IsWord]
  have hsect : IsSection "3p".toList := ⟨by decide, by decide⟩
  have hleftover : IsWord ",&".toList := by simp [IsWord]
  refine ⟨hpage, hsect, hleftover, ?_, ?_⟩
  · exact (render_feed_reference hpage hsect hleftover { indent := .term }).trans
      (by decide +kernel)
  · exact (render_feed_reference hpage hsect hleftover
      { indent := .term, inPreformatted := true }).trans (by decide +kernel)

/-- In a preformatted block a page and its section are no link. -/
theorem render_feed_reference_ne :
    render ((State.feed {} ".nf".toList).1.feed ".BR a (1)".toList).2 ≠
      " ".toList ++ linkText "a".toList "1".toList ++ "\n".toList := by
  decide +kernel

end State

end Manpage
