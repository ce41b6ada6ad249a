import Manpage.Proofs.Markup.PlainText
import Manpage.Proofs.Roff.Lines
import Manpage.Proofs.Text.Lines
import Manpage.Proofs.Text.Trim

/-!
# Notes on other pages

A page that only refers to another one is a note with a link to it. The link leads to the whole
reference, and its text is the name and the section of the page, which the reference is taken apart
for: the file is what stands behind its first slash, and the first period in the file ends the name.
So the note says the right name only if there is one directory at most and no period in the name.

## Main definitions

* `pageFile`: the reference to a page in a directory
* `noteText`: the text of the note on a page

## Main results

* `Block.pointerTarget_pageFile_iff`: when a reference is taken apart as it was put together
* `State.render_feed_note`: what a line with a reference writes
* `State.render_feed_note_iff`: when the note says the name and the section of the page
-/

namespace Manpage

open Markup

/-- The reference to the page `page` of the section `sect`, in the directory `dir` if there is
one. -/
def pageFile (dir : Option (List Char)) (page sect : List Char) : List Char :=
  (dir.elim [] fun d => d ++ ['/']) ++ page ++ '.' :: sect

/-- The text of a note with a link to `target` that names the page `page` and the section `sect`. -/
def noteText (target page sect : List Char) : List Char :=
  '<' :: ("div class=\"man-page\"><div id=\"NOTE\" class=\"section\">".toList ++
    "<h2><a href=\"#NOTE\">NOTE</a></h2> This manpage is a reference to another. ".toList ++
    "See <b><a href=\"/".toList ++ render (escape target) ++ "\">".toList ++
    render (escape page) ++ " (".toList ++ render (escape sect) ++ ")</a></b>.</div></div>".toList)

variable {dir : Option (List Char)} {page sect target args name part : List Char}

namespace Block

/-! ## Taking a reference apart -/

/-- The page and the section of a reference are parts of it. -/
theorem pointerTarget_subset (target : List Char) :
    (pointerTarget target).1 ⊆ target ∧ (pointerTarget target).2 ⊆ target := by
  have hcut : ∀ {sep : Char → Bool} {cs before after : List Char},
      Text.cut? sep cs = some (before, after) → before ⊆ cs ∧ after ⊆ cs := by
    intro sep cs before after h
    obtain ⟨x, rfl⟩ := Text.eq_of_cut?_eq_some h
    exact ⟨List.subset_append_left _ _, fun c hc => by simp [hc]⟩
  have hfile : ((Text.cut? (· == '/') target).map (·.2)).getD target ⊆ target := by
    cases h : Text.cut? (· == '/') target with
    | none => exact List.Subset.refl target
    | some parts => exact (hcut h).2
  have hsplit : ∀ file ⊆ target, ((Text.cut? (· == '.') file).getD (file, file)).1 ⊆ target ∧
      ((Text.cut? (· == '.') file).getD (file, file)).2 ⊆ target := by
    intro file hsub
    cases h : Text.cut? (· == '.') file with
    | none => exact ⟨hsub, hsub⟩
    | some parts => exact ⟨List.Subset.trans (hcut h).1 hsub, List.Subset.trans (hcut h).2 hsub⟩
  exact hsplit _ hfile

/-- **A reference is taken apart as it was put together** if there is no slash in the directory and
no period in the name of the page, and only then. -/
theorem pointerTarget_pageFile_iff (hpage : '/' ∉ page) (hsect : '/' ∉ sect) :
    pointerTarget (pageFile dir page sect) = (page, sect) ↔
      (∀ d ∈ dir, '/' ∉ d) ∧ '.' ∉ page := by
  have hnone : '/' ∉ page ++ '.' :: sect := by simp [hpage, hsect]
  have hcut : ∀ file, '.' ∈ file →
      ((Text.cut? (· == '.') file).getD (file, file) = (page, sect) ↔
        file = page ++ '.' :: sect ∧ '.' ∉ page) := by
    intro file hperiod
    rw [← Text.cut?_eq_some_iff]
    cases hparts : Text.cut? (· == '.') file with
    | none => exact absurd hperiod (Text.cut?_eq_none_iff.mp hparts)
    | some parts => exact Option.some_inj.symm
  have hfile : '.' ∈ page ++ '.' :: sect := by simp
  cases dir with
  | none =>
    have htarget : pageFile none page sect = page ++ '.' :: sect := rfl
    rw [htarget, pointerTarget, Text.cut?_eq_none_iff.mpr hnone]
    simpa using hcut _ hfile
  | some d =>
    have htarget : pageFile (some d) page sect = d ++ '/' :: (page ++ '.' :: sect) := by
      simp [pageFile]
    by_cases hd : '/' ∈ d
    · obtain ⟨front, back, rfl, hfront⟩ := List.eq_append_cons_of_mem hd
      have hslash : Text.cut? (· == '/')
          ((front ++ '/' :: back) ++ '/' :: (page ++ '.' :: sect)) =
            some (front, back ++ '/' :: (page ++ '.' :: sect)) :=
        Text.cut?_eq_some_iff.mpr ⟨by simp, hfront⟩
      rw [htarget, pointerTarget, hslash, Option.map_some, Option.getD_some, hcut _ (by simp)]
      refine iff_of_false ?_ ?_
      · rintro ⟨heq, -⟩
        have hlength := congrArg List.length heq
        simp at hlength
        omega
      · rintro ⟨hdir, -⟩
        exact hdir _ rfl hd
    · have hslash : Text.cut? (· == '/') (d ++ '/' :: (page ++ '.' :: sect)) =
          some (d, page ++ '.' :: sect) :=
        Text.cut?_eq_some_iff.mpr ⟨rfl, hd⟩
      rw [htarget, pointerTarget, hslash, Option.map_some, Option.getD_some, hcut _ hfile]
      simp [hd]

/-! ## The text of a note -/

theorem render_pointer {rest : List (List Char)} (hargs : quotedArguments args = part :: rest)
    (htarget : pointerTarget (Text.trim part) = (page, sect)) :
    render (pointer args) = noteText (Text.trim part) page sect := by
  have hstart : render ([.pageStart, .sectionStart] ++ wording "NOTE" ++
      [.sectionClass, .opening .h2, .anchorStart] ++ wording "#NOTE" ++ [.valueEnd] ++
      wording "NOTE" ++ [.anchorEnd, .closing .h2] ++
      wording " This manpage is a reference to another. See " ++
      [.opening .b, .anchorStart, .char '/']) =
      '<' :: ("div class=\"man-page\"><div id=\"NOTE\" class=\"section\">".toList ++
        "<h2><a href=\"#NOTE\">NOTE</a></h2> This manpage is a reference to another. ".toList ++
        "See <b><a href=\"/".toList) := by
    simp [Fragment.chars, Element.name]
  have hvalue : render [.valueEnd] = "\">".toList := rfl
  have hend : render (wording ")") ++
      render [.anchorEnd, .closing .b, .char '.', .divisionEnd, .divisionEnd] =
        ")</a></b>.</div></div>".toList := by
    simp [Fragment.chars, Element.name]
  rw [pointer, hargs]
  dsimp only
  rw [htarget]
  dsimp only
  rw [render_append, render_append, render_append, render_append, render_append, render_append,
    render_append, hstart, hvalue, render_wording " (", List.append_assoc _ _ (render _), hend,
    noteText]
  simp only [List.cons_append]

/-- Notes on the same reference that say the same name the same page. -/
theorem noteText_inj {other part : List Char} (hpage : ' ' ∉ page) (hother : ' ' ∉ other) :
    noteText target page sect = noteText target other part ↔ page = other ∧ sect = part := by
  refine ⟨fun h => ?_, fun ⟨hname, hpart⟩ => by rw [hname, hpart]⟩
  have hread : ∀ name number, plainText (render (escape name) ++ " (".toList ++
      render (escape number)) = name ++ ' ' :: '(' :: number := by
    intro name number
    have hinline : IsInline false (escape name ++ wording " (" ++ escape number) :=
      isInline_append.mpr
        ⟨isInline_append.mpr ⟨isInline_escape _, isInline_wording (by decide)⟩, isInline_escape _⟩
    rw [← render_wording " (", ← render_append, ← render_append, plainText_render hinline,
      List.flatMap_append, List.flatMap_append, plain_escape, plain_escape, List.append_assoc]
    rfl
  have hlink : render (escape page) ++ " (".toList ++ render (escape sect) =
      render (escape other) ++ " (".toList ++ render (escape part) := by
    have hcancel := (List.cons.inj h).2
    rwa [List.append_left_inj, List.append_assoc _ " (".toList, List.append_assoc _ " (".toList,
      List.append_assoc _ (render (escape page)), List.append_assoc _ (render (escape other)),
      List.append_right_inj, ← List.append_assoc, ← List.append_assoc] at hcancel
  have htext := congrArg plainText hlink
  rw [hread, hread] at htext
  have hcut : Text.cut? (· == ' ') (page ++ ' ' :: '(' :: sect) = some (page, '(' :: sect) :=
    Text.cut?_eq_some_iff.mpr ⟨rfl, hpage⟩
  rw [htext, Text.cut?_eq_some_iff.mpr ⟨rfl, hother⟩] at hcut
  obtain ⟨hname, hsection⟩ := Prod.mk.inj (Option.some.inj hcut)
  exact ⟨hname.symm, (List.cons.inj hsection).2.symm⟩

end Block

/-! ## Lines -/

namespace State

/-- **A line with a reference** writes the note on the page that the reference is taken apart
into. -/
theorem render_feed_note (hblank : ∀ c ∈ target, Text.isBlank c = false ∧ c ≠ '"')
    (hne : target ≠ []) (s : State) :
    render (s.feed (".so ".toList ++ target)).2 =
      noteText target (Block.pointerTarget target).1 (Block.pointerTarget target).2 ++
        render (Block.countdown s).2 := by
  have hpieces : Text.pieces (· == '"') target = [target] :=
    Text.pieces_of_forall fun c hc => beq_false_of_ne (hblank c hc).2
  have hargs : quotedArguments target = [target] := by
    obtain ⟨c, rest, rfl⟩ := List.exists_cons_of_ne_nil hne
    have hfirst : Text.isBlankText (c :: rest) = false := by
      simp [Text.isBlankText, (hblank c List.mem_cons_self).1]
    rw [quotedArguments, hpieces, List.filter_cons_of_pos (by simp [hfirst]), List.filter_nil]
  have htrim : Text.trim target = target := Text.trim_of_forall fun c hc => (hblank c hc).1
  have hrequest : Request.ofName? (splitRequest ('s' :: 'o' :: ' ' :: target)).1 = some .so := rfl
  have hperform : s.perform (control 7) .so (splitRequest ('s' :: 'o' :: ' ' :: target)).2 =
      (s, Block.pointer target) := rfl
  have hline : ".so ".toList ++ target = '.' :: ('s' :: 'o' :: ' ' :: target) := rfl
  have hnote := Block.render_pointer hargs (Prod.eta (Block.pointerTarget (Text.trim target))).symm
  rw [htrim] at hnote
  rw [hline, feed_perform_of_not_ends hrequest rfl hperform, render_append, hnote]

/-- **The note says the name and the section of the page**, each escaped, exactly if there is no
slash in the directory and no period in the name: a second directory is taken for the start of the
name, and what stands behind the first period of the name for the start of the section. -/
theorem render_feed_note_iff
    (hblank : ∀ c ∈ pageFile dir page sect, Text.isBlank c = false ∧ c ≠ '"')
    (hpage : '/' ∉ page) (hsect : '/' ∉ sect) (s : State) :
    render (s.feed (".so ".toList ++ pageFile dir page sect)).2 =
        noteText (pageFile dir page sect) page sect ++ render (Block.countdown s).2 ↔
      (∀ d ∈ dir, '/' ∉ d) ∧ '.' ∉ page := by
  have hne : pageFile dir page sect ≠ [] := by simp [pageFile]
  have hspace : ' ' ∉ pageFile dir page sect := fun hmem => absurd (hblank ' ' hmem).1 (by decide)
  have hname : ' ' ∉ page := fun hmem => hspace (by simp [pageFile, hmem])
  have htaken : ' ' ∉ (Block.pointerTarget (pageFile dir page sect)).1 :=
    fun hmem => hspace ((Block.pointerTarget_subset _).1 hmem)
  rw [render_feed_note hblank hne, List.append_left_inj, Block.noteText_inj htaken hname,
    ← Block.pointerTarget_pageFile_iff hpage hsect, Prod.ext_iff]

/-- A note on a page in a directory, whose name and section hold characters of markup, in the term
of an indent. -/
theorem render_feed_note_directory :
    (∀ c ∈ pageFile (some "man&".toList) "a<b".toList "1>".toList,
        Text.isBlank c = false ∧ c ≠ '"') ∧
      '/' ∉ "a<b".toList ∧ '/' ∉ "1>".toList ∧
      render (State.feed { indent := .term } ".so man&/a<b.1>".toList).2 =
        noteText "man&/a<b.1>".toList "a<b".toList "1>".toList ++ "</dt><dd>".toList := by
  have hblank : ∀ c ∈ pageFile (some "man&".toList) "a<b".toList "1>".toList,
      Text.isBlank c = false ∧ c ≠ '"' := by simp [pageFile, Text.isBlank]
  have hpage : '/' ∉ "a<b".toList := by decide
  have hsect : '/' ∉ "1>".toList := by decide
  have hnote := (render_feed_note_iff hblank hpage hsect { indent := .term }).mpr
    ⟨by decide, by decide⟩
  exact ⟨hblank, hpage, hsect, hnote⟩

/-- A second directory is named as part of the page, and a period ends the name of the page. -/
theorem render_feed_note_ne :
    render (State.feed {} ".so a/b/c.1".toList).2 ≠
        noteText "a/b/c.1".toList "c".toList "1".toList ∧
      render (State.feed {} ".so a/c.d.1".toList).2 ≠
        noteText "a/c.d.1".toList "c.d".toList "1".toList := by
  constructor <;> decide +kernel

end State

end Manpage
