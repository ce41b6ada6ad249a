import Manpage.Proofs.Roff.Calls
import Manpage.Proofs.Roff.Layout
import Manpage.Proofs.Roff.RunningText
import Manpage.Proofs.Text.Lines

/-!
# What requests write

Each request writes content, whatever its argument and the state; a line break occurs in it only
in a preformatted block. Only two requests start sections, and only two write links.

## Main results

* `Block.layout_title`, `Block.layout_sectionHead`, `Block.layout_pointer`, and the others for
  the structure of a page
* `Inline.layout_styled`, `Inline.layout_flags`, `Inline.layout_reference`, and the others for
  words
-/

namespace Manpage

open Markup

variable (s : State) (args : List Char) {newlines : Bool}

/-! ## Requests for the structure of a page -/

namespace Block

theorem layout_title : Layout s.inPreformatted [] [] (title s args).2 := by
  unfold title
  split
  · exact .nil
  · next name _ _ =>
    have hstart : Layout s.inPreformatted [] [] [.pageStart, .opening .h1] :=
      .of_flow (by simp [Fragment.isFlow])
    exact (hstart.append_inline (s.isInline_text name)).append
      (.of_flow (by simp [Fragment.isFlow]))

theorem layout_sectionHead :
    Layout s.inPreformatted (sectionNames s args) [] (sectionHead s args).2 := by
  have hbefore : Layout s.inPreformatted [] [] (if s.inSection then [.divisionEnd] else []) := by
    split_ifs
    · exact .of_flow (by simp [Fragment.isFlow])
    · exact .nil
  unfold sectionHead sectionNames
  cases quotedArguments args with
  | nil => exact hbefore
  | cons name _ =>
    have hhead := Layout.head (s.isInline_argument name) .nil
    rw [List.append_nil] at hhead
    exact hbefore.append hhead

theorem layout_paragraph : Layout newlines [] [] (paragraph s).2 := by
  unfold paragraph
  split_ifs <;> exact .of_flow (by simp [Fragment.isFlow])

theorem layout_pointer : Layout newlines (noteNames args) (noteTargets args) (pointer args) := by
  unfold pointer noteNames noteTargets
  cases quotedArguments args with
  | nil => exact .nil
  | cons first _ =>
    let target := Text.trim first
    let page := (pointerTarget target).1
    let sect := (pointerTarget target).2
    have hlabel : IsInline newlines
        (escape page ++ wording " (" ++ escape sect ++ wording ")") := by
      simp only [isInline_append]
      exact ⟨⟨⟨isInline_escape _, isInline_wording (by decide)⟩, isInline_escape _⟩,
        isInline_wording (by decide)⟩
    have htarget : IsInline newlines (.char '/' :: escape target) :=
      isInline_cons.mpr ⟨rfl, isInline_escape _⟩
    have hend : Layout newlines [] []
        [.anchorEnd, .closing .b, .char '.', .divisionEnd, .divisionEnd] :=
      .of_flow (by simp [Fragment.isFlow, Fragment.isInline, isPlain])
    have hlink := Layout.flow (f := .opening .b) rfl
      (.link htarget (.inline_append hlabel hend))
    have hsee : IsInline newlines (wording " This manpage is a reference to another. See ") :=
      isInline_wording (by decide)
    have hname : IsInline newlines (wording "NOTE") := isInline_wording (by decide)
    have hnote := Layout.flow (f := .pageStart) rfl
      (.head hname (.inline_append hsee hlink))
    simpa [sectionFrame, wording] using hnote

/-! ### Indents -/

theorem layout_listStart : Layout newlines [] [] listStart :=
  .of_flow (by simp [listStart, Fragment.isFlow])

theorem layout_listEnd : Layout newlines [] [] listEnd :=
  .of_flow (by simp [listEnd, Fragment.isFlow])

theorem layout_hanging : Layout s.inPreformatted [] [] (hanging s args).2 := by
  unfold hanging
  split
  · next term _ =>
    have hstart : Layout s.inPreformatted [] [] [.opening .dl, .opening .dt] :=
      .of_flow (by simp [Fragment.isFlow])
    exact (hstart.append_inline (s.isInline_argument term)).append
      (.of_flow (by simp [Fragment.isFlow]))
  · exact layout_listStart

theorem layout_leaveIndent : Layout newlines [] [] (leaveIndent s).2 := by
  unfold leaveIndent
  split_ifs
  · exact layout_listEnd
  · exact .nil

theorem layout_countdown : Layout newlines [] [] (countdown s).2 := by
  unfold countdown
  split <;> exact .of_flow (by simp [Fragment.isFlow])

/-! ### Preformatted blocks and descriptions -/

theorem layout_startPreformatted : Layout newlines [] [] (startPreformatted s).2 :=
  .of_flow (by simp [startPreformatted, Fragment.isFlow])

/-- The text after a preformatted block is not preformatted any more. -/
theorem layout_endPreformatted : Layout false [] [] (endPreformatted s args).2 := by
  have htext := { s with inPreformatted := false }.isInline_argument args
  exact .flow rfl (.flow rfl (.of_inline htext))

theorem layout_description : Layout s.inPreformatted [] [] (description s args).2 :=
  .inline_append (isInline_wording (by decide)) (.of_inline (s.isInline_argument args))

end Block

/-! ## Requests for words -/

namespace Inline

theorem isInline_of_mem_splitWords {text word : List Fragment} (h : IsInline newlines text)
    (hw : word ∈ splitWords text) : IsInline newlines word :=
  fun f hf => h f (Text.mem_of_mem_pieces hw hf)

theorem isInline_of_mem_words {text word : List Fragment} (h : IsInline newlines text)
    (hw : word ∈ words text) : IsInline newlines word :=
  isInline_of_mem_splitWords h (List.mem_filter.mp hw).1

/-- Words of running text, joined by spaces, are running text. -/
theorem isInline_joinWith {ws : List (List Fragment)} (h : ∀ w ∈ ws, IsInline newlines w) :
    IsInline newlines (Text.joinWith [.char ' '] ws) := by
  intro f hf
  rcases Text.mem_joinWith hf with hf | ⟨w, hw, hf⟩
  · rw [List.mem_singleton.mp hf]
    rfl
  · exact h w hw f hf

theorem layout_styled (es : List Element) (hes : ∀ e ∈ es, e = .b ∨ e = .i) :
    Layout s.inPreformatted [] [] (styled es s args).2 := by
  have hopen : IsInline s.inPreformatted (es.map .opening) := by
    intro f hf
    obtain ⟨e, he, rfl⟩ := List.mem_map.mp hf
    rcases hes e he with rfl | rfl <;> rfl
  have hclose : IsInline s.inPreformatted (es.reverse.map .closing) := by
    intro f hf
    obtain ⟨e, he, rfl⟩ := List.mem_map.mp hf
    rcases hes e (List.mem_reverse.mp he) with rfl | rfl <;> rfl
  refine .of_inline ?_
  simp only [styled, isInline_append, isInline_cons]
  exact ⟨⟨⟨⟨rfl, hopen⟩, s.isInline_argument args⟩, hclose⟩, rfl, .nil⟩

theorem layout_boldItalic : Layout s.inPreformatted [] [] (boldItalic s args).2 := by
  unfold boldItalic
  refine .of_inline ?_
  split_ifs with h
  · have hpre : s.inPreformatted := (Bool.and_eq_true_iff.mp h).1
    have hparts : IsInline s.inPreformatted ((quotedArguments args).flatMap escape) := by
      intro f hf
      obtain ⟨part, -, hf⟩ := List.mem_flatMap.mp hf
      exact isInline_escape part f hf
    simp only [isInline_append, isInline_cons]
    exact ⟨⟨⟨rfl, rfl, rfl, .nil⟩, hparts⟩, rfl, rfl, hpre, .nil⟩
  · simp only [isInline_append, isInline_cons]
    exact ⟨⟨⟨rfl, rfl, rfl, .nil⟩, s.isInline_argument args⟩, rfl, rfl, rfl, .nil⟩

/-! ### The synopsis of a command -/

theorem isInline_dashed {word : List Fragment} (h : IsInline newlines word) :
    IsInline newlines (dashed word) := by
  unfold dashed
  split_ifs
  · exact isInline_cons.mpr ⟨rfl, h⟩
  · exact h

theorem layout_flags : Layout s.inPreformatted [] [] (flags s args).2 := by
  refine .of_inline (isInline_cons.mpr ⟨rfl, isInline_joinWith fun w hw => ?_⟩)
  obtain ⟨word, hword, rfl⟩ := List.mem_map.mp hw
  exact isInline_dashed (isInline_of_mem_words (s.isInline_argument args) hword)

theorem isInline_of_mem_optionalWords {dash italic : Bool} {ws : List (List Fragment)}
    (h : ∀ w ∈ ws, IsInline newlines w) :
    ∀ w ∈ optionalWords dash italic ws, IsInline newlines w := by
  induction ws generalizing dash italic with
  | nil => simp [optionalWords]
  | cons word rest ih =>
    obtain ⟨hword, hrest⟩ := List.forall_mem_cons.mp h
    rw [optionalWords]
    dsimp only
    split_ifs
    · exact ih hrest
    · exact ih hrest
    all_goals
      refine List.forall_mem_cons.mpr ⟨?_, ih hrest⟩
      simp [isInline_cons, isInline_append, Fragment.isInline, isPlain, IsInline.nil, hword]

theorem layout_optional : Layout s.inPreformatted [] [] (optional s args).2 := by
  have hwords : IsInline s.inPreformatted (Text.joinWith [.char ' ']
      (optionalWords false false (words (s.argument args).2))) :=
    isInline_joinWith (isInline_of_mem_optionalWords fun w hw =>
      isInline_of_mem_words (s.isInline_argument args) hw)
  refine .of_inline ?_
  simp only [optional, isInline_append, isInline_cons]
  exact ⟨⟨⟨rfl, rfl, .nil⟩, hwords⟩, rfl, .nil⟩

/-! ### The name of the command and references -/

theorem layout_commandName : Layout s.inPreformatted [] [] (commandName s args).2 := by
  have hbreak : Layout s.inPreformatted [] []
      (if s.lastLine.any isControl then [.lineBreak] else []) := by
    split_ifs
    · exact .of_flow (by simp [Fragment.isFlow])
    · exact .nil
  exact hbreak.append (layout_styled _ _ [.b] (by simp))

/-- The section of a reference and what follows it are parts of the word it is read from. -/
theorem subset_of_section? {word sect rest : List Fragment}
    (hs : section? word = some (sect, rest)) : sect ⊆ word ∧ rest ⊆ word := by
  unfold section? at hs
  split at hs
  · obtain ⟨-, rfl, rfl⟩ := by simpa using hs
    exact ⟨by simp, fun f hf => by simp [hf]⟩
  · obtain ⟨-, rfl, rfl⟩ := by simpa using hs
    exact ⟨by simp, fun f hf => by simp [hf]⟩
  · exact absurd hs (by simp)

theorem isInline_of_section? {word sect rest : List Fragment} (h : IsInline newlines word)
    (hs : section? word = some (sect, rest)) :
    IsInline newlines sect ∧ IsInline newlines rest := by
  obtain ⟨hsect, hrest⟩ := subset_of_section? hs
  exact ⟨fun f hf => h f (hsect hf), fun f hf => h f (hrest hf)⟩

theorem layout_pageLink {page sect : List Fragment} (hp : IsInline newlines page)
    (hs : IsInline newlines sect) :
    Layout newlines [] [pageTarget page sect] (pageLink page sect) := by
  have htarget : IsInline newlines (pageTarget page sect) := by
    simp only [pageTarget, isInline_append, isInline_cons]
    exact ⟨⟨⟨⟨⟨isInline_wording (by decide), hs⟩, rfl, .nil⟩, hp⟩, rfl, .nil⟩, hs⟩
  have hlabel : IsInline newlines
      ([.opening .b] ++ page ++ [.closing .b, .char '('] ++ sect ++ [.char ')']) := by
    simp only [isInline_append, isInline_cons]
    exact ⟨⟨⟨⟨⟨rfl, .nil⟩, hp⟩, rfl, rfl, .nil⟩, hs⟩, rfl, .nil⟩
  have hend : Layout newlines [] [] [.anchorEnd] := .of_flow (by simp [Fragment.isFlow])
  simpa [pageLink, pageTarget] using Layout.link htarget (.inline_append hlabel hend)

theorem layout_boldFirst {ws : List (List Fragment)} (h : ∀ w ∈ ws, IsInline newlines w) :
    Layout newlines [] [] (boldFirst ws) := by
  refine .of_inline ?_
  cases ws with
  | nil => simp [boldFirst, isInline_cons, Fragment.isInline, isPlain, IsInline.nil]
  | cons word rest =>
    obtain ⟨hword, hrest⟩ := List.forall_mem_cons.mp h
    have hothers : IsInline newlines (rest.flatMap (.char ' ' :: ·)) := by
      intro f hf
      obtain ⟨w, hw, hf⟩ := List.mem_flatMap.mp hf
      exact isInline_cons.mpr ⟨rfl, hrest w hw⟩ f hf
    simp only [boldFirst, isInline_append, isInline_cons]
    exact ⟨⟨⟨⟨rfl, rfl, .nil⟩, hword⟩, rfl, .nil⟩, hothers⟩

theorem layout_referenceWords {ws : List (List Fragment)} (h : ∀ w ∈ ws, IsInline newlines w) :
    Layout newlines [] (wordTargets ws) (referenceWords ws) := by
  rcases ws with - | ⟨page, - | ⟨sect, - | ⟨third, rest⟩⟩⟩
  · exact layout_boldFirst h
  · exact layout_boldFirst h
  · have hpage := h page List.mem_cons_self
    rw [wordTargets, referenceWords]
    cases hs : section? sect with
    | some found =>
      simp only [Option.toList_some, List.map_cons, List.map_nil]
      obtain ⟨hnumber, hrest⟩ :=
        isInline_of_section? (h sect (List.mem_cons_of_mem _ List.mem_cons_self)) hs
      exact .flow rfl ((layout_pageLink hpage hnumber).append_inline hrest)
    | none =>
      simp only [Option.toList_none, List.map_nil]
      exact layout_boldFirst h
  · exact layout_boldFirst h

theorem layout_reference :
    Layout s.inPreformatted [] (referenceTargets s args) (reference s args).2 := by
  unfold reference referenceTargets
  split_ifs
  · exact .of_flow (by simp [Fragment.isFlow])
  · exact layout_referenceWords fun w hw =>
      isInline_of_mem_splitWords (s.isInline_argument args) hw

end Inline

end Manpage
