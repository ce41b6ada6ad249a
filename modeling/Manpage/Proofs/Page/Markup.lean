import Manpage.Page
import Manpage.Proofs.Markup.Rendered
import Manpage.Proofs.Roff.Lines
import Mathlib.Data.List.Basic

/-!
# The markup of a page

A page is the start tags of the root and the body, content, and their end tags. So whatever a page
says, its HTML holds no markup but the library's own.

## Main definitions

* `Page.sections`, `Page.targets`: the sections of a page and its links to other pages
* `Page.IsSafe`: HTML whose markup is the library's own

## Main results

* `Page.exists_layout_markup`, `Page.exists_content_markup`: the fragments of a page
* `Page.rawHtml_isSafe`: the HTML of every page is safe
-/

namespace Manpage.Page

open Markup

/-- Whether one of the lines starts a preformatted block. -/
def startsPreformatted (lines : List (List Char)) : Bool :=
  lines.any (requestsOn · |>.contains .nf)

/-- The calls of a page, each with the state before its line. -/
def calls (lines : List (List Char)) : List (State × Call) :=
  State.performed {} lines

/-- The names of the sections of a page, as they are written. -/
def sections (lines : List (List Char)) : List (List Fragment) :=
  (calls lines).flatMap fun x => x.2.sections x.1

/-- The targets of the links of a page to other pages, as they are written. -/
def targets (lines : List (List Char)) : List (List Fragment) :=
  (calls lines).flatMap fun x => x.2.targets x.1

/-- **The layout of a page**: its sections and its links to other pages between the tags of the root
and the body. -/
theorem exists_layout_markup (lines : List (List Char)) :
    ∃ content, Layout (startsPreformatted lines) (sections lines) (targets lines) content ∧
      markup lines = start ++ content ++ [.closing .body, .closing .html] := by
  have hlines := State.layout_feedAll {} lines
  rw [show ({} : State).inPreformatted = false from rfl, Bool.false_or] at hlines
  have hend : Layout (startsPreformatted lines) [] []
      (if (State.feedAll {} lines).1.inParagraph then [.closing .p] else []) := by
    split_ifs
    · exact .of_flow (by simp [Fragment.isFlow])
    · exact .nil
  have hcontent := hlines.append hend
  rw [List.append_nil, List.append_nil] at hcontent
  exact ⟨_, hcontent, by simp [markup, State.finish]⟩

/-- **The fragments of a page**: content between the tags of the root and the body. -/
theorem exists_content_markup (lines : List (List Char)) :
    ∃ content, Content (startsPreformatted lines) content ∧
      markup lines = start ++ content ++ [.closing .body, .closing .html] := by
  obtain ⟨content, hlayout, hmarkup⟩ := exists_layout_markup lines
  exact ⟨content, hlayout.content, hmarkup⟩

theorem isClean_of_mem_markup {lines : List (List Char)} :
    ∀ f ∈ markup lines, f.isClean (startsPreformatted lines) := by
  obtain ⟨content, hcontent, hmarkup⟩ := exists_content_markup lines
  have hclean : ∀ f ∈ content, f.isClean (startsPreformatted lines) :=
    hcontent.forall_mem (fun f => Fragment.isClean_of_isFlow) (by simp [Fragment.isClean])
  rw [hmarkup]
  simp only [List.forall_mem_append]
  exact ⟨⟨by simp [start, Fragment.isClean], hclean⟩, by simp [Fragment.isClean]⟩

/-- The tags of the root and the body do not occur in content. -/
theorem not_mem_content {newlines : Bool} {content : List Fragment}
    (h : Content newlines content) :
    .opening .html ∉ content ∧ .closing .body ∉ content := by
  have apart := h.forall_mem (p := fun f => f ≠ .opening .html ∧ f ≠ .closing .body)
    (fun f hf => ⟨by rintro rfl; exact absurd hf Bool.false_ne_true,
      by rintro rfl; exact absurd hf Bool.false_ne_true⟩) (by simp)
  exact ⟨fun hmem => (apart _ hmem).1 rfl, fun hmem => (apart _ hmem).2 rfl⟩

/-! ## The ends of a page -/

section Ends

variable {newlines : Bool} {f : Fragment} {rest after : List Char}

theorem eq_opening_html (hf : f.isClean newlines)
    (h : f.chars ++ rest = '<' :: ("html><body>".toList ++ after)) : f = .opening .html := by
  cases f with
  | char c =>
    obtain rfl : c = '<' := (List.cons.inj h).1
    exact absurd (show isPlain '<' from hf) (by decide)
  | opening e => cases e <;> simp_all [Fragment.chars, Element.name]
  | closing e => simp [Fragment.chars] at h
  | _ => simp [Fragment.chars] at h

theorem eq_closing_body (hf : f.isClean newlines)
    (h : f.chars ++ rest = '<' :: ("/body></html>".toList ++ after)) : f = .closing .body := by
  cases f with
  | char c =>
    obtain rfl : c = '<' := (List.cons.inj h).1
    exact absurd (show isPlain '<' from hf) (by decide)
  | opening e => cases e <;> simp [Fragment.chars, Element.name] at h
  | closing e => cases e <;> simp_all [Fragment.chars, Element.name]
  | _ => simp [Fragment.chars] at h

variable {lines : List (List Char)} {before : List Char}

/-- The start tags of the root and the body stand only at the start. -/
theorem before_eq_nil (h : render (markup lines) = before ++ "<html><body>".toList ++ after) :
    before = [] := by
  replace h : render (markup lines) = before ++ '<' :: ("html><body>".toList ++ after) := by
    simpa using h
  obtain ⟨left, f, right, hmarkup, rfl, -, hafter⟩ :=
    exists_fragment_of_render_eq (fun f _ => f.not_mem_tail_chars.1) h
  have hmem : f ∈ markup lines := hmarkup ▸ List.mem_append_right _ List.mem_cons_self
  obtain rfl := eq_opening_html (isClean_of_mem_markup f hmem) hafter.symm
  obtain ⟨content, hcontent, hpage⟩ := exists_content_markup lines
  have honce : .opening .html ∉
      .opening .body :: (content ++ [.closing .body, .closing .html]) := by
    simp [(not_mem_content hcontent).1]
  rw [hpage, start, List.append_assoc] at hmarkup
  have hsame : [] ++ .opening .html ::
      .opening .body :: (content ++ [.closing .body, .closing .html]) =
      left ++ .opening .html :: right := hmarkup
  obtain ⟨rfl, -⟩ :=
    (List.append_cons_inj_of_notMem List.not_mem_nil honce).mp hsame
  rfl

/-- The end tags of the body and the root stand only at the end. -/
theorem after_eq_nil (h : render (markup lines) = before ++ "</body></html>".toList ++ after) :
    after = [] := by
  replace h : render (markup lines) = before ++ '<' :: ("/body></html>".toList ++ after) := by
    simpa using h
  obtain ⟨left, f, right, hmarkup, rfl, -, hafter⟩ :=
    exists_fragment_of_render_eq (fun f _ => f.not_mem_tail_chars.1) h
  have hmem : f ∈ markup lines := hmarkup ▸ List.mem_append_right _ List.mem_cons_self
  obtain rfl := eq_closing_body (isClean_of_mem_markup f hmem) hafter.symm
  obtain ⟨content, hcontent, hpage⟩ := exists_content_markup lines
  have honce : .closing .body ∉ start ++ content := by
    simp [start, (not_mem_content hcontent).2]
  rw [hpage] at hmarkup
  obtain ⟨-, -, rfl⟩ :=
    (List.append_cons_inj_of_notMem honce (by simp)).mp hmarkup
  simpa [Fragment.chars, Element.name] using hafter

end Ends

/-! ## Safety -/

/-- HTML whose markup is the library's own; there can be line breaks if there are `newlines`. -/
structure IsSafe (newlines : Prop) (html : List Char) : Prop where
  /-- All characters are printable ASCII, line breaks apart. -/
  printable : ∀ c ∈ html, (' ' ≤ c ∧ c ≤ '~') ∨ (c = '\n' ∧ newlines)
  /-- Every `&` starts a reference. -/
  reference : ∀ before after, html = before ++ '&' :: after →
    ∃ r, IsReference r ∧ r <+: '&' :: after
  /-- Every `<` starts own markup. -/
  markup : ∀ before after, html = before ++ '<' :: after →
    ∃ m ∈ ownMarkup, m.toList <+: '<' :: after
  /-- The HTML is put together from plain characters, line breaks, references and own markup. -/
  pieces : ∃ ps : List (List Char), html = ps.flatten ∧ ∀ p ∈ ps,
    (∃ c, isPlain c ∧ p = [c]) ∨ p = ['\n'] ∨ IsReference p ∨
      ∃ m ∈ ownMarkup ++ valueEnds, m.toList = p
  /-- The start tags of the root and the body come first. -/
  start : "<html><body>".toList <+: html
  /-- These start tags do not come again. -/
  start_once : ∀ before after, html = before ++ "<html><body>".toList ++ after → before = []
  /-- The end tags of the body and the root come last. -/
  finish : "</body></html>".toList <:+ html
  /-- These end tags do not come before. -/
  finish_once : ∀ before after, html = before ++ "</body></html>".toList ++ after → after = []

/-- **No page brings markup of its own**: the HTML of every page is safe, and it has line breaks
only if a line of the page starts a preformatted block. -/
theorem rawHtml_isSafe (text : List Char) :
    IsSafe (∃ line ∈ logicalLines text, .nf ∈ requestsOn line) (rawHtml text) := by
  have hnewlines : startsPreformatted (logicalLines text) = true ↔
      ∃ line ∈ logicalLines text, Request.nf ∈ requestsOn line := by
    simp [startsPreformatted]
  obtain ⟨content, -, hpage⟩ := exists_content_markup (logicalLines text)
  have hclean : ∀ f ∈ markup (logicalLines text),
      f.isClean (startsPreformatted (logicalLines text)) := isClean_of_mem_markup
  refine ⟨fun c hc => ?_, fun _ _ h => isReference_of_render_eq hclean h,
    fun _ _ h => ownMarkup_of_render_eq hclean h, ?_, ?_, fun _ _ h => before_eq_nil h, ?_,
    fun _ _ h => after_eq_nil h⟩
  · rw [← hnewlines]
    exact printable_of_mem_render hclean hc
  · refine ⟨(markup (logicalLines text)).map Fragment.chars, rfl, fun p hp => ?_⟩
    obtain ⟨f, hf, rfl⟩ := List.mem_map.mp hp
    exact Fragment.chars_cases (hclean f hf)
  · rw [rawHtml, hpage, start]
    exact ⟨render (content ++ [.closing .body, .closing .html]), by
      simp [Fragment.chars, Element.name]⟩
  · rw [rawHtml, hpage]
    exact ⟨render (Page.start ++ content), by simp [Fragment.chars, Element.name]⟩

end Manpage.Page
