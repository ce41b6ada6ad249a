import Manpage.Proofs.Page.Balance
import Manpage.Proofs.Roff.LastLine

/-!
# Unknown requests

A control line whose request is unknown writes nothing, but it still counts as a line: it takes the
step of a hanging indent from the term to the body, and it is the control line after which the name
of the command starts a line of its own. So a page with its unknown requests is the page without
them, beginning by beginning, exactly if none of them stands in a term and none of them is all that
makes a name start a line.

## Main definitions

* `isUnknownRequest`: control lines whose request is unknown
* `Page.known`: a page without them
* `Page.Unnoticed`: what keeps the unknown requests around a line from being noticed

## Main results

* `State.feed_of_isUnknownRequest`: an unknown request counts as a line
* `render_known_iff`: when unknown requests can be deleted
-/

namespace Manpage

open Markup

/-- Whether a line is a control line whose request is unknown. -/
def isUnknownRequest (line : List Char) : Bool :=
  Inline.isControl line && (Request.ofName? (splitRequest (line.drop 1)).1).isNone

theorem any_isControl_of_any_isUnknownRequest {last : Option (List Char)}
    (h : last.any isUnknownRequest) : last.any Inline.isControl := by
  cases last with
  | none => exact h
  | some line => exact (Bool.and_eq_true_iff.mp h).1

theorem requestsOn_of_isUnknownRequest {line : List Char} (h : isUnknownRequest line) :
    requestsOn line = [] := by
  obtain ⟨hcontrol, hname⟩ := Bool.and_eq_true_iff.mp h
  unfold requestsOn
  split_ifs
  · rfl
  · rw [maxNesting, requestsWithin, requestsBy, Option.isNone_iff_eq_none.mp hname]

/-- **An unknown request counts as a line**: it takes a step of a hanging indent, and is the last
line afterwards. -/
theorem State.feed_of_isUnknownRequest {line : List Char} (h : isUnknownRequest line)
    (hcomment : isComment line = false) (s : State) :
    s.feed line = ((Block.countdown s).1.following (some line), (Block.countdown s).2) := by
  obtain ⟨hcontrol, hname⟩ := Bool.and_eq_true_iff.mp h
  have hset : s.setLine line = (s, []) := by
    rw [setLine, if_pos hcontrol, maxNesting, control]
    simp only [requestLine, Option.isNone_iff_eq_none.mp hname]
  simp only [feed, hcomment, Bool.false_eq_true, if_false, hset, List.nil_append]
  rfl

namespace Page

variable {lines before : List (List Char)} {line : List Char}

/-- Some lines without the unknown requests among them. -/
def known (lines : List (List Char)) : List (List Char) :=
  lines.filter (!isUnknownRequest ·)

/-- What keeps the unknown requests up to `line` from being noticed if they are not before it. -/
structure Unnoticed (before : List (List Char)) (line : List Char) : Prop where
  /-- An unknown request does not stand in the term of a hanging indent. -/
  notInTerm : isUnknownRequest line → isComment line = false → (stateAfter before).indent ≠ .term
  /-- A name after an unknown request would start a line without it too. -/
  startsLine : .nm ∈ requestsOn line → (lastLine before).any isUnknownRequest →
    (lastLine (known before)).any Inline.isControl

/-- Whether a page without its unknown requests has got as far as the page itself, up to what the
last line was. -/
structure Agrees (lines : List (List Char)) : Prop where
  stateAfter_known :
    stateAfter (known lines) = (stateAfter lines).following (lastLine (known lines))
  fragments_known : fragments (known lines) = fragments lines

/-! ## One line more -/

theorem stateAfter_concat (before : List (List Char)) (line : List Char) :
    stateAfter (before ++ [line]) = ((stateAfter before).feed line).1 := by
  rw [stateAfter_append]
  rfl

theorem fragments_concat (before : List (List Char)) (line : List Char) :
    fragments (before ++ [line]) = fragments before ++ ((stateAfter before).feed line).2 := by
  have hline : ((stateAfter before).feedAll [line]).2 = ((stateAfter before).feed line).2 :=
    List.append_nil _
  rw [fragments_append, hline]

theorem known_concat_of_isUnknownRequest (h : isUnknownRequest line) (before : List (List Char)) :
    known (before ++ [line]) = known before := by
  simp [known, h]

theorem known_concat (h : isUnknownRequest line = false) (before : List (List Char)) :
    known (before ++ [line]) = known before ++ [line] := by
  simp [known, h]

/-- The last line stays the last one if it is no unknown request. -/
theorem lastLine_known (h : ¬ (lastLine lines).any isUnknownRequest) :
    lastLine (known lines) = lastLine lines := by
  have hcomm : lastLine (known lines) =
      ((lines.filter (!isComment ·)).filter (!isUnknownRequest ·)).getLast? := by
    rw [lastLine, known, List.filter_comm]
  rw [hcomm]
  rw [lastLine] at h ⊢
  rcases List.eq_nil_or_concat (lines.filter (!isComment ·)) with hnil | ⟨rest, last, hlast⟩
  · rw [hnil]
    rfl
  · rw [hlast] at h ⊢
    simp_all

theorem stateAfter_lastLine (lines : List (List Char)) :
    (stateAfter lines).lastLine = lastLine lines := by
  rw [stateAfter, State.lastLine_feedAll]
  exact Option.or_none

/-- A comment leaves no trace on either page. -/
theorem Agrees.concat_comment (h : Agrees before) (hcomment : isComment line) :
    Agrees (before ++ [line]) := by
  have hfeed : ∀ s : State, s.feed line = (s, []) := State.feed_of_isComment hcomment
  have hlast : lastLine (known (before ++ [line])) = lastLine (known before) := by
    simp [lastLine, known, List.filter_cons, hcomment, apply_ite]
  have hknown : stateAfter (known (before ++ [line])) = stateAfter (known before) ∧
      fragments (known (before ++ [line])) = fragments (known before) := by
    cases hunknown : isUnknownRequest line with
    | true => rw [known_concat_of_isUnknownRequest hunknown]; exact ⟨rfl, rfl⟩
    | false =>
      rw [known_concat hunknown, stateAfter_concat, fragments_concat, hfeed]
      exact ⟨rfl, List.append_nil _⟩
  constructor
  · rw [hknown.1, hlast, stateAfter_concat, hfeed, h.stateAfter_known]
  · rw [hknown.2, fragments_concat, hfeed, h.fragments_known, List.append_nil]

/-- Outside of a term an unknown request changes nothing but the last line. -/
theorem Agrees.concat_unknown (h : Agrees before) (hunknown : isUnknownRequest line)
    (hcomment : isComment line = false) (hterm : (stateAfter before).indent ≠ .term) :
    Agrees (before ++ [line]) := by
  have hrequested : (stateAfter before).indent ≠ .requested :=
    State.indent_feedAll (by decide) before
  have hfeed : (stateAfter before).feed line =
      ((stateAfter before).following (some line), []) := by
    rw [State.feed_of_isUnknownRequest hunknown hcomment, Block.countdown_of_ne hrequested hterm]
  constructor
  · rw [known_concat_of_isUnknownRequest hunknown, stateAfter_concat, hfeed, h.stateAfter_known]
    rfl
  · rw [known_concat_of_isUnknownRequest hunknown, fragments_concat, hfeed, h.fragments_known,
      List.append_nil]

/-- A line that stays is set the same on both pages if a name starts a line on both or on
neither. -/
theorem Agrees.concat_known (h : Agrees before) (hunknown : isUnknownRequest line = false)
    (hcomment : isComment line = false)
    (hbreak : .nm ∈ requestsOn line → (lastLine (known before)).any Inline.isControl =
      (lastLine before).any Inline.isControl) :
    Agrees (before ++ [line]) := by
  have hfeed : ((stateAfter before).following (lastLine (known before))).feed line =
      (stateAfter before).feed line := by
    refine State.feed_following hcomment ?_
    rwa [stateAfter_lastLine]
  constructor
  · rw [← stateAfter_lastLine, known_concat hunknown, stateAfter_concat, stateAfter_concat,
      h.stateAfter_known, hfeed]
    rfl
  · rw [known_concat hunknown, fragments_concat, fragments_concat, h.stateAfter_known, hfeed,
      h.fragments_known]

/-- **Pages agree for one line more** if the line leaves the unknown requests unnoticed. -/
theorem Agrees.concat (h : Agrees before) (hline : Unnoticed before line) :
    Agrees (before ++ [line]) := by
  by_cases hcomment : isComment line
  · exact h.concat_comment hcomment
  rw [Bool.not_eq_true] at hcomment
  by_cases hunknown : isUnknownRequest line
  · exact h.concat_unknown hunknown hcomment (hline.notInTerm hunknown hcomment)
  · refine h.concat_known (Bool.not_eq_true _ ▸ hunknown) hcomment fun hname => ?_
    by_cases hlast : (lastLine before).any isUnknownRequest
    · rw [hline.startsLine hname hlast, any_isControl_of_any_isUnknownRequest hlast]
    · rw [lastLine_known hlast]

theorem Agrees.markup_known (h : Agrees lines) : markup (known lines) = markup lines := by
  rw [markup_eq, markup_eq, h.fragments_known, h.stateAfter_known]
  rfl

/-! ## What is noticed -/

/-- One thing more makes what is written longer. -/
theorem render_ne_of_insert {more : List Fragment} (h : 0 < (render more).length)
    (fs gs : List Fragment) : render (fs ++ gs) ≠ render (fs ++ more ++ gs) := by
  intro heq
  have hlength := congrArg List.length heq
  simp only [render_append, List.length_append] at hlength
  omega

/-- An unknown request in a term ends the term. -/
theorem Agrees.render_known_ne_of_term (h : Agrees before) (hunknown : isUnknownRequest line)
    (hcomment : isComment line = false) (hterm : (stateAfter before).indent = .term) :
    render (markup (known (before ++ [line]))) ≠ render (markup (before ++ [line])) := by
  have hfeed := State.feed_of_isUnknownRequest hunknown hcomment (stateAfter before)
  have hpage : markup (before ++ [line]) = fragments before ++ [.closing .dt, .opening .dd] ++
      (stateAfter before).finish := by
    rw [markup_eq, stateAfter_concat, fragments_concat, hfeed, Block.countdown_of_term hterm]
    rfl
  rw [known_concat_of_isUnknownRequest hunknown, h.markup_known, markup_eq, hpage]
  exact render_ne_of_insert (by decide) _ _

/-- A name after an unknown request starts a line. -/
theorem Agrees.render_known_ne_of_name (h : Agrees before) (hname : .nm ∈ requestsOn line)
    (hlast : (lastLine before).any isUnknownRequest)
    (hbefore : ¬ (lastLine (known before)).any Inline.isControl) :
    render (markup (known (before ++ [line]))) ≠ render (markup (before ++ [line])) := by
  have hunknown : isUnknownRequest line = false := by
    by_contra hunknown
    rw [requestsOn_of_isUnknownRequest (Bool.not_eq_false _ ▸ hunknown)] at hname
    exact List.not_mem_nil hname
  have hcomment : isComment line = false := by
    by_contra hcomment
    rw [requestsOn, if_pos (Bool.not_eq_false _ ▸ hcomment)] at hname
    exact List.not_mem_nil hname
  obtain ⟨first, rest, hfeed⟩ := State.exists_feed_following hcomment (stateAfter before)
  have hbreak : breakAfter (stateAfter before).lastLine = [.lineBreak] := by
    rw [breakAfter, stateAfter_lastLine, if_pos (any_isControl_of_any_isUnknownRequest hlast)]
  have hself : ((stateAfter before).feed line).2 = first ++ [.lineBreak] ++ rest := by
    calc ((stateAfter before).feed line).2
        = (((stateAfter before).following (stateAfter before).lastLine).feed line).2 := rfl
      _ = first ++ [.lineBreak] ++ rest := by rw [hfeed, if_pos hname, hbreak]
  have hpage : markup (before ++ [line]) = fragments before ++ first ++ [.lineBreak] ++
      (rest ++ ((stateAfter before).feed line).1.finish) := by
    rw [markup_eq, stateAfter_concat, fragments_concat, hself]
    simp
  have hknown : markup (known (before ++ [line])) = fragments before ++ first ++
      (rest ++ ((stateAfter before).feed line).1.finish) := by
    rw [markup_eq, known_concat hunknown, stateAfter_concat, fragments_concat, h.stateAfter_known,
      hfeed, if_pos hname, breakAfter, if_neg hbefore, h.fragments_known]
    simp
  rw [hpage, hknown]
  exact render_ne_of_insert (by decide) _ _

/-- A page that goes on the same without its unknown requests has not noticed them. -/
theorem Agrees.unnoticed (h : Agrees before)
    (hrender : render (markup (known (before ++ [line]))) = render (markup (before ++ [line]))) :
    Unnoticed before line where
  notInTerm hunknown hcomment hterm :=
    h.render_known_ne_of_term hunknown hcomment hterm hrender
  startsLine hname hlast := by
    by_contra hbefore
    exact h.render_known_ne_of_name hname hlast hbefore hrender

/-- **Unknown requests can be deleted** from a page and from all its beginnings exactly if each line
leaves them unnoticed. -/
theorem render_known_iff (lines : List (List Char)) :
    (∀ shown, shown <+: lines → render (markup (known shown)) = render (markup shown)) ↔
      ∀ before line, before ++ [line] <+: lines → Unnoticed before line := by
  constructor
  · intro hrender
    -- while the pages agree, what they write tells that the next line leaves them unnoticed
    have hagrees : ∀ before, before <+: lines → Agrees before := by
      intro before
      induction before using List.reverseRecOn with
      | nil => exact fun _ => ⟨rfl, rfl⟩
      | append_singleton before line ih =>
        intro hprefix
        have hbefore := ih ((List.prefix_append before [line]).trans hprefix)
        exact hbefore.concat (hbefore.unnoticed (hrender _ hprefix))
    intro before line hprefix
    exact (hagrees before ((List.prefix_append before [line]).trans hprefix)).unnoticed
      (hrender _ hprefix)
  · intro hunnoticed shown hprefix
    have hagrees : Agrees shown := by
      induction shown using List.reverseRecOn with
      | nil => exact ⟨rfl, rfl⟩
      | append_singleton before line ih =>
        exact (ih ((List.prefix_append before [line]).trans hprefix)).concat
          (hunnoticed before line hprefix)
    rw [hagrees.markup_known]

/-- An unknown request takes the place of a term, and makes a name start a line. -/
theorem render_known_ne :
    render (markup (known [".TP".toList, ".XX".toList, "x".toList])) ≠
        render (markup [".TP".toList, ".XX".toList, "x".toList]) ∧
      render (markup (known ["x".toList, ".XX".toList, ".Nm foo".toList])) ≠
        render (markup ["x".toList, ".XX".toList, ".Nm foo".toList]) := by
  decide +kernel

end Page

end Manpage
