import Manpage.Proofs.Page.Markup
import Manpage.Proofs.Roff.Ledger

/-!
# Start tags and end tags

What the start tags of a page are ahead of its end tags, while it is being written. Paragraphs and
sections are what the state says is open. Lists are that too, with the blocks that requests start
and end, but a hanging indent that starts in the term of another one leaves the list of that one
open for good. Fonts are what the state says as long as no name of a section and no page of a
reference changes the font, since these are written more than once.

## Main definitions

* `Page.stateAfter`, `Page.written`: the state and the text of a page after some lines
* `Ledger.lists`, `Ledger.paragraphs`, `Ledger.divisions`, `Ledger.fonts`: what is compared
* `cutsTerm`: the calls that start a hanging indent in the term of another one
* `Page.rewritten`: the changes of the font that a page writes again

## Main results

* `Page.lists_written`: the open lists of a page
* `Page.paragraphs_divisions_written`: the open paragraphs and divisions of a page
* `Page.fonts_written`: the open fonts of a page
-/

namespace Manpage

open Markup

/-! ## What has been written -/

namespace Page

/-- The state after some lines. -/
def stateAfter (lines : List (List Char)) : State :=
  (State.feedAll {} lines).1

/-- The fragments that a page has written after some lines. -/
def fragments (lines : List (List Char)) : List Fragment :=
  start ++ (State.feedAll {} lines).2

/-- **What a page has written** after some lines, before it is finished. -/
def written (lines : List (List Char)) : List Char :=
  render (fragments lines)

/-- A page is what its lines write, and what finishes it. -/
theorem markup_eq (lines : List (List Char)) :
    markup lines = fragments lines ++ (stateAfter lines).finish := rfl

/-- A page goes on from the state that its lines so far have left. -/
theorem stateAfter_append (before lines : List (List Char)) :
    stateAfter (before ++ lines) = ((stateAfter before).feedAll lines).1 := by
  rw [stateAfter, State.feedAll_append]
  rfl

theorem fragments_append (before lines : List (List Char)) :
    fragments (before ++ lines) = fragments before ++ ((stateAfter before).feedAll lines).2 := by
  rw [fragments, State.feedAll_append, ← List.append_assoc]
  rfl

/-- What a page has written stays, and its further lines are written behind it. -/
theorem written_append (before lines : List (List Char)) :
    written (before ++ lines) =
      written before ++ render ((stateAfter before).feedAll lines).2 := by
  rw [written, fragments_append, render_append, written]

theorem isClean_of_mem_fragments {lines : List (List Char)} :
    ∀ f ∈ fragments lines, f.isClean (startsPreformatted lines) :=
  fun f hf => isClean_of_mem_markup f (List.mem_append_left _ hf)

/-- A page keeps a ledger whose tags are not those of the root and the body. -/
theorem tally_fragments {L : Ledger} (hL : L.IsKept) (hstart : tally L.weight start = 0)
    (hbalance : L.balance ({} : State).outline = 0) (lines : List (List Char)) :
    tally L.weight (fragments lines) =
      L.total (stateAfter lines) + ((calls lines).map fun x => L.due x.1 x.2).sum := by
  rw [fragments, tally_append, hstart, hL.tally_feedAll, stateAfter, calls,
    show L.total {} = 0 by rw [Ledger.total, hbalance]; rfl]
  ring

end Page

/-- The lists that a hanging indent has open. -/
def Indent.openLists : Indent → Int
  | .none | .requested => 0
  | .term | .body => 1

namespace Ledger

/-! ## Lists -/

/-- What the lists of requests are charged for: the blocks that they start and end, and a hanging
indent that starts in the term of another one. -/
def listCharge (o : Outline) : Request → Int
  | .bl | .rs => 1
  | .el | .re => -1
  | .tp | .ip => if o.indent = .term then 1 else 0
  | _ => 0

/-- Lists, open while a hanging indent is. -/
def lists : Ledger where
  weight := tagWeight .dl
  balance o := o.indent.openLists
  charge := listCharge

theorem isKept_lists : lists.IsKept where
  isTagWeight := isTagWeight_tagWeight .dl
  item := rfl
  charge_item _ := rfl
  leaveIndent s := by
    unfold Block.leaveIndent
    split_ifs with h
    · simp [lists, State.outline, h, Block.listEnd, tagWeight, Indent.openLists]
    · simp
  charge_leaveIndent s r := by
    unfold Block.leaveIndent
    split_ifs with h
    · cases r <;> simp [lists, listCharge, State.outline, h]
    · rfl
  countdown s := by
    unfold Block.countdown
    split
    · next h => simp [lists, State.outline, h, tagWeight, Indent.openLists]
    · next h => simp [lists, State.outline, h, tagWeight, Indent.openLists]
    · simp
  frame s args r hr hindent := by
    cases r with
    | it => exact absurd rfl hr
    | tp =>
      have hbody : s.indent ≠ .body := hindent rfl
      cases h : s.indent <;>
        simp_all [lists, listCharge, Request.frame, Request.outline, State.outline,
          Indent.openLists]
    | ip =>
      have hbody : s.indent ≠ .body := hindent rfl
      have hframe : tally (tagWeight .dl) (Request.ip.frame s args) = 1 := by
        simp only [Request.frame]
        split_ifs <;> rfl
      cases h : s.indent <;>
        simp_all [lists, listCharge, Request.outline, State.outline, Indent.openLists]
    | th | dt | so | sh | pp | lp | p | sp =>
      simp only [Request.frame]
      split_ifs <;> simp [lists, listCharge, Request.outline, tagWeight]
    | _ =>
      simp [lists, listCharge, Request.outline, tagWeight, Request.frame, Block.listStart,
        Block.listEnd]

/-! ## Paragraphs, divisions and fonts -/

/-- Paragraphs. -/
def paragraphs : Ledger where
  weight := tagWeight .p
  balance o := if o.inParagraph then 1 else 0
  charge _ _ := 0

/-- Divisions: sections, and the divisions of titles, which stay open. -/
def divisions : Ledger where
  weight := divisionWeight
  balance o := if o.inSection then 1 else 0
  charge _ _ := 0

/-- The tags of a font. -/
def fonts (e : Element) : Ledger where
  weight := tagWeight e
  balance _ := 0
  charge _ _ := 0

/-- A ledger in which lists do not count and no charge looks at the indent is kept if the requests
themselves keep it. -/
theorem isKept_of_lists_weightless {L : Ledger} (hw : IsTagWeight L.weight)
    (hlists : ∀ e ∈ [Element.dl, .dt, .dd],
      L.weight (.opening e) = 0 ∧ L.weight (.closing e) = 0)
    (hindent : ∀ o indent, L.balance { o with indent := indent } = L.balance o)
    (hcharge : ∀ o indent r, L.charge { o with indent := indent } r = L.charge o r)
    (hitem : ∀ o, L.charge o .it = 0)
    (hframe : ∀ s args r, tally L.weight (Request.frame s args r) =
      L.balance (r.outline args s.outline) - L.balance s.outline + L.charge s.outline r) :
    L.IsKept := by
  obtain ⟨⟨hdl, hdl'⟩, ⟨hdt, hdt'⟩, ⟨hdd, hdd'⟩⟩ := by simpa using hlists
  have hsame : ∀ (s : State) indent, L.balance { s with indent := indent }.outline =
      L.balance s.outline := fun s indent => hindent s.outline indent
  refine ⟨hw, ?_, hitem, fun s => ?_, fun s r => ?_, fun s => ?_,
    fun s args r _ _ => hframe s args r⟩
  · simp [Block.listStart, Block.listEnd, hdl, hdl', hdd, hdd']
  · unfold Block.leaveIndent
    split_ifs <;> simp [Block.listEnd, hdl', hdd', hsame]
  · unfold Block.leaveIndent
    split_ifs
    · exact hcharge s.outline .none r
    · rfl
  · unfold Block.countdown
    split <;> simp [hdl, hdt, hdt', hdd, hsame]

theorem isKept_paragraphs : paragraphs.IsKept := by
  refine isKept_of_lists_weightless (isTagWeight_tagWeight .p) (by decide) (fun _ _ => rfl)
    (fun _ _ _ => rfl) (fun _ => rfl) fun s args r => ?_
  cases r with
  | pp | lp | p | sp =>
    cases h : s.inParagraph <;>
      simp [paragraphs, Request.frame, Request.outline, State.outline, h, tagWeight]
  | th | dt | so | sh | ip =>
    simp only [Request.frame, Block.listStart]
    split_ifs <;> simp [paragraphs, Request.outline, State.outline, tagWeight]
  | _ =>
    simp [paragraphs, Request.outline, tagWeight, Request.frame, Block.listStart, Block.listEnd]

theorem isKept_divisions : divisions.IsKept := by
  refine isKept_of_lists_weightless isTagWeight_divisionWeight (by decide) (fun _ _ => rfl)
    (fun _ _ _ => rfl) (fun _ => rfl) fun s args r => ?_
  cases r with
  | sh =>
    cases h : s.inSection <;> cases hargs : quotedArguments args <;>
      simp [divisions, Request.frame, Request.outline, State.outline, h, hargs, divisionWeight]
  | th | dt | so | pp | lp | p | sp | ip =>
    simp only [Request.frame, Block.listStart]
    split_ifs <;> simp [divisions, Request.outline, State.outline, divisionWeight]
  | _ =>
    simp [divisions, Request.outline, divisionWeight, Request.frame, Block.listStart,
      Block.listEnd]

theorem isKept_fonts {e : Element} (he : e = .b ∨ e = .i) : (fonts e).IsKept := by
  refine isKept_of_lists_weightless (isTagWeight_tagWeight e) ?_ (fun _ _ => rfl)
    (fun _ _ _ => rfl) (fun _ => rfl) fun s args r => ?_
  · rcases he with rfl | rfl <;> decide
  · rcases he with rfl | rfl
    all_goals
      cases r with
      | th | dt | so | sh | pp | lp | p | sp | ip =>
        simp only [Request.frame, Block.listStart]
        split_ifs <;> rfl
      | _ => rfl

end Ledger

/-! ## The lists of a page -/

/-- The requests that start a block in a list. -/
def Request.startsBlock : Request → Bool
  | .bl | .rs => true
  | _ => false

/-- The requests that end a block in a list. -/
def Request.endsBlock : Request → Bool
  | .el | .re => true
  | _ => false

/-- Whether a call starts a hanging indent in the term of another one. -/
def cutsTerm (x : State × Call) : Bool :=
  x.1.indent = .term && (x.2.request = .tp || x.2.request = .ip)

theorem Ledger.sum_due_lists (xs : List (State × Call)) :
    (xs.map fun x => lists.due x.1 x.2).sum =
      (xs.countP (·.2.request.startsBlock) : Int) - xs.countP (·.2.request.endsBlock) +
        xs.countP cutsTerm := by
  have hfont : ∀ f : Font, f.weight lists.weight = 0 := fun f => by cases f <;> rfl
  induction xs with
  | nil => rfl
  | cons x xs ih =>
    have hcharge : lists.due x.1 x.2 = (if x.2.request.startsBlock then 1 else 0) -
        (if x.2.request.endsBlock then 1 else 0) + (if cutsTerm x then 1 else 0) := by
      obtain ⟨s, r, args⟩ := x
      rw [due, Font.changes_eq_zero hfont, Int.add_zero]
      cases r <;>
        simp [lists, listCharge, Request.startsBlock, Request.endsBlock, cutsTerm, State.outline]
    rw [List.map_cons, List.sum_cons, ih, hcharge, List.countP_cons, List.countP_cons,
      List.countP_cons]
    push_cast
    ring

namespace Page

/-- The blocks that the requests of some lines start, less those that they end. -/
def blocks (lines : List (List Char)) : Int :=
  ((lines.flatMap requestsOn).countP Request.startsBlock : Int) -
    (lines.flatMap requestsOn).countP Request.endsBlock

theorem surplus_lists (lines : List (List Char)) :
    (occurrences "<dl>" (written lines) : Int) - occurrences "</dl>" (written lines) =
      blocks lines + (stateAfter lines).indent.openLists + (calls lines).countP cutsTerm := by
  have hfont : (stateAfter lines).font.weight Ledger.lists.weight = 0 := by
    cases (stateAfter lines).font <;> rfl
  rw [written, surplus_tag (e := .dl) rfl rfl isClean_of_mem_fragments]
  have htally := tally_fragments Ledger.isKept_lists rfl rfl lines
  rw [Ledger.sum_due_lists, Ledger.total, hfont] at htally
  rw [blocks, ← State.map_request_performed {} lines, List.countP_map, List.countP_map]
  refine htally.trans ?_
  simp only [Ledger.lists, State.outline, calls, Function.comp_def]
  ring

/-- **The open lists of a page** are the blocks that requests have started and not ended, and the
list of the hanging indent that is open, with one more for each hanging indent that starts in the
term of another one. -/
theorem lists_written (lines : List (List Char)) :
    (occurrences "<dl>" (written lines) : Int) - occurrences "</dl>" (written lines) =
        blocks lines + (stateAfter lines).indent.openLists + (calls lines).countP cutsTerm ∧
      ((occurrences "<dl>" (written lines) : Int) - occurrences "</dl>" (written lines) =
          blocks lines + (stateAfter lines).indent.openLists ↔
        ∀ x ∈ calls lines, ¬ cutsTerm x) ∧
      (stateAfter lines).indent ≠ .requested := by
  have hsurplus := surplus_lists lines
  refine ⟨hsurplus, ?_, State.indent_feedAll (by decide) lines⟩
  rw [hsurplus, ← List.countP_eq_zero]
  omega

/-- A hanging indent that starts in the term of another one leaves a list open. -/
theorem lists_written_term_in_term :
    ¬ ((occurrences "<dl>" (written [".TP".toList, ".TP".toList]) : Int) -
        occurrences "</dl>" (written [".TP".toList, ".TP".toList]) =
      blocks [".TP".toList, ".TP".toList] +
        (stateAfter [".TP".toList, ".TP".toList]).indent.openLists) := by
  decide +kernel

/-! ## The paragraphs and divisions of a page -/

/-- Where neither requests nor fonts count, what is written is what is open. -/
theorem tally_fragments_of_uncharged {L : Ledger} (hL : L.IsKept)
    (hstart : tally L.weight start = 0) (hbalance : L.balance ({} : State).outline = 0)
    (hcharge : ∀ o r, L.charge o r = 0) (hfont : ∀ f : Font, f.weight L.weight = 0)
    (lines : List (List Char)) :
    tally L.weight (fragments lines) = L.balance (stateAfter lines).outline := by
  have hdue : ((calls lines).map fun x => L.due x.1 x.2).sum = 0 := by
    refine List.sum_eq_zero fun n hn => ?_
    obtain ⟨x, -, rfl⟩ := List.mem_map.mp hn
    rw [Ledger.due, hcharge, Font.changes_eq_zero hfont, Int.add_zero]
  rw [tally_fragments hL hstart hbalance, hdue, Ledger.total, hfont, Int.add_zero, Int.add_zero]

theorem tally_paragraphs (lines : List (List Char)) :
    tally (tagWeight .p) (fragments lines) = if (stateAfter lines).inParagraph then 1 else 0 :=
  tally_fragments_of_uncharged Ledger.isKept_paragraphs rfl rfl (fun _ _ => rfl)
    (fun f => by cases f <;> rfl) lines

theorem tally_divisions (lines : List (List Char)) :
    tally divisionWeight (fragments lines) = if (stateAfter lines).inSection then 1 else 0 :=
  tally_fragments_of_uncharged Ledger.isKept_divisions rfl rfl (fun _ _ => rfl)
    (fun f => by cases f <;> rfl) lines

/-- A page that is finished has closed its paragraphs. -/
theorem tally_paragraphs_markup (lines : List (List Char)) :
    tally (tagWeight .p) (markup lines) = 0 := by
  rw [markup_eq, tally_append, tally_paragraphs, State.finish]
  split_ifs <;> rfl

/-- **The open paragraphs and divisions of a page** are those that the state says are open, with the
divisions of titles. A page that is finished has as many start tags of paragraphs as end tags. -/
theorem paragraphs_divisions_written (lines : List (List Char)) :
    ((occurrences "<p>" (written lines) : Int) - occurrences "</p>" (written lines) =
        if (stateAfter lines).inParagraph then 1 else 0) ∧
      ((occurrences "<div" (written lines) : Int) - occurrences "</div>" (written lines) =
        occurrences "<h1>" (written lines) + if (stateAfter lines).inSection then 1 else 0) ∧
      occurrences "<p>" (render (markup lines)) = occurrences "</p>" (render (markup lines)) := by
  have hdivisions : (occurrences "<div" (written lines) : Int) -
      occurrences "</div>" (written lines) - occurrences "<h1>" (written lines) =
        tally divisionWeight (fragments lines) :=
    surplus_division isClean_of_mem_fragments
  have hfinished : (occurrences "<p>" (render (markup lines)) : Int) -
      occurrences "</p>" (render (markup lines)) = tally (tagWeight .p) (markup lines) :=
    surplus_tag rfl rfl isClean_of_mem_markup
  rw [tally_divisions] at hdivisions
  rw [tally_paragraphs_markup] at hfinished
  refine ⟨?_, ?_, ?_⟩
  · rw [written, surplus_tag (e := .p) rfl rfl isClean_of_mem_fragments, tally_paragraphs]
  · omega
  · omega

/-! ## The fonts of a page -/

/-- The changes of the font that a page writes again. -/
def rewritten (lines : List (List Char)) : List (Font × Font) :=
  (calls lines).flatMap fun x => x.2.request.rewrites x.1 x.2.args

/-- How many of the changes that a page writes again lead into a font, less those that lead out of
it. -/
def rewrittenInto (lines : List (List Char)) (f : Font) : Int :=
  ((rewritten lines).countP (·.2 = f) : Int) - (rewritten lines).countP (·.1 = f)

theorem sum_due_fonts (e : Element) (xs : List (State × Call)) :
    (xs.map fun x => (Ledger.fonts e).due x.1 x.2).sum =
      Font.changes (tagWeight e) (xs.flatMap fun x => x.2.request.rewrites x.1 x.2.args) := by
  induction xs with
  | nil => rfl
  | cons x xs ih =>
    rw [List.map_cons, List.sum_cons, ih, List.flatMap_cons, Font.changes, Font.changes,
      List.map_append, List.sum_append, Ledger.due]
    exact congrArg (· + _) (Int.zero_add _)

theorem tally_fonts {e : Element} (he : e = .b ∨ e = .i) {f : Font}
    (hweight : ∀ g : Font, g.weight (tagWeight e) = if g = f then 1 else 0)
    (lines : List (List Char)) :
    tally (tagWeight e) (fragments lines) =
      (if (stateAfter lines).font = f then 1 else 0) + rewrittenInto lines f := by
  have hstart : tally (Ledger.fonts e).weight start = 0 := by rcases he with rfl | rfl <;> rfl
  have htally := tally_fragments (Ledger.isKept_fonts he) hstart rfl lines
  rw [sum_due_fonts, Font.changes_eq_countP_sub hweight, Ledger.total] at htally
  rw [rewrittenInto, rewritten, ← hweight]
  exact htally.trans (congrArg (· + _) (Int.zero_add _))

/-- **The open fonts of a page** are the font that the state says, with the changes of the font that
are written again. So while the font is the roman one, its tags are balanced exactly if as many of
these changes lead into each font as out of it. -/
theorem fonts_written (lines : List (List Char)) :
    ((occurrences "<b>" (written lines) : Int) - occurrences "</b>" (written lines) =
        (if (stateAfter lines).font = .bold then 1 else 0) + rewrittenInto lines .bold) ∧
      ((occurrences "<i>" (written lines) : Int) - occurrences "</i>" (written lines) =
        (if (stateAfter lines).font = .italic then 1 else 0) + rewrittenInto lines .italic) ∧
      ((stateAfter lines).font = .roman →
        ((occurrences "<b>" (written lines) = occurrences "</b>" (written lines) ∧
            occurrences "<i>" (written lines) = occurrences "</i>" (written lines)) ↔
          rewrittenInto lines .bold = 0 ∧ rewrittenInto lines .italic = 0)) := by
  have hbold : (occurrences "<b>" (written lines) : Int) - occurrences "</b>" (written lines) =
      (if (stateAfter lines).font = .bold then 1 else 0) + rewrittenInto lines .bold :=
    (surplus_tag (e := .b) rfl rfl isClean_of_mem_fragments).trans
      (tally_fonts (.inl rfl) (fun g => by cases g <;> rfl) lines)
  have hitalic : (occurrences "<i>" (written lines) : Int) - occurrences "</i>" (written lines) =
      (if (stateAfter lines).font = .italic then 1 else 0) + rewrittenInto lines .italic :=
    (surplus_tag (e := .i) rfl rfl isClean_of_mem_fragments).trans
      (tally_fonts (.inr rfl) (fun g => by cases g <;> rfl) lines)
  refine ⟨hbold, hitalic, fun hroman => ?_⟩
  rw [hroman, if_neg Font.noConfusion] at hbold hitalic
  omega

/-- A font that the name of a section leaves open is opened three times, and closed once. -/
theorem fonts_written_open_header :
    (stateAfter [".SH \\fBx".toList, "\\fR".toList]).font = .roman ∧
      occurrences "<b>" (written [".SH \\fBx".toList, "\\fR".toList]) ≠
        occurrences "</b>" (written [".SH \\fBx".toList, "\\fR".toList]) := by
  decide +kernel

/-- A font that a line of text leaves open is closed by a later line. -/
theorem fonts_written_across_lines :
    (stateAfter ["\\fBx".toList, "\\fR".toList]).font = .roman ∧
      ((occurrences "<b>" (written ["\\fBx".toList, "\\fR".toList]) =
            occurrences "</b>" (written ["\\fBx".toList, "\\fR".toList]) ∧
          occurrences "<i>" (written ["\\fBx".toList, "\\fR".toList]) =
            occurrences "</i>" (written ["\\fBx".toList, "\\fR".toList])) ↔
        rewrittenInto ["\\fBx".toList, "\\fR".toList] .bold = 0 ∧
          rewrittenInto ["\\fBx".toList, "\\fR".toList] .italic = 0) := by
  have hroman : (stateAfter ["\\fBx".toList, "\\fR".toList]).font = .roman := by decide +kernel
  exact ⟨hroman, (fonts_written _).2.2 hroman⟩

end Page

end Manpage
