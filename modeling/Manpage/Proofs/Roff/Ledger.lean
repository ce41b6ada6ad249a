import Manpage.Proofs.Roff.Lines
import Manpage.Proofs.Roff.Weights

/-!
# Ledgers of a page

A ledger compares the tags that a page has written with what its state says is open. Each line keeps
it: the tags that the line writes are the change of the balance, with what the requests on the line
are charged for. So a run of lines keeps it too, and the charges of the run add up.

## Main definitions

* `Outline`: what is open on a page
* `Ledger`: tags, what is open, and what requests are charged for

## Main results

* `map_request_callsOn`: the requests of a line
* `State.outline_perform`: what a request opens and closes
* `Ledger.IsKept.tally_feed`: one line keeps a ledger
* `Ledger.IsKept.tally_feedAll`: a run of lines keeps a ledger
-/

namespace Manpage

open Markup

/-! ## Calls -/

theorem Request.map_request_calls {nested : List Char → List Call}
    {requests : List Char → List Request}
    (h : ∀ args, (nested args).map (·.request) = requests args) (args : List Char) (r : Request) :
    (r.calls nested args).map (·.request) = r.andNested requests args := by
  cases r with
  | it => simp [Request.calls, Request.andNested, h]
  | _ => rfl

theorem map_request_callsBy {nested : List Char → List Call}
    {requests : List Char → List Request}
    (h : ∀ args, (nested args).map (·.request) = requests args) (body : List Char) :
    (callsBy nested body).map (·.request) = requestsBy requests body := by
  unfold callsBy requestsBy
  cases Request.ofName? (splitRequest body).1 with
  | none => rfl
  | some r => exact r.map_request_calls h _

theorem map_request_callsWithin (depth : Nat) (body : List Char) :
    (callsWithin depth body).map (·.request) = requestsWithin depth body := by
  induction depth generalizing body with
  | zero => exact map_request_callsBy (fun _ => rfl) body
  | succ depth ih => exact map_request_callsBy ih body

/-- The requests of a line are those of its calls. -/
theorem map_request_callsOn (line : List Char) :
    (callsOn line).map (·.request) = requestsOn line := by
  unfold callsOn requestsOn
  split_ifs
  · rfl
  · exact map_request_callsWithin _ _
  · rfl

theorem State.map_request_performed (s : State) (lines : List (List Char)) :
    (s.performed lines).map (·.2.request) = lines.flatMap requestsOn := by
  induction lines generalizing s with
  | nil => rfl
  | cons line lines ih =>
    rw [performed, List.map_append, ih, List.map_map, List.flatMap_cons, ← map_request_callsOn]
    rfl

/-! ## Outlines -/

/-- What is open on a page. -/
structure Outline where
  inParagraph : Bool
  inSection : Bool
  inPreformatted : Bool
  indent : Indent

namespace State

/-- What is open in a state. -/
def outline (s : State) : Outline :=
  ⟨s.inParagraph, s.inSection, s.inPreformatted, s.indent⟩

end State

/-- What is open after a request that makes no other one, where `o` was open before it. -/
def Request.outline (args : List Char) (o : Outline) : Request → Outline
  | .sh => { o with inSection := !(quotedArguments args).isEmpty }
  | .pp | .lp | .p | .sp => { o with inParagraph := true }
  | .tp => { o with indent := .requested }
  | .ip => { o with indent := .body }
  | .nf => { o with inPreformatted := true }
  | .fi => { o with inPreformatted := false }
  | _ => o

/-- **What a request opens and closes**, unless it makes another one. -/
theorem State.outline_perform {nested : List Char → State → State × List Fragment} (s : State)
    {r : Request} (hr : r ≠ .it) (args : List Char) :
    (s.perform nested r args).1.outline = r.outline args s.outline := by
  cases r with
  | it => exact absurd rfl hr
  | th | dt =>
    simp only [perform, Block.title]
    cases quotedArguments args <;> rfl
  | sh =>
    simp only [perform, Block.sectionHead, Request.outline]
    cases quotedArguments args <;> rfl
  | ip =>
    simp only [perform, Block.hanging]
    cases Block.term? args <;> rfl
  | bi =>
    simp only [perform, Inline.boldItalic]
    split_ifs <;> rfl
  | br =>
    simp only [perform, Inline.reference]
    split_ifs <;> rfl
  | _ => rfl

theorem Block.indent_countdown (s : State) : (Block.countdown s).1.indent ≠ .requested := by
  unfold countdown
  split
  · exact Indent.noConfusion
  · exact Indent.noConfusion
  · next h _ => exact h

/-- Between two lines no hanging indent waits for its term. -/
theorem State.indent_feedAll {s : State} (h : s.indent ≠ .requested) (lines : List (List Char)) :
    (s.feedAll lines).1.indent ≠ .requested := by
  induction lines generalizing s with
  | nil => exact h
  | cons line lines ih =>
    have hline : (s.feed line).1.indent ≠ .requested := by
      unfold feed
      split_ifs
      · exact h
      · exact Block.indent_countdown _
    exact ih hline

/-! ## Ledgers -/

/-- A ledger: what tags count for, what an outline says is open, and what a request is charged for,
by the outline before it. -/
structure Ledger where
  weight : Fragment → Int
  balance : Outline → Int
  charge : Outline → Request → Int

namespace Ledger

variable {L : Ledger} {nested : List Char → State → State × List Fragment}
  {calls : List Char → List Call}

/-- What is open in a state, the font included. -/
def total (L : Ledger) (s : State) : Int :=
  L.balance s.outline + s.font.weight L.weight

/-- What a call is charged for, in the state before its line: the request, and the changes of the
font that it writes again. -/
def due (L : Ledger) (s : State) (c : Call) : Int :=
  L.charge s.outline c.request + Font.changes L.weight (c.request.rewrites s c.args)

/-- The ledgers that pages keep: what is written is what is opened, step by step. -/
structure IsKept (L : Ledger) : Prop where
  isTagWeight : IsTagWeight L.weight
  /-- The list around an item is opened and closed. -/
  item : tally L.weight Block.listStart + tally L.weight Block.listEnd = 0
  charge_item : ∀ o, L.charge o .it = 0
  leaveIndent : ∀ s, tally L.weight (Block.leaveIndent s).2 =
    L.balance (Block.leaveIndent s).1.outline - L.balance s.outline
  /-- The indent that a request ends is not what it is charged for. -/
  charge_leaveIndent : ∀ s r, L.charge (Block.leaveIndent s).1.outline r = L.charge s.outline r
  countdown : ∀ s, tally L.weight (Block.countdown s).2 =
    L.balance (Block.countdown s).1.outline - L.balance s.outline
  frame : ∀ s args r, r ≠ .it → (r.endsIndent → s.indent ≠ .body) →
    tally L.weight (r.frame s args) =
      L.balance (r.outline args s.outline) - L.balance s.outline + L.charge s.outline r

/-- Whether a ledger is kept by `nested`, which makes the `calls` in its argument. -/
def Keeps (L : Ledger) (nested : List Char → State → State × List Fragment)
    (calls : List Char → List Call) : Prop :=
  ∀ args s, tally L.weight (nested args s).2 =
    L.total (nested args s).1 - L.total s + ((calls args).map (L.due s)).sum

namespace IsKept

/-- The step before a request leaves the font and what is written again. -/
theorem due_leaveIndent (hL : L.IsKept) (s : State) (c : Call) :
    L.due (Block.leaveIndent s).1 c = L.due s c := by
  have hrewrites : c.request.rewrites (Block.leaveIndent s).1 c.args =
      c.request.rewrites s c.args := by
    unfold Block.leaveIndent
    split_ifs
    · rfl
    · rfl
  rw [due, due, hL.charge_leaveIndent, hrewrites]

theorem tally_perform (hL : L.IsKept) {s : State} {r : Request} (hr : r ≠ .it)
    (hindent : r.endsIndent → s.indent ≠ .body) (args : List Char) :
    tally L.weight (s.perform nested r args).2 =
      L.total (s.perform nested r args).1 - L.total s + L.due s ⟨r, args⟩ := by
  have hframe := hL.frame s args r hr hindent
  rw [← @State.outline_perform nested s r hr args] at hframe
  rw [s.tally_perform hL.isTagWeight hr args, hframe, total, total, due]
  ring

/-- A request is charged for what it writes beyond what it opens, the indent that it ends
included. -/
theorem tally_request (hL : L.IsKept) {s : State} {r : Request} (hr : r ≠ .it) (args : List Char) :
    tally L.weight (s.request nested r args).2 =
      L.total (s.request nested r args).1 - L.total s + L.due s ⟨r, args⟩ := by
  unfold State.request
  split_ifs with hends
  · have hbody : (Block.leaveIndent s).1.indent ≠ .body := by
      unfold Block.leaveIndent
      split_ifs with h
      · exact Indent.noConfusion
      · exact h
    have hleave : tally L.weight (Block.leaveIndent s).2 =
        L.total (Block.leaveIndent s).1 - L.total s := by
      rw [hL.leaveIndent, total, total, Block.font_leaveIndent]
      ring
    have hperform : tally L.weight ((Block.leaveIndent s).1.perform nested r args).2 =
        L.total ((Block.leaveIndent s).1.perform nested r args).1 -
          L.total (Block.leaveIndent s).1 + L.due (Block.leaveIndent s).1 ⟨r, args⟩ :=
      hL.tally_perform hr (fun _ => hbody) args
    have hboth : tally L.weight ((Block.leaveIndent s).2 ++
        ((Block.leaveIndent s).1.perform nested r args).2) =
        L.total ((Block.leaveIndent s).1.perform nested r args).1 - L.total s +
          L.due s ⟨r, args⟩ := by
      rw [tally_append, hleave, hperform, hL.due_leaveIndent]
      ring
    exact hboth
  · exact hL.tally_perform hr (fun h => absurd h hends) args

/-- An item is charged for what its argument makes. -/
theorem tally_request_it (hL : L.IsKept) (hn : L.Keeps nested calls) (s : State)
    (args : List Char) :
    tally L.weight (s.request nested .it args).2 =
      L.total (s.request nested .it args).1 - L.total s +
        ((Request.it.calls calls args).map (L.due s)).sum := by
  have hitem : L.due s ⟨.it, args⟩ = 0 := by
    rw [due, hL.charge_item]
    rfl
  have hlist : tally L.weight (Block.listStart ++ (nested args s).2 ++ Block.listEnd) =
      L.total (nested args s).1 - L.total s +
        ((Request.it.calls calls args).map (L.due s)).sum := by
    have hbalanced := hL.item
    rw [tally_append, tally_append, hn args s, Request.calls, List.map_cons, List.sum_cons, hitem]
    omega
  exact hlist

/-- A control line keeps a ledger if the requests that items make do. -/
theorem keeps_requestLine (hL : L.IsKept) (hn : L.Keeps nested calls) :
    L.Keeps (State.requestLine nested) (callsBy calls) := by
  intro body s
  unfold State.requestLine callsBy
  cases hname : Request.ofName? (splitRequest body).1 with
  | none => simp [hname]
  | some r =>
    simp only [hname]
    by_cases hr : r = .it
    · rw [hr]
      exact hL.tally_request_it hn s _
    · have hcalls : r.calls calls (splitRequest body).2 = [⟨r, (splitRequest body).2⟩] := by
        cases r with
        | it => exact absurd rfl hr
        | _ => rfl
      rw [hcalls, List.map_cons, List.map_nil, List.sum_cons, List.sum_nil, Int.add_zero]
      exact hL.tally_request hr _

theorem keeps_control (hL : L.IsKept) (depth : Nat) :
    L.Keeps (State.control depth) (callsWithin depth) := by
  induction depth with
  | zero => exact hL.keeps_requestLine fun _ s => by simp
  | succ depth ih => exact hL.keeps_requestLine ih

theorem tally_countdown (hL : L.IsKept) (s : State) :
    tally L.weight (Block.countdown s).2 = L.total (Block.countdown s).1 - L.total s := by
  rw [hL.countdown, total, total, Block.font_countdown]
  ring

/-- A line that is no comment keeps a ledger, before the countdown of indents. -/
theorem tally_setLine (hL : L.IsKept) {line : List Char} (h : isComment line = false) (s : State) :
    tally L.weight (s.setLine line).2 =
      L.total (s.setLine line).1 - L.total s + ((callsOn line).map (L.due s)).sum := by
  unfold State.setLine callsOn
  rw [h, if_neg Bool.false_ne_true]
  split_ifs
  · exact hL.keeps_control maxNesting (line.drop 1) s
  · have htext := s.tally_text line hL.isTagWeight
    dsimp only
    rw [tally_cons, hL.isTagWeight.char, htext, List.map_nil, List.sum_nil, total, total,
      show (s.text line).1.outline = s.outline from rfl]
    ring

/-- **One line keeps a ledger**: the tags that it writes are what it opens and closes, with what its
requests are charged for. -/
theorem tally_feed (hL : L.IsKept) (s : State) (line : List Char) :
    tally L.weight (s.feed line).2 =
      L.total (s.feed line).1 - L.total s + ((callsOn line).map (L.due s)).sum := by
  cases hcomment : isComment line with
  | true => simp [State.feed, callsOn, hcomment]
  | false =>
    have hset := hL.tally_setLine hcomment s
    have hcount := hL.tally_countdown (s.setLine line).1
    have hboth : tally L.weight ((s.setLine line).2 ++ (Block.countdown (s.setLine line).1).2) =
        L.total (Block.countdown (s.setLine line).1).1 - L.total s +
          ((callsOn line).map (L.due s)).sum := by
      rw [tally_append, hset, hcount]
      ring
    rw [State.feed, if_neg (by rw [hcomment]; exact Bool.false_ne_true)]
    exact hboth

/-- **A run of lines keeps a ledger.** -/
theorem tally_feedAll (hL : L.IsKept) (s : State) (lines : List (List Char)) :
    tally L.weight (s.feedAll lines).2 =
      L.total (s.feedAll lines).1 - L.total s +
        ((s.performed lines).map fun x => L.due x.1 x.2).sum := by
  induction lines generalizing s with
  | nil => simp [State.feedAll, State.performed]
  | cons line lines ih =>
    have hline := hL.tally_feed s line
    have hrest := ih (s.feed line).1
    rw [State.feedAll, State.performed, List.map_append, List.sum_append, List.map_map]
    dsimp only
    rw [tally_append, hline, hrest]
    simp only [Function.comp_def]
    ring

end IsKept

end Ledger

end Manpage
