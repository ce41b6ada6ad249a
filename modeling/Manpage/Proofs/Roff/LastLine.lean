import Manpage.Proofs.Roff.Lines
import Mathlib.Data.List.Induction

/-!
# What a line looks back at

A page remembers its last line for one purpose: the name of the command starts a line of its own if
the line before it is a control line. So two states that differ in the last line only are set alike,
but for the break before a name. Comments are not remembered, and leave a state as it is.

## Main definitions

* `State.following`: a state with another last line
* `breakAfter`: the break before a name that follows a line
* `lastLine`: the last of some lines that is no comment
* `State.LooksBack`: what is set in a way that depends on the last line by that break only

## Main results

* `State.feedAll_filter`: comments leave no trace
* `State.exists_feed_following`: what of a line depends on the line before it
* `State.lastLine_feedAll`: the last line that a run of lines leaves
-/

namespace Manpage

open Markup

/-! ## Comments -/

/-- A comment starts with an apostrophe, with a period and a backslash, or with two backslashes. -/
theorem isComment_iff {line : List Char} :
    isComment line ↔ ['\''] <+: line ∨ ['.', '\\'] <+: line ∨ ['\\', '\\'] <+: line := by
  unfold isComment
  split
  · simp
  · simp
  · simp
  · next hquote hperiod hbackslash =>
    simp only [Bool.false_eq_true, false_iff, not_or]
    refine ⟨?_, ?_, ?_⟩
    · rintro ⟨rest, rfl⟩
      exact hquote rest rfl
    · rintro ⟨rest, rfl⟩
      exact hperiod rest rfl
    · rintro ⟨rest, rfl⟩
      exact hbackslash rest rfl

/-- The last of some lines that is no comment. -/
def lastLine (lines : List (List Char)) : Option (List Char) :=
  (lines.filter (!isComment ·)).getLast?

namespace State

theorem feed_of_isComment {line : List Char} (h : isComment line) (s : State) :
    s.feed line = (s, []) :=
  if_pos h

/-- **Comments leave no trace.** -/
theorem feedAll_filter (s : State) (lines : List (List Char)) :
    s.feedAll (lines.filter (!isComment ·)) = s.feedAll lines := by
  induction lines generalizing s with
  | nil => rfl
  | cons line lines ih =>
    cases hcomment : isComment line with
    | true =>
      rw [List.filter_cons_of_neg (by simp [hcomment]), ih,
        feedAll_cons (feed_of_isComment hcomment s)]
      rfl
    | false =>
      rw [List.filter_cons_of_pos (by simp [hcomment])]
      simp only [feedAll, ih]

/-- Lines that are comments can be left out. -/
theorem feedAll_skip {comments : List (List Char)} (h : ∀ line ∈ comments, isComment line)
    (s : State) (before after : List (List Char)) :
    s.feedAll (before ++ comments ++ after) = s.feedAll (before ++ after) := by
  have hnone : comments.filter (!isComment ·) = [] := by
    rw [List.filter_eq_nil_iff]
    intro line hline
    simp [h line hline]
  rw [← feedAll_filter s (before ++ comments ++ after), ← feedAll_filter s (before ++ after),
    List.filter_append, List.filter_append, List.filter_append, hnone, List.append_nil]

theorem lastLine_feed {line : List Char} (h : isComment line = false) (s : State) :
    (s.feed line).1.lastLine = some line := by
  rw [feed, h]
  rfl

/-- **The last line that a run of lines leaves**, comments aside. -/
theorem lastLine_feedAll (s : State) (lines : List (List Char)) :
    (s.feedAll lines).1.lastLine = (Manpage.lastLine lines).or s.lastLine := by
  induction lines using List.reverseRecOn with
  | nil => rfl
  | append_singleton lines line ih =>
    have hrun : (s.feedAll (lines ++ [line])).1 = ((s.feedAll lines).1.feed line).1 := by
      rw [feedAll_append]
      rfl
    rw [hrun, Manpage.lastLine, List.filter_append]
    cases hcomment : isComment line with
    | true =>
      rw [feed_of_isComment hcomment, ih, Manpage.lastLine]
      simp [hcomment]
    | false =>
      rw [lastLine_feed hcomment]
      simp [hcomment]

end State

/-! ## The line before a name -/

/-- The break before a name that follows the line `last`. -/
def breakAfter (last : Option (List Char)) : List Fragment :=
  if last.any Inline.isControl then [.lineBreak] else []

namespace State

/-- A state with another last line. -/
def following (s : State) (last : Option (List Char)) : State :=
  { s with lastLine := last }

@[simp] theorem inPreformatted_following (s : State) (last : Option (List Char)) :
    (s.following last).inPreformatted = s.inPreformatted := rfl

@[simp] theorem indent_following (s : State) (last : Option (List Char)) :
    (s.following last).indent = s.indent := rfl

/-- Whether `set` uses the last line for the break before a name only, and only if one of the
`requests` that it performs writes a name. -/
def LooksBack (set : State → State × List Fragment) (requests : List Request) : Prop :=
  ∀ s, ∃ before after, ∀ last, set (s.following last) =
    ((set s).1.following last,
      before ++ (if .nm ∈ requests then breakAfter last else []) ++ after)

variable {nested : List Char → State → State × List Fragment}
  {requests : List Char → List Request}

/-- A request that neither writes a name nor makes another request does not look back. -/
theorem perform_following {r : Request} (hitem : r ≠ .it) (hname : r ≠ .nm) (s : State)
    (args : List Char) (last : Option (List Char)) :
    (s.following last).perform nested r args =
      ((s.perform nested r args).1.following last, (s.perform nested r args).2) := by
  cases r with
  | it => exact absurd rfl hitem
  | nm => exact absurd rfl hname
  | th | dt =>
    simp only [perform, Block.title]
    cases quotedArguments args <;> rfl
  | sh =>
    simp only [perform, Block.sectionHead]
    cases quotedArguments args <;> rfl
  | ip =>
    simp only [perform, Block.hanging]
    cases Block.term? args <;> rfl
  | bi =>
    by_cases h : s.inPreformatted && args.contains '"'
    · rw [perform, perform, Inline.boldItalic, Inline.boldItalic, inPreformatted_following,
        if_pos h, if_pos h]
    · rw [perform, perform, Inline.boldItalic, Inline.boldItalic, inPreformatted_following,
        if_neg h, if_neg h]
      rfl
  | br =>
    simp only [perform, Inline.reference]
    split_ifs <;> rfl
  | _ => rfl

theorem looksBack_perform (hn : ∀ args, LooksBack (nested args) (requests args)) (r : Request)
    (args : List Char) : LooksBack (·.perform nested r args) (r.andNested requests args) := by
  intro s
  by_cases hitem : r = .it
  · subst hitem
    obtain ⟨before, after, hnested⟩ := hn args s
    refine ⟨Block.listStart ++ before, after ++ Block.listEnd, fun last => ?_⟩
    simp [perform, hnested, Request.andNested]
  · by_cases hname : r = .nm
    · subst hname
      let named : State := { s with commandName := (Text.firstWord? args).or s.commandName }
      refine ⟨[], (Inline.styled [.b] named (Inline.nameToWrite named args)).2, fun last => ?_⟩
      simp only [Request.andNested, List.mem_singleton, if_true, List.nil_append]
      rfl
    · refine ⟨(s.perform nested r args).2, [], fun last => ?_⟩
      have hrequests : .nm ∉ r.andNested requests args := by
        cases r with
        | it => exact absurd rfl hitem
        | nm => exact absurd rfl hname
        | _ => simp [Request.andNested]
      rw [if_neg hrequests, List.append_nil, List.append_nil]
      exact perform_following hitem hname s args last

theorem leaveIndent_following (s : State) (last : Option (List Char)) :
    Block.leaveIndent (s.following last) =
      ((Block.leaveIndent s).1.following last, (Block.leaveIndent s).2) := by
  by_cases h : s.indent = .body
  · rw [Block.leaveIndent, Block.leaveIndent, indent_following, if_pos h, if_pos h]
    rfl
  · rw [Block.leaveIndent, Block.leaveIndent, indent_following, if_neg h, if_neg h]

theorem looksBack_request (hn : ∀ args, LooksBack (nested args) (requests args)) (r : Request)
    (args : List Char) : LooksBack (·.request nested r args) (r.andNested requests args) := by
  intro s
  by_cases hends : r.endsIndent
  · obtain ⟨before, after, hperform⟩ := looksBack_perform hn r args (Block.leaveIndent s).1
    refine ⟨(Block.leaveIndent s).2 ++ before, after, fun last => ?_⟩
    simp only [request, hends, if_true, leaveIndent_following, hperform, List.append_assoc]
    rfl
  · obtain ⟨before, after, hperform⟩ := looksBack_perform hn r args s
    refine ⟨before, after, fun last => ?_⟩
    simp only [request, if_neg hends, hperform]
    rfl

theorem looksBack_requestLine (hn : ∀ args, LooksBack (nested args) (requests args))
    (body : List Char) : LooksBack (requestLine nested body) (requestsBy requests body) := by
  intro s
  unfold requestLine requestsBy
  cases hr : Request.ofName? (splitRequest body).1 with
  | none => exact ⟨[], [], fun last => by simp [hr]⟩
  | some r => simpa only [hr] using looksBack_request hn r (splitRequest body).2 s

theorem looksBack_control (depth : Nat) (body : List Char) :
    LooksBack (control depth body) (requestsWithin depth body) := by
  induction depth generalizing body with
  | zero => exact looksBack_requestLine (fun _ s => ⟨[], [], fun last => rfl⟩) body
  | succ depth ih => exact looksBack_requestLine ih body

theorem looksBack_setLine {line : List Char} (h : isComment line = false) :
    LooksBack (·.setLine line) (requestsOn line) := by
  intro s
  rw [requestsOn, h]
  by_cases hcontrol : Inline.isControl line
  · simp only [setLine, if_pos hcontrol]
    exact looksBack_control maxNesting (line.drop 1) s
  · simp only [setLine, if_neg hcontrol]
    refine ⟨.char ' ' :: (s.text line).2, [], fun last => ?_⟩
    simp only [Bool.false_eq_true, if_false, List.not_mem_nil, List.append_nil]
    rfl

theorem countdown_following (s : State) (last : Option (List Char)) :
    Block.countdown (s.following last) =
      ((Block.countdown s).1.following last, (Block.countdown s).2) := by
  simp only [Block.countdown, indent_following]
  cases s.indent <;> rfl

/-- **What of a line depends on the line before it** is the break before a name. -/
theorem exists_feed_following {line : List Char} (h : isComment line = false) (s : State) :
    ∃ before after, ∀ last, (s.following last).feed line =
      ((s.feed line).1,
        before ++ (if .nm ∈ requestsOn line then breakAfter last else []) ++ after) := by
  obtain ⟨before, after, hline⟩ := looksBack_setLine h s
  refine ⟨before, after ++ (Block.countdown (s.setLine line).1).2, fun last => ?_⟩
  simp only [feed, h, Bool.false_eq_true, if_false, hline, countdown_following,
    List.append_assoc]
  rfl

/-- A line that writes no name, or follows a line like the one before it, is set the same. -/
theorem feed_following {line : List Char} (hcomment : isComment line = false) {s : State}
    {last : Option (List Char)}
    (h : .nm ∈ requestsOn line → last.any Inline.isControl = s.lastLine.any Inline.isControl) :
    (s.following last).feed line = s.feed line := by
  obtain ⟨before, after, hfeed⟩ := exists_feed_following hcomment s
  calc (s.following last).feed line
      = ((s.feed line).1,
          before ++ (if .nm ∈ requestsOn line then breakAfter last else []) ++ after) := hfeed last
    _ = ((s.feed line).1,
          before ++ (if .nm ∈ requestsOn line then breakAfter s.lastLine else []) ++ after) := by
      by_cases hname : .nm ∈ requestsOn line
      · rw [if_pos hname, if_pos hname, breakAfter, breakAfter, h hname]
      · rw [if_neg hname, if_neg hname]
    _ = s.feed line := (hfeed s.lastLine).symm

end State

end Manpage
