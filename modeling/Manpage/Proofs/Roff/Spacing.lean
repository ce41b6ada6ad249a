import Manpage.Proofs.Roff.Calls
import Manpage.Proofs.Roff.Lines
import Manpage.Proofs.Roff.Words

/-!
# Spaces before an argument

Only the first space behind the name of a request belongs to the name. The others stand at the front
of the argument, where a run of spaces outside of quotes is set as one. So a line with more spaces
than one writes one more space in front of what it sets, unless the argument starts with a space by
itself: the name of a section gets the space, and a reference is taken apart behind it, into an
empty word and the words that it would have otherwise. What the page remembers stays the same.

## Main definitions

* `spacedLine`: a request with spaces before its argument
* `leadingSpace?`: whether a text starts with a space
* `Block.headText`: the head of a section
* `Inline.lead`: the link or the bold word that a reference starts with

## Main results

* `State.argument_spaces`: what spaces before an argument add to the set text
* `State.feed_heading`, `State.feed_reference`: what a line with spaces before the argument writes
* `State.feed_spacedLine`: when the spaces before an argument matter
-/

namespace Manpage

open Markup

/-- The request called `name` with `k` more spaces before the argument `args` than the one that
separates it from the name. -/
def spacedLine (name : List Char) (k : Nat) (args : List Char) : List Char :=
  '.' :: (name ++ ' ' :: (List.replicate k ' ' ++ args))

/-- Whether the first character of a text is a space, quotes left out, and if so, whether it stands
in quotes. -/
def leadingSpace? : (inQuotes : Bool) → List Char → Option Bool
  | inQuotes, '"' :: cs => leadingSpace? (!inQuotes) cs
  | inQuotes, ' ' :: _ => some inQuotes
  | _, _ => none

variable {c : Char} {k : Nat} {args cs : List Char} {inQuotes : Bool}

/-- A text without quotes starts with a space if its first character is one. -/
theorem leadingSpace?_of_notMem (h : '"' ∉ cs) :
    leadingSpace? inQuotes cs = if cs.head? = some ' ' then some inQuotes else none := by
  unfold leadingSpace?
  split
  · exact absurd List.mem_cons_self h
  · rfl
  · next hspace =>
    rw [if_neg]
    intro hhead
    obtain ⟨rest, rfl⟩ := List.head?_eq_some_iff.mp hhead
    exact hspace _ rfl

/-! ## Set text -/

namespace RunningText

theorem marks_replicate_space (k : Nat) (items : List Item) :
    marks true false true (List.replicate k (.char ' ') ++ items) =
      marks true false true items := by
  induction k with
  | zero => rfl
  | succ k ih => exact ih

/-- A text that starts neither with a quote nor with a space leaves the same marks behind a space,
and the first one is no space. -/
theorem marks_scan_cons_of_ne (hquote : c ≠ '"') (hspace : c ≠ ' ') (cs : List Char) :
    marks true inQuotes true (Item.scan (c :: cs)) =
        marks true inQuotes false (Item.scan (c :: cs)) ∧
      (marks true inQuotes false (Item.scan (c :: cs))).head? ≠ some (.char ' ') := by
  have hc : (c == ' ') = false := beq_false_of_ne hspace
  by_cases hlast : c = '\\' → cs = []
  · rw [scan_plain hquote hlast, marks, marks, hc]
    simp [hspace]
  · obtain ⟨rfl, hcs⟩ := Classical.not_imp.mp hlast
    obtain ⟨d, ds, rfl⟩ := List.exists_cons_of_ne_nil hcs
    rw [scan_escape, marks, marks]
    refine ⟨rfl, ?_⟩
    cases (Item.escapeAfter d ds).1 <;> simp [escapeMarks]

/-- Behind a space, a space outside of quotes leaves no mark, quotes left out. -/
theorem marks_of_leadingSpace (h : leadingSpace? inQuotes cs = some false) :
    marks true inQuotes false (Item.scan cs) =
      .char ' ' :: marks true inQuotes true (Item.scan cs) := by
  fun_induction leadingSpace? inQuotes cs with
  | case1 inQuotes cs ih =>
    rw [scan_quote, marks, marks]
    exact ih h
  | case2 inQuotes cs =>
    obtain rfl := Option.some.inj h
    rw [scan_plain (by decide) (absurd · (by decide))]
    rfl
  | case3 => cases h

/-- Any other text leaves the same marks behind a space. -/
theorem marks_of_leadingSpace_ne (h : leadingSpace? inQuotes cs ≠ some false) :
    marks true inQuotes true (Item.scan cs) = marks true inQuotes false (Item.scan cs) := by
  fun_induction leadingSpace? inQuotes cs with
  | case1 inQuotes cs ih =>
    rw [scan_quote, marks, marks]
    exact ih h
  | case2 inQuotes cs =>
    cases inQuotes with
    | false => exact absurd rfl h
    | true =>
      rw [scan_plain (by decide) (absurd · (by decide))]
      rfl
  | case3 cs inQuotes hquote hspace =>
    cases cs with
    | nil => rw [Item.scan, marks, marks]
    | cons c cs =>
      exact (marks_scan_cons_of_ne (fun hc => hquote cs (hc ▸ rfl))
        (fun hc => hspace cs (hc ▸ rfl)) cs).1

/-- The first mark of a text is a space if the text starts with one. -/
theorem head?_marks_iff :
    (marks true inQuotes false (Item.scan cs)).head? = some (.char ' ') ↔
      leadingSpace? inQuotes cs ≠ none := by
  fun_induction leadingSpace? inQuotes cs with
  | case1 inQuotes cs ih => rwa [scan_quote, marks]
  | case2 inQuotes cs =>
    rw [scan_plain (by decide) (absurd · (by decide))]
    simp [marks]
  | case3 cs inQuotes hquote hspace =>
    refine iff_of_false ?_ (by simp)
    cases cs with
    | nil => simp [Item.scan, marks]
    | cons c cs =>
      exact (marks_scan_cons_of_ne (fun hc => hquote cs (hc ▸ rfl))
        (fun hc => hspace cs (hc ▸ rfl)) cs).2

/-- **Spaces in front of a text** are marked as one, or not at all if the text starts with a space
outside of quotes. -/
theorem textMarks_spaces (k : Nat) (cs : List Char) :
    textMarks true (List.replicate (k + 1) ' ' ++ cs) =
      if leadingSpace? false cs = some false then textMarks true cs
      else .char ' ' :: textMarks true cs := by
  have hplain : ∀ c ∈ List.replicate k ' ', c ≠ '"' ∧ c ≠ '\\' := by
    intro c hc
    rw [List.eq_of_mem_replicate hc]
    decide
  have hspaces : textMarks true (List.replicate (k + 1) ' ' ++ cs) =
      .char ' ' :: marks true false true (Item.scan cs) := by
    rw [textMarks, List.replicate_succ, List.cons_append,
      scan_plain (by decide) (absurd · (by decide)), scan_append hplain, List.map_replicate]
    exact congrArg (.char ' ' :: ·) (marks_replicate_space k _)
  split_ifs with h
  · rw [hspaces, textMarks, marks_of_leadingSpace h]
  · rw [hspaces, textMarks, marks_of_leadingSpace_ne h]

end RunningText

/-- What spaces in front of the text `cs` are set as: a blank if the text starts with a space in
quotes, nothing if it starts with a space outside of quotes. -/
def spaceBefore (cs : List Char) : List Fragment :=
  match leadingSpace? false cs with
  | some false => []
  | some true => [.blank]
  | none => [.char ' ']

/-- **Spaces before an argument** are set as one space at most, and leave the font. -/
theorem State.argument_spaces (s : State) (k : Nat) (cs : List Char) :
    s.argument (List.replicate (k + 1) ' ' ++ cs) =
      ((s.argument cs).1, spaceBefore cs ++ (s.argument cs).2) := by
  rw [argument, setText, RunningText.textMarks_spaces, spaceBefore]
  cases h : leadingSpace? false cs with
  | none =>
    have hhead : (RunningText.textMarks true cs).head? ≠ some (.char ' ') :=
      fun hhead => RunningText.head?_marks_iff.mp hhead h
    rw [if_neg (by simp), RunningText.write, RunningText.writeChar_space hhead]
    rfl
  | some q =>
    cases q with
    | false => rfl
    | true =>
      have hhead : (RunningText.textMarks true cs).head? = some (.char ' ') :=
        RunningText.head?_marks_iff.mpr (by simp [h])
      obtain ⟨ms, hms⟩ := List.head?_eq_some_iff.mp hhead
      rw [if_neg (by simp), argument, setText, hms]
      rfl

/-! ## Sections -/

/-- Spaces in front of a text belong to its first quoted argument, which may be blank. -/
theorem exists_quotedArguments_spaces (args : List Char) :
    ∃ rest, ∀ k, quotedArguments (List.replicate k ' ' ++ args) =
      if Text.isBlankText (args.takeWhile (· != '"')) then rest
      else (List.replicate k ' ' ++ args.takeWhile (· != '"')) :: rest := by
  obtain ⟨rest, hrest⟩ : ∃ rest, Text.pieces (· == '"') args = args.takeWhile (· != '"') :: rest :=
    Text.exists_pieces_eq_cons _ args
  refine ⟨rest.filter (!Text.isBlankText ·), fun k => ?_⟩
  have hplain : ∀ c ∈ List.replicate k ' ', (c == '"') = false := by
    intro c hc
    rw [List.eq_of_mem_replicate hc]
    rfl
  have hblank : Text.isBlankText (List.replicate k ' ' ++ args.takeWhile (· != '"')) =
      Text.isBlankText (args.takeWhile (· != '"')) := by
    have hspaces : (List.replicate k ' ').all Text.isBlank := by
      rw [List.all_eq_true]
      intro c hc
      rw [List.eq_of_mem_replicate hc]
      rfl
    rw [Text.isBlankText, List.all_append, hspaces, Bool.true_and, Text.isBlankText]
  rw [quotedArguments, Text.pieces_append hplain, hrest, List.modifyHead_cons, List.filter_cons,
    hblank]
  cases Text.isBlankText (args.takeWhile (· != '"')) <;> rfl

namespace Block

/-- The head of a section, with the name as its target and as its text. -/
def headText (name : List Char) : List Char :=
  '<' :: ("div id=\"".toList ++ name ++ "\" class=\"section\"><h2><a href=\"#".toList ++ name ++
    "\">".toList ++ name ++ "</a></h2>".toList)

theorem render_sectionFrame (name : List Fragment) :
    render (sectionFrame name) = headText (render name) := by
  have hstart : render [.sectionStart] = '<' :: "div id=\"".toList := rfl
  have hclass : render [.sectionClass, .opening .h2, .anchorStart, .char '#'] =
      "\" class=\"section\"><h2><a href=\"#".toList := rfl
  have hvalue : render [.valueEnd] = "\">".toList := rfl
  have hend : render [.anchorEnd, .closing .h2] = "</a></h2>".toList := rfl
  rw [sectionFrame, headText, render_append, render_append, render_append, render_append,
    render_append, render_append, hstart, hclass, hvalue, hend]
  simp only [List.cons_append]

variable (s : State)

/-- A section request ends the section before it and writes the heads of the names that it gives. -/
theorem snd_sectionHead (args : List Char) :
    (sectionHead s args).2 =
      (if s.inSection then [.divisionEnd] else []) ++
        (sectionNames s args).flatMap sectionFrame := by
  unfold sectionHead sectionNames
  cases quotedArguments args <;> simp

theorem indent_sectionHead (args : List Char) : (sectionHead s args).1.indent = s.indent := by
  unfold sectionHead
  cases quotedArguments args <;> rfl

/-- **Spaces before the name of a section** become one space of the name, unless there is one
already. -/
theorem sectionNames_spaces (k : Nat) (args : List Char) :
    sectionNames s (List.replicate (k + 1) ' ' ++ args) =
      if Text.isBlankText (args.takeWhile (· != '"')) ∨ args.head? = some ' ' then
        sectionNames s args
      else (sectionNames s args).map (.char ' ' :: ·) := by
  obtain ⟨rest, hrest⟩ := exists_quotedArguments_spaces args
  have hargs := hrest 0
  rw [List.replicate_zero, List.nil_append, List.nil_append] at hargs
  rw [sectionNames, sectionNames, hrest, hargs]
  by_cases hblank : Text.isBlankText (args.takeWhile (· != '"'))
  · rw [if_pos hblank, if_pos hblank, if_pos (Or.inl hblank)]
  · have hquote : '"' ∉ args.takeWhile (· != '"') := fun hmem => by
      simpa using List.mem_takeWhile_imp hmem
    have hhead : (args.takeWhile (· != '"')).head? = some ' ' ↔ args.head? = some ' ' := by
      cases args with
      | nil => rfl
      | cons c args =>
        by_cases hc : c = '"'
        · simp [hc]
        · simp [hc]
    rw [if_neg hblank, if_neg hblank]
    simp only [List.head?_cons, Option.toList_some, List.map_cons, List.map_nil,
      State.argument_spaces, spaceBefore, leadingSpace?_of_notMem hquote, hhead, hblank]
    by_cases hspace : args.head? = some ' '
    · simp [hspace]
    · simp [hspace]

/-- What a page remembers of a section does not depend on the spaces before the name. -/
theorem fst_sectionHead_spaces (k : Nat) (args : List Char) :
    (sectionHead s (List.replicate k ' ' ++ args)).1 = (sectionHead s args).1 := by
  obtain ⟨rest, hrest⟩ := exists_quotedArguments_spaces args
  have hargs := hrest 0
  rw [List.replicate_zero, List.nil_append, List.nil_append] at hargs
  rw [sectionHead, sectionHead, hrest, hargs]
  by_cases hblank : Text.isBlankText (args.takeWhile (· != '"'))
  · rw [if_pos hblank, if_pos hblank]
  · rw [if_neg hblank, if_neg hblank]
    cases k with
    | zero => rfl
    | succ k =>
      dsimp only
      rw [State.argument_spaces]

end Block

/-! ## References -/

namespace Inline

/-- A bold word. -/
def boldWord (word : List Fragment) : List Fragment :=
  .opening .b :: (word ++ [.closing .b])

/-- The link that the words of a reference are, if they are one. -/
def link? : List (List Fragment) → Option (List Fragment)
  | [page, sect] => (section? sect).map fun found => pageLink page found.1
  | _ => none

/-- What the words of a reference start with: the link, or else the first word in bold. -/
def lead (words : List (List Fragment)) : List Fragment :=
  (link? words).getD (boldWord (words.headD []))

variable {words : List (List Fragment)} {word page sect link : List Fragment}

/-- A reference is written as its link or its bold word, and what stands behind it. -/
theorem lead_prefix_referenceWords (words : List (List Fragment)) :
    .char ' ' :: lead words <+: referenceWords words := by
  rcases words with - | ⟨page, - | ⟨sect, - | ⟨_, _⟩⟩⟩
  · exact List.prefix_rfl
  · exact List.prefix_append _ _
  · rw [lead, link?, referenceWords]
    cases section? sect with
    | none => exact List.prefix_append _ _
    | some found => exact List.prefix_append _ _
  · exact List.prefix_append _ _

theorem exists_of_link?_eq_some (h : link? words = some link) :
    ∃ page sect found, words = [page, sect] ∧ section? sect = some found ∧
      link = pageLink page found.1 := by
  unfold link? at h
  split at h
  · next page sect =>
    obtain ⟨found, hfound, rfl⟩ := Option.map_eq_some_iff.mp h
    exact ⟨page, sect, found, rfl, hfound, rfl⟩
  · cases h

theorem render_boldWord (word : List Fragment) :
    render (boldWord word) = '<' :: 'b' :: '>' :: (render word ++ "</b>".toList) := by
  rw [boldWord, render_cons, render_append]
  rfl

theorem render_boldWord_inj {word other : List Fragment} :
    render (boldWord word) = render (boldWord other) ↔ render word = render other := by
  simp [render_boldWord]

theorem render_boldWord_ne_pageLink : render (boldWord word) ≠ render (pageLink page sect) := by
  have hlink : ∃ rest, render (pageLink page sect) = '<' :: 'a' :: rest := by
    simp only [pageLink, render_append, List.append_assoc]
    exact ⟨_, rfl⟩
  obtain ⟨rest, hrest⟩ := hlink
  rw [render_boldWord, hrest]
  simp

theorem splitWords_cons_space (text : List Fragment) :
    splitWords (.char ' ' :: text) = [] :: splitWords text := by
  rw [splitWords, Text.pieces_cons, if_pos (by decide), splitWords]

theorem splitWords_cons_blank (text : List Fragment) :
    splitWords (.blank :: text) = (splitWords text).modifyHead (.blank :: ·) := by
  rw [splitWords, Text.pieces_cons, if_neg (by decide), splitWords]

theorem render_lead_ne_link (h : link? words = some link) (word : List Fragment) :
    render (boldWord word) ≠ render (lead words) := by
  obtain ⟨page, sect, found, -, -, rfl⟩ := exists_of_link?_eq_some h
  rw [lead, h, Option.getD_some]
  exact render_boldWord_ne_pageLink

/-- **With an empty word in front** a reference starts with the empty bold word or with a link to a
page without a name. So it starts as it does without the empty word if that is an empty bold
word. -/
theorem render_lead_nil_cons_iff (hwords : words ≠ []) :
    render (lead ([] :: words)) = render (lead words) ↔
      words.head? = some [] ∧ link? words = none := by
  obtain ⟨first, rest, rfl⟩ := List.exists_cons_of_ne_nil hwords
  have hempty : ∀ {word : List Fragment}, render [] = render word ↔ word = [] := by
    intro word
    cases word <;> simp [render, Fragment.chars_ne_nil]
  cases rest with
  | nil =>
    have hone : lead [first] = boldWord first := rfl
    cases hlink : link? [[], first] with
    | none =>
      have htwo : lead [[], first] = boldWord [] := by rw [lead, hlink]; rfl
      rw [htwo, hone, render_boldWord_inj, hempty]
      simp [link?]
    | some link =>
      rw [hone]
      refine iff_of_false (render_lead_ne_link hlink first).symm fun h => ?_
      obtain rfl : first = [] := by simpa using h.1
      cases hlink
  | cons second rest =>
    have hthree : lead ([] :: first :: second :: rest) = boldWord [] := rfl
    rw [hthree]
    cases hlink : link? (first :: second :: rest) with
    | none =>
      rw [lead, hlink, Option.getD_none, render_boldWord_inj, List.headD_cons, hempty]
      simp
    | some link => exact iff_of_false (render_lead_ne_link hlink []) fun h => by cases h.2

/-- With a blank in front of its first word a reference starts differently. -/
theorem render_lead_blank_ne (hwords : words ≠ []) :
    render (lead (words.modifyHead (.blank :: ·))) ≠ render (lead words) := by
  obtain ⟨first, rest, rfl⟩ := List.exists_cons_of_ne_nil hwords
  intro h
  have hlength := congrArg List.length h
  rw [List.modifyHead_cons] at hlength
  cases hlink : link? (first :: rest) with
  | none =>
    have hblank : link? ((.blank :: first) :: rest) = none := by
      rcases rest with - | ⟨sect, - | ⟨_, _⟩⟩
      · rfl
      · exact Option.map_eq_none_iff.mpr (Option.map_eq_none_iff.mp hlink)
      · rfl
    rw [lead, lead, hlink, hblank] at hlength
    simp [render_boldWord, Fragment.chars] at hlength
    omega
  | some link =>
    obtain ⟨page, sect, found, heq, hfound, rfl⟩ := exists_of_link?_eq_some hlink
    obtain ⟨rfl, rfl⟩ := List.cons.inj heq
    have hblank : link? [.blank :: first, sect] = some (pageLink (.blank :: first) found.1) := by
      rw [link?, hfound, Option.map_some]
    rw [lead, lead, hlink, hblank] at hlength
    simp [pageLink, Fragment.chars] at hlength
    omega

end Inline

/-! ## Lines -/

namespace State

variable (s : State)

/-- The names of the sections that a section request gives, as they are written. -/
def sectionTexts (args : List Char) : List (List Char) :=
  (Block.sectionNames s args).map render

/-- The link or the bold word that a reference starts with, as it is written. -/
def leadText (args : List Char) : List Char :=
  render (Inline.lead (Inline.splitWords (s.argument args).2))

/-- What is written before the head of a section: the ends of the indent and of the section that
are open. -/
def sectionEnd : List Char :=
  render (Block.leaveIndent s).2 ++ if s.inSection then "</div>".toList else []

/-- Spaces before an argument leave what the page remembers of it. -/
theorem fst_argument_spaces (k : Nat) (args : List Char) :
    (s.argument (List.replicate k ' ' ++ args)).1 = (s.argument args).1 := by
  cases k with
  | zero => rfl
  | succ k => rw [argument_spaces]

/-- A line with a section ends the indent, performs the request and counts down. -/
theorem feed_heading (k : Nat) (args : List Char) :
    s.feed (spacedLine "SH".toList k args) =
      ({ (Block.countdown (Block.sectionHead (Block.leaveIndent s).1 args).1).1 with
          lastRequest := some .sh, lastLine := some (spacedLine "SH".toList k args) },
        (Block.leaveIndent s).2 ++
          (Block.sectionHead (Block.leaveIndent s).1 (List.replicate k ' ' ++ args)).2 ++
            (Block.countdown s).2) := by
  have hrequest : Request.ofName? (splitRequest
      ('S' :: 'H' :: ' ' :: (List.replicate k ' ' ++ args))).1 = some .sh := rfl
  have hcountdown : (Block.countdown (Block.sectionHead (Block.leaveIndent s).1 args).1).2 =
      (Block.countdown s).2 := by
    rw [Block.snd_countdown_congr (Block.indent_sectionHead _ args),
      Block.snd_countdown_leaveIndent]
  have hperform : (Block.leaveIndent s).1.perform (control 7) .sh (splitRequest
      ('S' :: 'H' :: ' ' :: (List.replicate k ' ' ++ args))).2 =
      ((Block.sectionHead (Block.leaveIndent s).1 args).1,
        (Block.sectionHead (Block.leaveIndent s).1 (List.replicate k ' ' ++ args)).2) := by
    show Block.sectionHead _ (List.replicate k ' ' ++ args) = _
    exact Prod.ext (Block.fst_sectionHead_spaces _ k args) rfl
  have hline : spacedLine "SH".toList k args =
      '.' :: 'S' :: 'H' :: ' ' :: (List.replicate k ' ' ++ args) := rfl
  rw [hline, feed_perform hrequest (Prod.eta (Block.leaveIndent s)).symm hperform, hcountdown]

/-- A line with a reference performs the request and counts down. -/
theorem feed_reference (hargs : args ≠ []) (k : Nat) :
    s.feed (spacedLine "BR".toList k args) =
      ({ (Block.countdown (s.argument args).1).1 with
          lastRequest := some .br, lastLine := some (spacedLine "BR".toList k args) },
        Inline.referenceWords
          (Inline.splitWords (s.argument (List.replicate k ' ' ++ args)).2) ++
            (Block.countdown s).2) := by
  have hrequest : Request.ofName? (splitRequest
      ('B' :: 'R' :: ' ' :: (List.replicate k ' ' ++ args))).1 = some .br := rfl
  have hgiven : List.replicate k ' ' ++ args ≠ [] := List.append_ne_nil_of_right_ne_nil _ hargs
  have hperform : s.perform (control 7) .br (splitRequest
      ('B' :: 'R' :: ' ' :: (List.replicate k ' ' ++ args))).2 =
      ((s.argument args).1, Inline.referenceWords
        (Inline.splitWords (s.argument (List.replicate k ' ' ++ args)).2)) := by
    show Inline.reference s (List.replicate k ' ' ++ args) = _
    rw [Inline.reference, if_neg hgiven]
    exact Prod.ext (s.fst_argument_spaces k args) rfl
  have hline : spacedLine "BR".toList k args =
      '.' :: 'B' :: 'R' :: ' ' :: (List.replicate k ' ' ++ args) := rfl
  have hcountdown : (Block.countdown (s.argument args).1).2 = (Block.countdown s).2 :=
    Block.snd_countdown_congr rfl
  rw [hline, feed_perform_of_not_ends hrequest rfl hperform, hcountdown]

/-- **A line with a section** ends what is open, and writes the heads of the names that it gives. -/
theorem render_feed_heading (k : Nat) (args : List Char) :
    render (s.feed (spacedLine "SH".toList k args)).2 =
      s.sectionEnd ++ (s.sectionTexts (List.replicate k ' ' ++ args)).flatMap Block.headText ++
        render (Block.countdown s).2 := by
  have hsection : (Block.leaveIndent s).1.inSection = s.inSection := by
    unfold Block.leaveIndent
    split_ifs <;> rfl
  have hnames : ∀ given, Block.sectionNames (Block.leaveIndent s).1 given =
      Block.sectionNames s given := by
    intro given
    exact Call.sections_congr (Block.font_leaveIndent s) (Block.inPreformatted_leaveIndent s)
      ⟨.sh, given⟩
  have hheads : ∀ names : List (List Fragment),
      render (names.flatMap Block.sectionFrame) = (names.map render).flatMap Block.headText := by
    intro names
    rw [render, List.flatMap_assoc, List.flatMap_map]
    exact congrArg (names.flatMap ·) (funext Block.render_sectionFrame)
  have hend : render (if s.inSection then [.divisionEnd] else []) =
      if s.inSection then "</div>".toList else [] := by
    split_ifs <;> rfl
  rw [feed_heading, Block.snd_sectionHead, hsection, hnames, render_append, render_append,
    render_append, hheads, hend, sectionEnd, sectionTexts, List.append_assoc, List.append_assoc,
    List.append_assoc, List.append_assoc]

/-- **A line with a reference** writes its link or its bold word first. -/
theorem lead_prefix_feed_reference (hargs : args ≠ []) (k : Nat) :
    ' ' :: s.leadText (List.replicate k ' ' ++ args) <+:
      render (s.feed (spacedLine "BR".toList k args)).2 := by
  rw [feed_reference s hargs, render_append]
  obtain ⟨rest, hrest⟩ := Inline.lead_prefix_referenceWords
    (Inline.splitWords (s.argument (List.replicate k ' ' ++ args)).2)
  rw [← hrest, render_append, List.append_assoc]
  exact List.prefix_append _ _

/-! ### When spaces matter -/

/-- A section has the same name behind more spaces if it has a space in front anyway, or if its name
stands in quotes. -/
theorem sectionTexts_spaces_iff (k : Nat) (args : List Char) :
    s.sectionTexts (List.replicate k ' ' ++ args) = s.sectionTexts args ↔
      k = 0 ∨ Text.isBlankText (args.takeWhile (· != '"')) ∨ args.head? = some ' ' := by
  cases k with
  | zero => exact iff_of_true rfl (Or.inl rfl)
  | succ k =>
    rw [sectionTexts, Block.sectionNames_spaces, sectionTexts]
    split_ifs with h
    · exact iff_of_true rfl (Or.inr h)
    · obtain ⟨rest, hrest⟩ := exists_quotedArguments_spaces args
      have hargs := hrest 0
      rw [if_neg (not_or.mp h).1, List.replicate_zero, List.nil_append, List.nil_append] at hargs
      refine iff_of_false (fun heq => ?_) (by simpa using h)
      simp [Block.sectionNames, hargs, Fragment.chars] at heq

/-- A reference starts in the same way behind more spaces if it has a space in front anyway, or an
empty word that is no link. -/
theorem leadText_spaces_iff (k : Nat) (args : List Char) :
    s.leadText (List.replicate k ' ' ++ args) = s.leadText args ↔
      k = 0 ∨ leadingSpace? false args = some false ∨
        leadingSpace? false args = none ∧
          (Inline.splitWords (s.argument args).2).head? = some [] ∧
          Inline.link? (Inline.splitWords (s.argument args).2) = none := by
  have hne : Inline.splitWords (s.argument args).2 ≠ [] := Text.pieces_ne_nil _ _
  cases k with
  | zero => exact iff_of_true rfl (Or.inl rfl)
  | succ k =>
    rw [leadText, argument_spaces, leadText, spaceBefore]
    cases h : leadingSpace? false args with
    | none =>
      rw [List.singleton_append, Inline.splitWords_cons_space, Inline.render_lead_nil_cons_iff hne]
      simp
    | some q =>
      cases q with
      | false => simp
      | true =>
        rw [List.singleton_append, Inline.splitWords_cons_blank]
        exact iff_of_false (Inline.render_lead_blank_ne hne) (by simp)

/-- **Spaces before the argument of a section or a reference.** What the page remembers does not
depend on them. A line with a section ends what is open and writes the heads of the names that it
gives, each with its name as the target and as the text, and a line with a reference starts with its
link or its bold word. With more spaces than one, the names are the same exactly if what stands
before the first quote is blank or starts with a space, and the link or the bold word is the same
exactly if the argument, quotes left out, starts with a space outside of quotes, or if its first
word is empty and it is no link. -/
theorem feed_spacedLine (hargs : args ≠ []) (k : Nat) :
    (s.feed (spacedLine "SH".toList k args)).1 =
        { (s.feed (spacedLine "SH".toList 0 args)).1 with
          lastLine := some (spacedLine "SH".toList k args) } ∧
      (s.feed (spacedLine "BR".toList k args)).1 =
        { (s.feed (spacedLine "BR".toList 0 args)).1 with
          lastLine := some (spacedLine "BR".toList k args) } ∧
      (∀ j, render (s.feed (spacedLine "SH".toList j args)).2 =
        s.sectionEnd ++ (s.sectionTexts (List.replicate j ' ' ++ args)).flatMap Block.headText ++
          render (Block.countdown s).2) ∧
      (∀ j, ' ' :: s.leadText (List.replicate j ' ' ++ args) <+:
        render (s.feed (spacedLine "BR".toList j args)).2) ∧
      (s.sectionTexts (List.replicate k ' ' ++ args) = s.sectionTexts args ↔
        k = 0 ∨ Text.isBlankText (args.takeWhile (· != '"')) ∨ args.head? = some ' ') ∧
      (s.leadText (List.replicate k ' ' ++ args) = s.leadText args ↔
        k = 0 ∨ leadingSpace? false args = some false ∨
          leadingSpace? false args = none ∧
            (Inline.splitWords (s.argument args).2).head? = some [] ∧
            Inline.link? (Inline.splitWords (s.argument args).2) = none) := by
  refine ⟨?_, ?_, fun j => s.render_feed_heading j args,
    fun j => s.lead_prefix_feed_reference hargs j, s.sectionTexts_spaces_iff k args,
    s.leadText_spaces_iff k args⟩
  · rw [feed_heading, feed_heading]
  · rw [feed_reference s hargs, feed_reference s hargs]

/-- Behind an empty pair of quotes, spaces before the argument change nothing. -/
theorem feed_spacedLine_quotes :
    "\"\" a (1)".toList ≠ [] ∧
      State.sectionTexts {} (List.replicate 2 ' ' ++ "\"\" a (1)".toList) =
        State.sectionTexts {} "\"\" a (1)".toList ∧
      State.leadText {} (List.replicate 2 ' ' ++ "\"\" a (1)".toList) =
        State.leadText {} "\"\" a (1)".toList := by
  have hargs : "\"\" a (1)".toList ≠ [] := by decide
  obtain ⟨-, -, -, -, hsection, hlead⟩ := feed_spacedLine {} hargs 2
  exact ⟨hargs, hsection.mpr (Or.inr (Or.inl (by decide))), hlead.mpr (Or.inr (Or.inl (by decide)))⟩

/-- A second space becomes part of the name of a section, and takes the place of the page in a
reference. -/
theorem feed_spacedLine_ne :
    render (State.feed {} ".SH NAME".toList).2 = Block.headText "NAME".toList ∧
      render (State.feed {} ".SH  NAME".toList).2 = Block.headText " NAME".toList ∧
      render (State.feed {} ".BR a (1)".toList).2 =
        " <a href=\"/man1/a.1\"><b>a</b>(1)</a>".toList ∧
      render (State.feed {} ".BR  a (1)".toList).2 = " <b></b> a (1)".toList := by
  refine ⟨?_, ?_, ?_, ?_⟩ <;> decide +kernel

end State

end Manpage
