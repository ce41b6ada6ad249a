import Manpage.Proofs.Roff.Calls
import Manpage.Proofs.Roff.Lines
import Manpage.Proofs.Roff.Words

/-!
# The name of the command

A page says the name of its command once and then repeats it by leaving it out. What is written for
the name is all that stands in the argument, but what is remembered is only the first word in it, as
far as letters, digits and underscores go. The name that is remembered changes only when a request
gives one with a word in it, whatever else the lines in between do. So the name is repeated as it
was written exactly if it holds nothing but the characters of words: a hyphen, a period or a plus
sign cuts it short.

## Main definitions

* `Call.setsName`: what a call does to the name that is remembered
* `State.nameText`: the bold text of a name

## Main results

* `State.commandName_feedAll`: the name that is remembered after a run of lines
* `State.render_feed_name`: what a line with the name of the command writes
* `State.render_feed_name_repeated`: when a name is repeated as it was written
-/

namespace Manpage

open Markup

/-! ## The first word of a text -/

namespace Text

variable {cs word : List Char}

theorem firstWord?_eq (h : firstWord? cs = some word) :
    word = (cs.dropWhile (!isWordChar ·)).takeWhile isWordChar ∧ word ≠ [] := by
  unfold firstWord? at h
  split at h
  · cases h
  · next hne =>
    obtain rfl := Option.some.inj h
    exact ⟨rfl, hne⟩

/-- A first word holds the characters of words only. -/
theorem isWordChar_of_firstWord (h : firstWord? cs = some word) : ∀ c ∈ word, isWordChar c := by
  rw [(firstWord?_eq h).1]
  exact fun c hc => List.mem_takeWhile_imp hc

theorem firstWord_subset (h : firstWord? cs = some word) : word ⊆ cs := by
  rw [(firstWord?_eq h).1]
  exact fun c hc => (List.dropWhile_sublist _).subset ((List.takeWhile_sublist _).subset hc)

/-- A text with a character of a word has a first word. -/
theorem exists_firstWord (h : ∃ c ∈ cs, isWordChar c) : ∃ word, firstWord? cs = some word := by
  have hdrop : cs.dropWhile (!isWordChar ·) ≠ [] := by
    rw [ne_eq, List.dropWhile_eq_nil_iff]
    obtain ⟨c, hc, hword⟩ := h
    intro hall
    simpa [hword] using hall c hc
  obtain ⟨c, rest, hrest⟩ := List.exists_cons_of_ne_nil hdrop
  have hhead : isWordChar c := by
    have h := List.head_dropWhile_not (!isWordChar ·) hdrop
    simpa [hrest] using h
  refine ⟨c :: rest.takeWhile isWordChar, ?_⟩
  rw [firstWord?, hrest, List.takeWhile_cons_of_pos hhead]

/-- The first word is the text itself if it holds the characters of words only. -/
theorem firstWord_eq_self_iff (h : firstWord? cs = some word) :
    word = cs ↔ ∀ c ∈ cs, isWordChar c := by
  constructor
  · rintro rfl
    exact isWordChar_of_firstWord h
  · intro hall
    have hdrop : cs.dropWhile (!isWordChar ·) = cs := by
      cases cs with
      | nil => rfl
      | cons c cs => exact List.dropWhile_cons_of_neg (by simp [hall c List.mem_cons_self])
    rw [(firstWord?_eq h).1, hdrop, List.takeWhile_eq_self_iff.mpr hall]

/-- Letters, digits and the underscore of ASCII are characters of words. -/
theorem isWordChar_of_isAlphanum {c : Char} (h : c.isAlphanum ∨ c = '_') : isWordChar c := by
  obtain ⟨r, hr, hc⟩ := exists_range_of_isAlphanum h
  have hmem : r ∈ wordRanges := List.mem_append_left _ hr
  have hsmall : c.toNat < 0x10000 := by
    simp only [List.mem_cons, List.not_mem_nil, or_false] at hr
    grind
  rw [isWordChar, if_pos hsmall]
  exact List.any_eq_true.mpr ⟨r, hmem, by simpa using hc⟩

/-- The ranges of the blanks. -/
def blankRanges : List (Nat × Nat) := [
  (0x9, 0xD), (0x20, 0x20), (0x85, 0x85), (0xA0, 0xA0), (0x1680, 0x1680), (0x2000, 0x200A),
  (0x2028, 0x2028), (0x2029, 0x2029), (0x202F, 0x202F), (0x205F, 0x205F), (0x3000, 0x3000)]

theorem isBlank_eq_inRanges (c : Char) : isBlank c = inRanges blankRanges c := by
  have hnumber : ∀ n : Nat, (c.toNat == n) = (decide (n ≤ c.toNat) && decide (c.toNat ≤ n)) := by
    intro n
    rw [← Bool.decide_and, Bool.beq_eq_decide_eq]
    exact decide_eq_decide.mpr (Nat.le_antisymm_iff.trans and_comm)
  simp only [isBlank, hnumber, inRanges, blankRanges, List.any_cons, List.any_nil, Bool.or_assoc,
    Bool.or_false]

/-- A character lies in none of the ranges that are apart from its own. -/
theorem inRanges_of_apart {ranges others : List (Nat × Nat)} {c : Char}
    (hapart : others.all fun q => ranges.all fun r => r.2 < q.1 || q.2 < r.1)
    (h : inRanges ranges c) : inRanges others c = false := by
  obtain ⟨r, hr, hc⟩ := List.any_eq_true.mp h
  refine List.any_eq_false.mpr fun q hq hmem => ?_
  have hrq := List.all_eq_true.mp (List.all_eq_true.mp hapart q hq) r hr
  simp only [Bool.and_eq_true, Bool.or_eq_true, decide_eq_true_eq] at hc hmem hrq
  omega

/-- A blank is no part of a word. -/
theorem isWordChar_of_isBlank {c : Char} (h : isBlank c) : isWordChar c = false := by
  rw [isBlank_eq_inRanges] at h
  unfold isWordChar
  split_ifs
  · exact inRanges_of_apart (by decide +kernel) h
  · exact inRanges_of_apart (by decide +kernel) h

theorem isBlankText_firstWord (h : firstWord? cs = some word) : isBlankText word = false := by
  obtain ⟨c, rest, rfl⟩ := List.exists_cons_of_ne_nil (firstWord?_eq h).2
  have hc : isBlank c = false := by
    by_contra hblank
    have hword := isWordChar_of_firstWord h c List.mem_cons_self
    rw [isWordChar_of_isBlank (by simpa using hblank)] at hword
    exact Bool.noConfusion hword
  simp [isBlankText, hc]

end Text

/-! ## The name that is remembered -/

/-- What a call does to the name that is remembered: only a request that gives a name with a word in
it changes it. -/
def Call.setsName (before : Option (List Char)) (c : Call) : Option (List Char) :=
  if c.request = .nm then (Text.firstWord? c.args).or before else before

/-- Calls that give no name with a word in it leave the name. -/
theorem Call.foldl_setsName {calls : List Call}
    (h : ∀ c ∈ calls, c.request = .nm → Text.firstWord? c.args = none)
    (before : Option (List Char)) : calls.foldl Call.setsName before = before := by
  induction calls with
  | nil => rfl
  | cons c calls ih =>
    obtain ⟨hc, hcalls⟩ := List.forall_mem_cons.mp h
    have hkeeps : c.setsName before = before := by
      unfold setsName
      split_ifs with hnm
      · rw [hc hnm, Option.none_or]
      · rfl
    rw [List.foldl_cons, hkeeps, ih hcalls]

namespace Block

variable (s : State)

@[simp] theorem commandName_leaveIndent : (leaveIndent s).1.commandName = s.commandName := by
  unfold leaveIndent
  split_ifs <;> rfl

@[simp] theorem commandName_countdown : (countdown s).1.commandName = s.commandName := by
  unfold countdown
  split <;> rfl

end Block

namespace State

variable {s : State} {nested : List Char → State → State × List Fragment}
  {calls : List Char → List Call} {r : Request} {args : List Char}

/-- Only one request names the command, and an item if the request that it makes does. -/
theorem commandName_perform (hit : r ≠ .it) (hnm : r ≠ .nm) :
    (s.perform nested r args).1.commandName = s.commandName := by
  cases r with
  | it => exact absurd rfl hit
  | nm => exact absurd rfl hnm
  | th | dt =>
    simp only [perform, Block.title]
    cases quotedArguments args <;> rfl
  | sh =>
    simp only [perform, Block.sectionHead]
    cases quotedArguments args <;> rfl
  | ip =>
    simp only [perform, Block.hanging]
    cases Block.term? args <;> rfl
  | bi =>
    simp only [perform, Inline.boldItalic]
    split_ifs <;> rfl
  | br =>
    simp only [perform, Inline.reference]
    split_ifs <;> rfl
  | _ => rfl

/-- Whether `nested` remembers the name as the `calls` in its argument say. -/
def FollowsNames (nested : List Char → State → State × List Fragment)
    (calls : List Char → List Call) : Prop :=
  ∀ args s, (nested args s).1.commandName = (calls args).foldl Call.setsName s.commandName

theorem commandName_request (hn : FollowsNames nested calls) (r : Request) (args : List Char) :
    (s.request nested r args).1.commandName =
      (r.calls calls args).foldl Call.setsName s.commandName := by
  have hperform : ∀ t : State, (t.perform nested r args).1.commandName =
      (r.calls calls args).foldl Call.setsName t.commandName := by
    intro t
    by_cases hit : r = .it
    · rw [hit]
      exact hn args t
    · have hcalls : r.calls calls args = [⟨r, args⟩] := by
        cases r with
        | it => exact absurd rfl hit
        | _ => rfl
      rw [hcalls, List.foldl_cons, List.foldl_nil]
      by_cases hnm : r = .nm
      · rw [hnm]
        rfl
      · rw [commandName_perform hit hnm, Call.setsName, if_neg hnm]
  unfold request
  split_ifs
  · exact (hperform _).trans (by rw [Block.commandName_leaveIndent])
  · exact hperform s

theorem followsNames_requestLine (hn : FollowsNames nested calls) :
    FollowsNames (requestLine nested) (callsBy calls) := by
  intro body s
  unfold requestLine callsBy
  cases hr : Request.ofName? (splitRequest body).1 with
  | none => simp only [hr, List.foldl_nil]
  | some r => simpa only [hr] using commandName_request hn r _

theorem followsNames_control (depth : Nat) : FollowsNames (control depth) (callsWithin depth) := by
  induction depth with
  | zero => exact followsNames_requestLine fun _ _ => rfl
  | succ depth ih => exact followsNames_requestLine ih

/-- **The name that is remembered after a line** is what the calls of the line make of it. -/
theorem commandName_feed (s : State) (line : List Char) :
    (s.feed line).1.commandName = (callsOn line).foldl Call.setsName s.commandName := by
  unfold feed setLine callsOn
  split_ifs
  · rfl
  · exact (Block.commandName_countdown _).trans (followsNames_control maxNesting _ s)
  · exact Block.commandName_countdown _

/-- **The name that is remembered after a run of lines** is what all their calls make of it. -/
theorem commandName_feedAll (s : State) (lines : List (List Char)) :
    (s.feedAll lines).1.commandName =
      (lines.flatMap callsOn).foldl Call.setsName s.commandName := by
  induction lines generalizing s with
  | nil => rfl
  | cons line lines ih =>
    rw [feedAll_cons (Prod.eta _).symm, ih, commandName_feed, List.flatMap_cons, List.foldl_append]

/-! ## The name that is written -/

/-- The bold text of a name. -/
def nameText (s : State) (name : List Char) : List Char :=
  ' ' :: ("<b>".toList ++ render (escape name ++ s.lineEnd) ++ "</b> ".toList)

/-- Bold text that is a name is the text of the name. -/
theorem render_styled (s : State) {name : List Char} (hname : IsWord name) :
    render (Inline.styled [.b] s name).2 = s.nameText name := by
  have hstyled : (Inline.styled [.b] s name).2 =
      .char ' ' :: ([.opening .b] ++ (escape name ++ s.lineEnd) ++ [.closing .b, .char ' ']) := by
    rw [Inline.styled, argument_word hname]
    simp
  have hspace : ∀ fs, render (.char ' ' :: fs) = ' ' :: render fs := fun _ => rfl
  have hopening : render [.opening .b] = "<b>".toList := rfl
  have hclosing : render [.closing .b, .char ' '] = "</b> ".toList := rfl
  rw [hstyled, hspace, render_append, render_append, hopening, hclosing, nameText]

/-- What is written in front of a name: it starts a line behind a control line. -/
def nameBreak (s : State) : List Char :=
  if s.lastLine.any Inline.isControl then "<br/>".toList else []

/-- Names with the same bold text are the same. -/
theorem nameText_inj {t : State} {name other : List Char}
    (hpre : s.inPreformatted = t.inPreformatted) :
    s.nameText name = t.nameText other ↔ name = other := by
  have hend : s.lineEnd = t.lineEnd := by rw [lineEnd, lineEnd, hpre]
  constructor
  · intro h
    have htext := List.append_cancel_left (List.append_cancel_right (List.cons.inj h).2)
    rw [hend, render_append, render_append, List.append_left_inj] at htext
    rw [← plainText_render_escape name, htext, plainText_render_escape]
  · rintro rfl
    rw [nameText, nameText, hend]

variable {body name word : List Char}

/-- **A line with the name of the command** writes in bold what its argument says, or the name that
is remembered. -/
theorem render_feed_name (h : Request.ofName? (splitRequest body).1 = some .nm)
    (hwrite : Inline.nameToWrite
      { s with commandName := (Text.firstWord? (splitRequest body).2).or s.commandName }
      (splitRequest body).2 = name) (hname : IsWord name) :
    render (s.feed ('.' :: body)).2 =
      s.nameBreak ++ s.nameText name ++ render (Block.countdown s).2 := by
  let named : State :=
    { s with commandName := (Text.firstWord? (splitRequest body).2).or s.commandName }
  have hperform : s.perform (control 7) .nm (splitRequest body).2 =
      (named, (if s.lastLine.any Inline.isControl then [.lineBreak] else []) ++
        (Inline.styled [.b] named name).2) := by
    show Inline.commandName s (splitRequest body).2 = _
    rw [Inline.commandName]
    dsimp only
    rw [hwrite, Inline.styled, argument_word hname]
  have hbreak : render (if s.lastLine.any Inline.isControl then [.lineBreak] else []) =
      s.nameBreak := by
    unfold nameBreak
    split_ifs <;> rfl
  have hcountdown : (Block.countdown named).2 = (Block.countdown s).2 :=
    Block.snd_countdown_congr rfl
  rw [feed_perform_of_not_ends h rfl hperform, render_append, render_append, hbreak, hcountdown,
    named.render_styled hname]
  rfl

/-- **When a name is repeated as it was written.** A line gives the name of the command, and after
some lines that give no name with a word in it, a line leaves it out. The first line writes the name
in bold, whatever it holds; the second one writes its first word. So both write the same bold text,
in a preformatted block or outside of it, exactly if the name holds the characters of words only. -/
theorem render_feed_name_repeated (hname : IsWord name) (hword : ∃ c ∈ name, Text.isWordChar c)
    {lines : List (List Char)}
    (hlines : ∀ c ∈ lines.flatMap callsOn, c.request = .nm → Text.firstWord? c.args = none)
    (s t : State) (ht : t = ((s.feed (".Nm ".toList ++ name)).1.feedAll lines).1) :
    ∃ word, Text.firstWord? name = some word ∧
      render (s.feed (".Nm ".toList ++ name)).2 =
        s.nameBreak ++ s.nameText name ++ render (Block.countdown s).2 ∧
      render (t.feed ".Nm".toList).2 =
        t.nameBreak ++ t.nameText word ++ render (Block.countdown t).2 ∧
      (t.inPreformatted = s.inPreformatted →
        (t.nameText word = s.nameText name ↔ ∀ c ∈ name, Text.isWordChar c)) := by
  obtain ⟨word, hfirst⟩ := Text.exists_firstWord hword
  have hcalls : callsOn (".Nm ".toList ++ name) = [⟨.nm, name⟩] := rfl
  have hremembered : t.commandName = some word := by
    rw [ht, commandName_feedAll, Call.foldl_setsName hlines, commandName_feed, hcalls,
      List.foldl_cons, List.foldl_nil, Call.setsName, if_pos rfl, hfirst, Option.some_or]
  have hrepeated : IsWord word := fun c hc => hname c (Text.firstWord_subset hfirst hc)
  have hwrite : ∀ u : State, Inline.nameToWrite u name = name := fun u => by
    simp only [Inline.nameToWrite, hfirst]
  have hrepeat : Inline.nameToWrite { t with commandName := t.commandName } [] = word := by
    have hnone : Text.firstWord? [] = none := rfl
    simp only [Inline.nameToWrite, hremembered, hnone, Text.isBlankText_firstWord hfirst,
      Bool.false_eq_true, if_false]
  have hgiven : Request.ofName? (splitRequest ('N' :: 'm' :: ' ' :: name)).1 = some .nm := rfl
  have hbare : Request.ofName? (splitRequest ['N', 'm']).1 = some .nm := rfl
  refine ⟨word, hfirst, render_feed_name hgiven (hwrite _) hname,
    render_feed_name hbare hrepeat hrepeated, fun hpre => ?_⟩
  rw [nameText_inj hpre, Text.firstWord_eq_self_iff hfirst]

/-- A name that holds the characters of a word only is repeated, whatever comes in between: items,
names without a word, and lines that are skipped. -/
theorem render_feed_name_repeated_between :
    (∀ c ∈ [".It Nm".toList, "text".toList, ".Nm -".toList, ".XX ls".toList].flatMap callsOn,
        c.request = .nm → Text.firstWord? c.args = none) ∧
      ∃ word, Text.firstWord? "ls_2".toList = some word ∧
        (((State.feed {} (".Nm ".toList ++ "ls_2".toList)).1.feedAll
          [".It Nm".toList, "text".toList, ".Nm -".toList, ".XX ls".toList]).1).nameText word =
          State.nameText {} "ls_2".toList := by
  have hname : IsWord "ls_2".toList := by simp [IsWord]
  have hlines : ∀ c ∈
      [".It Nm".toList, "text".toList, ".Nm -".toList, ".XX ls".toList].flatMap callsOn,
      c.request = .nm → Text.firstWord? c.args = none := by
    decide +kernel
  have hchars : ∀ c ∈ "ls_2".toList, Text.isWordChar c := by
    have halphanum : ∀ c ∈ "ls_2".toList, c.isAlphanum ∨ c = '_' := by simp
    exact fun c hc => Text.isWordChar_of_isAlphanum (halphanum c hc)
  have hword : ∃ c ∈ "ls_2".toList, Text.isWordChar c := ⟨'l', by decide, hchars _ (by decide)⟩
  obtain ⟨word, hfirst, -, -, hiff⟩ := render_feed_name_repeated hname hword hlines {} _ rfl
  exact ⟨hlines, word, hfirst, (hiff (by decide +kernel)).mpr hchars⟩

/-- A hyphen cuts the name short that is remembered. -/
theorem render_feed_name_hyphen :
    render (State.feed {} ".Nm git-log".toList).2 = " <b>git-log</b> ".toList ∧
      render ((State.feed {} ".Nm git-log".toList).1.feed ".Nm".toList).2 =
        "<br/> <b>git</b> ".toList := by
  decide +kernel

end State

end Manpage
