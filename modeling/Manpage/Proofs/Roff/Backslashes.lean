import Manpage.Proofs.Roff.CommandName
import Manpage.Proofs.Roff.Escapes
import Manpage.Proofs.Roff.Lines
import Manpage.Proofs.Roff.Notes
import Manpage.Proofs.Text.Lines
import Manpage.Proofs.Text.Trim
import Mathlib.Data.List.Infix

/-!
# Backslashes in what is written

A text whose escapes are finished and stand for no backslash is set without one. So all requests
write such an argument without backslashes, except for two that write parts of it as they stand: the
note on another page, and the parts of a prototype in preformatted text.

## Main definitions

* `Benign`: texts whose escapes are finished and stand for no backslash
* `Call.writesRaw`: the calls that write a backslash of their argument as it stands

## Main results

* `State.not_mem_setText`: a benign text is set without a backslash
* `State.leaks_feedAll`: a run of lines writes a backslash only in these calls
-/

namespace Manpage

open Markup

/-! ## Benign texts -/

/-- Texts whose escapes are finished and stand for no backslash: behind each backslash stands a
character other than a backslash, an `e` or a double quote, and no glyph of a backslash is called by
its name. -/
structure Benign (cs : List Char) : Prop where
  followed : ∀ after, '\\' :: after <:+ cs → ∃ c ∈ after.head?, c ∉ ['\\', 'e', '"']
  glyph : ¬ ['\\', '(', 'r', 's'] <:+: cs
  longGlyph : ¬ ['\\', '[', 'r', 's', ']'] <:+: cs

namespace Benign

variable {cs ds after : List Char}

theorem of_suffix (h : Benign cs) (hds : ds <:+ cs) : Benign ds where
  followed after hafter := h.followed after (hafter.trans hds)
  glyph hglyph := h.glyph (hglyph.trans hds.isInfix)
  longGlyph hglyph := h.longGlyph (hglyph.trans hds.isInfix)

/-- What stands before a double quote is benign if all of the text is. -/
theorem of_append (h : Benign (cs ++ after)) (hafter : ∀ c ∈ after.head?, c = '"') :
    Benign cs where
  followed rest hrest := by
    have hall : '\\' :: (rest ++ after) <:+ cs ++ after := by
      obtain ⟨before, rfl⟩ := hrest
      exact ⟨before, by simp⟩
    obtain ⟨c, hc, hne⟩ := h.followed _ hall
    cases rest with
    | nil =>
      obtain rfl := hafter c hc
      exact absurd (by decide) hne
    | cons d rest => exact ⟨c, hc, hne⟩
  glyph hglyph := h.glyph (hglyph.trans (List.prefix_append cs after).isInfix)
  longGlyph hglyph := h.longGlyph (hglyph.trans (List.prefix_append cs after).isInfix)

end Benign

theorem Benign.of_mem_quotedArguments {args piece : List Char} (h : Benign args)
    (hpiece : piece ∈ quotedArguments args) : Benign piece := by
  obtain ⟨before, after, rfl, hafter⟩ :=
    Text.exists_append_of_mem_pieces (List.mem_filter.mp hpiece).1
  refine (h.of_suffix (List.suffix_append before _)).of_append fun c hc => ?_
  exact beq_iff_eq.mp (hafter c hc)

/-! ## Escapes -/

/-- The glyph of a backslash has one name. -/
theorem Glyph.eq_of_mem_text {name : List Char} (h : '\\' ∈ Glyph.text name) :
    name = ['r', 's'] := by
  have htable : ∀ entry ∈ Glyph.table, entry.2 = '\\' → entry.1 = "rs" := by decide +kernel
  have hlookup : Glyph.table.lookup (String.ofList name) = some '\\' := Option.mem_toList.mp h
  have hentry : (String.ofList name, '\\') ∈ Glyph.table := by
    obtain ⟨left, right, htable, -⟩ := List.lookup_eq_some_iff.mp hlookup
    exact htable ▸ List.mem_append_right _ List.mem_cons_self
  exact String.ofList_injective (htable _ hentry rfl)

/-- The escapes of benign texts stand for no backslash. -/
theorem StandsFor.not_mem {cs part rest : List Char} (h : StandsFor cs part rest)
    (hcs : Benign ('\\' :: cs)) : '\\' ∉ part := by
  obtain ⟨c, hc, hne⟩ := hcs.followed cs List.suffix_rfl
  cases h with
  | @glyph a b =>
    intro hmem
    obtain ⟨rfl, rfl⟩ : a = 'r' ∧ b = 's' := by simpa using Glyph.eq_of_mem_text hmem
    exact hcs.glyph (List.prefix_append ['\\', '(', 'r', 's'] rest).isInfix
  | @longGlyph name =>
    intro hmem
    obtain rfl := Glyph.eq_of_mem_text hmem
    exact hcs.longGlyph (List.prefix_append ['\\', '[', 'r', 's', ']'] rest).isInfix
  | backslash =>
    obtain rfl := Option.some.inj hc
    exact absurd (by decide) hne
  | @itself d =>
    obtain rfl := Option.some.inj hc
    intro hmem
    exact hne (List.mem_singleton.mp hmem ▸ by decide)
  | space => decide
  | unfinishedGlyph | unfinishedLongGlyph | font | unfinishedFont | string | unfinishedString |
    nothing => decide

/-- **A benign text stands for a text without backslashes.** -/
theorem Resolves.not_mem {collapse q p : Bool} {cs text : List Char}
    (h : Resolves collapse q p cs text) (hcs : Benign cs) : '\\' ∉ text := by
  induction h with
  | nil => exact List.not_mem_nil
  | quote _ ih | dropped _ _ ih => exact ih (hcs.of_suffix (List.suffix_cons _ _))
  | @char q p c cs text _ hlast _ _ ih =>
    have hc : c ≠ '\\' := by
      rintro rfl
      obtain rfl := hlast rfl
      obtain ⟨d, hd, -⟩ := hcs.followed [] List.suffix_rfl
      exact absurd hd (by simp)
    exact List.not_mem_cons_of_ne_of_not_mem hc.symm (ih (hcs.of_suffix (List.suffix_cons _ _)))
  | escape hpart _ ih =>
    have hrest := hcs.of_suffix (hpart.suffix.trans (List.suffix_cons _ _))
    exact List.not_mem_append (hpart.not_mem hcs) (ih hrest)

/-! ## Text that is set -/

namespace State

variable {cs : List Char} (s : State)

/-- **A benign text is set without a backslash.** -/
theorem not_mem_setText (collapse : Bool) (h : Benign cs) :
    .char '\\' ∉ (s.setText collapse cs).2 := by
  intro hmem
  have hplain : '\\' ∈ (s.setText collapse cs).2.flatMap Fragment.plain :=
    List.mem_flatMap.mpr ⟨.char '\\', hmem, List.mem_singleton_self _⟩
  rw [s.plain_setText, List.mem_append] at hplain
  rcases hplain with htext | hend
  · exact (resolves_markText collapse false false cs).not_mem h htext
  · split_ifs at hend <;> simp at hend

theorem not_mem_text (h : Benign cs) : .char '\\' ∉ (s.text cs).2 := s.not_mem_setText false h

theorem not_mem_argument (h : Benign cs) : .char '\\' ∉ (s.argument cs).2 :=
  s.not_mem_setText true h

end State

/-! ## Requests -/

section Requests

variable (s : State) {args : List Char}

/-! ### Requests for the structure of a page -/

namespace Block

theorem not_mem_title (h : Benign args) : .char '\\' ∉ (title s args).2 := by
  unfold title
  cases hargs : quotedArguments args with
  | nil => exact List.not_mem_nil
  | cons name rest =>
    have hname : Benign name := h.of_mem_quotedArguments (hargs ▸ List.mem_cons_self)
    simpa using s.not_mem_text hname

theorem not_mem_sectionHead (h : Benign args) : .char '\\' ∉ (sectionHead s args).2 := by
  have hbefore : .char '\\' ∉ (if s.inSection then [Fragment.divisionEnd] else []) := by
    split_ifs <;> simp
  unfold sectionHead
  cases hargs : quotedArguments args with
  | nil => exact hbefore
  | cons name rest =>
    have hname : Benign name := h.of_mem_quotedArguments (hargs ▸ List.mem_cons_self)
    refine List.not_mem_append hbefore ?_
    simpa [sectionFrame] using s.not_mem_argument hname

theorem not_mem_paragraph : .char '\\' ∉ (paragraph s).2 := by
  unfold paragraph
  split_ifs <;> simp

theorem not_mem_listStart : .char '\\' ∉ listStart := by decide

theorem not_mem_listEnd : .char '\\' ∉ listEnd := by decide

theorem not_mem_startPreformatted {s : State} : .char '\\' ∉ (startPreformatted s).2 := by
  simp [startPreformatted]

theorem not_mem_hanging (h : Benign args) : .char '\\' ∉ (hanging s args).2 := by
  unfold hanging
  split
  · next term hterm =>
    have hbenign : Benign term := by
      unfold term? at hterm
      split at hterm
      · cases hterm
      · exact h.of_mem_quotedArguments (List.mem_of_mem_head? hterm)
      · split_ifs at hterm
        obtain rfl := Option.some.inj hterm
        exact h
    simpa using s.not_mem_argument hbenign
  · exact not_mem_listStart

theorem not_mem_leaveIndent : .char '\\' ∉ (leaveIndent s).2 := by
  unfold leaveIndent
  split_ifs
  · exact not_mem_listEnd
  · exact List.not_mem_nil

theorem not_mem_countdown : .char '\\' ∉ (countdown s).2 := by
  unfold countdown
  split <;> simp

theorem not_mem_endPreformatted (h : Benign args) : .char '\\' ∉ (endPreformatted s args).2 := by
  simpa [endPreformatted] using { s with inPreformatted := false }.not_mem_argument h

theorem not_mem_description (h : Benign args) : .char '\\' ∉ (description s args).2 :=
  List.not_mem_append (by decide) (s.not_mem_argument h)

end Block

/-! ### Requests for words -/

namespace Inline

theorem not_mem_styled (es : List Element) (h : Benign args) :
    .char '\\' ∉ (styled es s args).2 := by
  simpa [styled] using s.not_mem_argument h

/-- Words of a text without a backslash, each without one. -/
theorem not_mem_of_mem_splitWords {text word : List Fragment} (h : .char '\\' ∉ text)
    (hw : word ∈ splitWords text) : .char '\\' ∉ word :=
  fun hmem => h (Text.mem_of_mem_pieces hw hmem)

theorem not_mem_joinWith {ws : List (List Fragment)} (h : ∀ w ∈ ws, .char '\\' ∉ w) :
    .char '\\' ∉ Text.joinWith [.char ' '] ws := by
  intro hmem
  rcases Text.mem_joinWith hmem with hgap | ⟨w, hw, hmem⟩
  · exact absurd hgap (by decide)
  · exact h w hw hmem

theorem not_mem_flags (h : Benign args) : .char '\\' ∉ (flags s args).2 := by
  refine List.not_mem_cons_of_ne_of_not_mem (by decide) (not_mem_joinWith fun w hw => ?_)
  obtain ⟨word, hword, rfl⟩ := List.mem_map.mp hw
  have hclean : .char '\\' ∉ word :=
    not_mem_of_mem_splitWords (s.not_mem_argument h) (List.mem_filter.mp hword).1
  unfold dashed
  split_ifs
  · exact List.not_mem_cons_of_ne_of_not_mem (by decide) hclean
  · exact hclean

theorem not_mem_optionalWords {dash italic : Bool} {ws : List (List Fragment)}
    (h : ∀ w ∈ ws, .char '\\' ∉ w) : ∀ w ∈ optionalWords dash italic ws, .char '\\' ∉ w := by
  induction ws generalizing dash italic with
  | nil => simp [optionalWords]
  | cons word rest ih =>
    obtain ⟨hword, hrest⟩ := List.forall_mem_cons.mp h
    rw [optionalWords]
    dsimp only
    split_ifs
    · exact ih hrest
    · exact ih hrest
    all_goals
      refine List.forall_mem_cons.mpr ⟨?_, ih hrest⟩
      simp [hword]

theorem not_mem_optional (h : Benign args) : .char '\\' ∉ (optional s args).2 := by
  have hwords : .char '\\' ∉ Text.joinWith [.char ' ']
      (optionalWords false false (words (s.argument args).2)) :=
    not_mem_joinWith (not_mem_optionalWords fun w hw =>
      not_mem_of_mem_splitWords (s.not_mem_argument h) (List.mem_filter.mp hw).1)
  simpa [optional] using hwords

theorem not_mem_boldFirst {ws : List (List Fragment)} (h : ∀ w ∈ ws, .char '\\' ∉ w) :
    .char '\\' ∉ boldFirst ws := by
  cases ws with
  | nil => simp [boldFirst]
  | cons word rest =>
    obtain ⟨hword, hrest⟩ := List.forall_mem_cons.mp h
    simpa [boldFirst, hword] using hrest

theorem not_mem_referenceWords {ws : List (List Fragment)} (h : ∀ w ∈ ws, .char '\\' ∉ w) :
    .char '\\' ∉ referenceWords ws := by
  unfold referenceWords
  split
  · next page sect =>
    have hpage := h page List.mem_cons_self
    split
    · next number rest hs =>
      have hword := h sect (List.mem_cons_of_mem _ List.mem_cons_self)
      have hnumber : .char '\\' ∉ number := fun hmem => hword ((subset_of_section? hs).1 hmem)
      have hrest : .char '\\' ∉ rest := fun hmem => hword ((subset_of_section? hs).2 hmem)
      simp [pageLink, wording, hpage, hnumber, hrest]
    · exact not_mem_boldFirst h
  · exact not_mem_boldFirst h

theorem not_mem_reference (h : Benign args) : .char '\\' ∉ (reference s args).2 := by
  unfold reference
  split_ifs
  · exact List.not_mem_cons_of_ne_of_not_mem (by decide) List.not_mem_nil
  · exact not_mem_referenceWords fun w hw =>
      not_mem_of_mem_splitWords (s.not_mem_argument h) hw

end Inline

end Requests

/-! ### The name of the command -/

/-- Whether the name of the command holds no backslash, if it is known. -/
def State.NameIsPlain (s : State) : Prop :=
  ∀ name ∈ s.commandName, '\\' ∉ name

theorem Benign.of_not_mem {cs : List Char} (h : '\\' ∉ cs) : Benign cs where
  followed _ hafter := absurd (hafter.subset List.mem_cons_self) h
  glyph hglyph := h (hglyph.subset List.mem_cons_self)
  longGlyph hglyph := h (hglyph.subset List.mem_cons_self)

theorem Text.not_mem_firstWord {args word : List Char} (h : Text.firstWord? args = some word) :
    '\\' ∉ word :=
  fun hmem => absurd (Text.isWordChar_of_firstWord h _ hmem) (by decide +kernel)

namespace Inline

variable {s : State} {args : List Char}

theorem nameIsPlain_commandName (hname : s.NameIsPlain) (args : List Char) :
    (commandName s args).1.NameIsPlain := by
  intro name hmem
  rcases Option.or_eq_some_iff.mp hmem with hfirst | ⟨-, hknown⟩
  · exact Text.not_mem_firstWord hfirst
  · exact hname name hknown

/-- What is written for the name of the command is the argument or the name that is known. -/
theorem benign_nameToWrite (hname : s.NameIsPlain) (h : Benign args) :
    Benign (nameToWrite s args) := by
  unfold nameToWrite
  split
  · next name _ hknown =>
    split_ifs
    · exact h
    · exact .of_not_mem (hname name hknown)
  · exact h

/-- The name of the command is written without a backslash, be it new or known. -/
theorem not_mem_commandName (hname : s.NameIsPlain) (h : Benign args) :
    .char '\\' ∉ (commandName s args).2 := by
  have hbreak : .char '\\' ∉ if s.lastLine.any isControl then [Fragment.lineBreak] else [] := by
    split_ifs <;> simp
  have hwritten : Benign (nameToWrite (commandName s args).1 args) :=
    benign_nameToWrite (nameIsPlain_commandName hname args) h
  exact List.not_mem_append hbreak (not_mem_styled _ [.b] hwritten)

end Inline

/-! ### Arguments that are written as they stand -/

theorem Markup.mem_escape_iff {cs : List Char} : .char '\\' ∈ escape cs ↔ '\\' ∈ cs := by
  have hchar : ∀ c : Char, Fragment.char '\\' = .ofChar c ↔ '\\' = c := by
    intro c
    rw [eq_comm, ofChar_eq_char_iff (by decide) (by decide), eq_comm]
  fun_induction escape cs with
  | case1 => simp
  | case2 cs ih => simpa using ih
  | case3 c cs _ ih =>
    rw [List.mem_cons, List.mem_cons]
    exact or_congr (hchar c) ih

/-- The note on another page writes its reference as it stands. -/
theorem Block.mem_pointer_iff {args : List Char} :
    .char '\\' ∈ pointer args ↔ ∃ first ∈ (quotedArguments args).head?, '\\' ∈ first := by
  unfold pointer
  cases quotedArguments args with
  | nil => simp
  | cons first rest =>
    obtain ⟨hpage, hsect⟩ := pointerTarget_subset (Text.trim first)
    have htrim : '\\' ∈ Text.trim first ↔ '\\' ∈ first := Text.mem_trim_iff (by decide)
    have hparts : '\\' ∈ Text.trim first ∨ '\\' ∈ (pointerTarget (Text.trim first)).1 ∨
        '\\' ∈ (pointerTarget (Text.trim first)).2 ↔ '\\' ∈ first := by
      rw [htrim]
      exact ⟨fun h => h.elim id fun h => htrim.mp (h.elim (hpage ·) (hsect ·)), Or.inl⟩
    simpa [wording, mem_escape_iff] using hparts

theorem mem_quotedArguments_iff {args : List Char} :
    (∃ part ∈ quotedArguments args, '\\' ∈ part) ↔ '\\' ∈ args := by
  constructor
  · rintro ⟨part, hpart, hmem⟩
    exact Text.mem_of_mem_pieces (List.mem_filter.mp hpart).1 hmem
  · intro h
    obtain ⟨part, hpart, hmem⟩ := Text.exists_mem_pieces (· == '"') h (by decide)
    refine ⟨part, List.mem_filter.mpr ⟨hpart, ?_⟩, hmem⟩
    have hblank : Text.isBlankText part = false :=
      List.all_eq_false.mpr ⟨'\\', hmem, by decide⟩
    rw [hblank]
    rfl

/-- Quoted arguments in preformatted text are written as they stand. -/
theorem Inline.mem_boldItalic_iff {s : State} {args : List Char} (h : Benign args) :
    .char '\\' ∈ (boldItalic s args).2 ↔
      s.inPreformatted ∧ '"' ∈ args ∧ '\\' ∈ args := by
  unfold boldItalic
  split_ifs with hparts
  · obtain ⟨hpre, hquote⟩ := Bool.and_eq_true_iff.mp hparts
    simpa [hpre, List.contains_iff_mem.mp hquote, mem_escape_iff] using mem_quotedArguments_iff
  · have htext := s.not_mem_argument h
    have hnone : ¬ (s.inPreformatted ∧ '"' ∈ args ∧ '\\' ∈ args) := by
      rintro ⟨hpre, hquote, -⟩
      exact hparts (by simp [hpre, hquote])
    simp [htext, hnone]

/-! ## Lines -/

/-- **The calls that write a backslash of their argument as it stands**: a note on another page
whose reference holds one, and a prototype in preformatted text one of whose parts does. -/
def Call.writesRaw (s : State) (c : Call) : Bool :=
  match c.request with
  | .so => (quotedArguments c.args).head?.any (·.contains '\\')
  | .bi => s.inPreformatted && c.args.contains '"' && c.args.contains '\\'
  | _ => false

namespace State

variable {s : State} {nested : List Char → State → State × List Fragment}
  {calls : List Char → List Call} {r : Request} {args : List Char}

theorem NameIsPlain.perform (hname : s.NameIsPlain) (hit : r ≠ .it) :
    (s.perform nested r args).1.NameIsPlain := by
  by_cases hnm : r = .nm
  · rw [hnm]
    exact Inline.nameIsPlain_commandName hname args
  · rw [NameIsPlain, commandName_perform hit hnm]
    exact hname

theorem NameIsPlain.leaveIndent (hname : s.NameIsPlain) :
    (Block.leaveIndent s).1.NameIsPlain := by
  unfold Block.leaveIndent
  split_ifs <;> exact hname

theorem NameIsPlain.countdown (hname : s.NameIsPlain) : (Block.countdown s).1.NameIsPlain := by
  unfold Block.countdown
  split <;> exact hname

/-- A request that makes no other one writes a backslash only as it stands in the argument. -/
theorem mem_perform_iff (hname : s.NameIsPlain) (h : Benign args) (hit : r ≠ .it) :
    .char '\\' ∈ (s.perform nested r args).2 ↔ Call.writesRaw s ⟨r, args⟩ := by
  have hnone : ∀ {fs : List Fragment}, .char '\\' ∉ fs →
      (.char '\\' ∈ fs ↔ false = true) := fun hfs => by simp [hfs]
  cases r with
  | it => exact absurd rfl hit
  | so =>
    refine Block.mem_pointer_iff.trans ?_
    cases h : (quotedArguments args).head? <;> simp [Call.writesRaw, h]
  | bi =>
    refine (Inline.mem_boldItalic_iff h).trans ?_
    simp [Call.writesRaw, and_assoc]
  | th | dt => exact hnone (Block.not_mem_title s h)
  | sh => exact hnone (Block.not_mem_sectionHead s h)
  | pp | lp | p | sp => exact hnone (Block.not_mem_paragraph s)
  | tp | ie | nh | ad => exact hnone List.not_mem_nil
  | ip => exact hnone (Block.not_mem_hanging s h)
  | bl | rs => exact hnone Block.not_mem_listStart
  | el | re => exact hnone Block.not_mem_listEnd
  | nf => exact hnone Block.not_mem_startPreformatted
  | fi => exact hnone (Block.not_mem_endPreformatted s h)
  | nd => exact hnone (Block.not_mem_description s h)
  | nm => exact hnone (Inline.not_mem_commandName hname h)
  | b | i | ar | ri | rb | ir | ib => exact hnone (Inline.not_mem_styled s _ h)
  | br => exact hnone (Inline.not_mem_reference s h)
  | fl => exact hnone (Inline.not_mem_flags s h)
  | op => exact hnone (Inline.not_mem_optional s h)

/-- Whether `nested` keeps the name of the command plain, and writes a backslash of a benign
argument only in the `calls` that write it as it stands. -/
def LeaksInCalls (nested : List Char → State → State × List Fragment)
    (calls : List Char → List Call) : Prop :=
  ∀ args s, Benign args → s.NameIsPlain → (nested args s).1.NameIsPlain ∧
    (.char '\\' ∈ (nested args s).2 ↔ ∃ c ∈ calls args, c.writesRaw s)

theorem leaks_request (hn : LeaksInCalls nested calls) (hname : s.NameIsPlain) (h : Benign args)
    (r : Request) :
    (s.request nested r args).1.NameIsPlain ∧
      (.char '\\' ∈ (s.request nested r args).2 ↔ ∃ c ∈ r.calls calls args, c.writesRaw s) := by
  by_cases hit : r = .it
  · rw [hit]
    obtain ⟨hnext, hwrites⟩ := hn args s h hname
    refine ⟨hnext, ?_⟩
    have hlist : .char '\\' ∈ Block.listStart ++ (nested args s).2 ++ Block.listEnd ↔
        .char '\\' ∈ (nested args s).2 := by
      simp [Block.not_mem_listStart, Block.not_mem_listEnd]
    refine (hlist.trans hwrites).trans ?_
    simp [Request.calls, Call.writesRaw]
  · have hcalls : r.calls calls args = [⟨r, args⟩] := by
      cases r with
      | it => exact absurd rfl hit
      | _ => rfl
    rw [hcalls]
    unfold request
    split_ifs
    · have hraw : Call.writesRaw (Block.leaveIndent s).1 ⟨r, args⟩ =
          Call.writesRaw s ⟨r, args⟩ := by
        simp only [Call.writesRaw, Block.inPreformatted_leaveIndent]
      have hwrites := @mem_perform_iff _ nested r args hname.leaveIndent h hit
      rw [hraw] at hwrites
      exact ⟨hname.leaveIndent.perform hit, by simp [Block.not_mem_leaveIndent, hwrites]⟩
    · exact ⟨hname.perform hit, by simp [mem_perform_iff hname h hit]⟩

/-- The argument of a request ends its line. -/
theorem splitRequest_suffix (body : List Char) : (splitRequest body).2 <:+ body := by
  unfold splitRequest
  cases h : Text.cut? (fun c => c == ' ' || c == '\t') body with
  | none => exact List.nil_suffix
  | some parts =>
    obtain ⟨x, hx⟩ := Text.eq_of_cut?_eq_some h
    exact ⟨parts.1 ++ [x], by simp [hx]⟩

theorem leaks_requestLine (hn : LeaksInCalls nested calls) :
    LeaksInCalls (requestLine nested) (callsBy calls) := by
  intro body s hbody hname
  unfold requestLine callsBy
  cases hr : Request.ofName? (splitRequest body).1 with
  | none => simp [hr, hname]
  | some r =>
    simp only [hr]
    exact leaks_request hn hname (hbody.of_suffix (splitRequest_suffix body)) r

theorem leaks_control (depth : Nat) : LeaksInCalls (control depth) (callsWithin depth) := by
  induction depth with
  | zero => exact leaks_requestLine fun _ _ _ hname => ⟨hname, by simp⟩
  | succ depth ih => exact leaks_requestLine ih

/-- One benign line writes a backslash only in the calls that write one as it stands. -/
theorem leaks_feed (hname : s.NameIsPlain) {line : List Char} (h : Benign line) :
    (s.feed line).1.NameIsPlain ∧
      (.char '\\' ∈ (s.feed line).2 ↔ ∃ c ∈ callsOn line, c.writesRaw s) := by
  unfold feed setLine callsOn
  split_ifs
  · exact ⟨hname, by simp⟩
  · obtain ⟨hnext, hwrites⟩ :=
      leaks_control maxNesting (line.drop 1) s (h.of_suffix (List.drop_suffix 1 line)) hname
    exact ⟨hnext.countdown, by simpa [Block.not_mem_countdown] using hwrites⟩
  · have htext : (s.text line).1.NameIsPlain := hname
    exact ⟨htext.countdown, by simp [s.not_mem_text h, Block.not_mem_countdown]⟩

/-- **A run of benign lines writes a backslash only in the calls that write one as it stands.** -/
theorem leaks_feedAll (hname : s.NameIsPlain) {lines : List (List Char)}
    (h : ∀ line ∈ lines, Benign line) :
    .char '\\' ∈ (s.feedAll lines).2 ↔ ∃ x ∈ s.performed lines, x.2.writesRaw x.1 := by
  induction lines generalizing s with
  | nil => simp [feedAll, performed]
  | cons line lines ih =>
    obtain ⟨hline, hlines⟩ := List.forall_mem_cons.mp h
    obtain ⟨hnext, hwrites⟩ := leaks_feed hname hline
    have hrest := ih hnext hlines
    rw [feedAll, performed]
    dsimp only
    rw [List.mem_append, hwrites, hrest]
    simp [or_and_right, exists_or]

end State

end Manpage
