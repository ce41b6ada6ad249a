import Manpage.Proofs.Roff.Fonts
import Manpage.Roff.Line

/-!
# What requests weigh

What a request writes weighs three things: its frame, which are the tags of the structure that it
opens and closes; the change of the font, since every text is written with the tags of its fonts;
and the changes of the font in a text that is written again, which is the name of a section or the
page of a reference.

## Main definitions

* `Request.frame`: the tags of structure that a request writes
* `Request.rewrites`: the changes of the font that a request writes again

## Main results

* `Inline.tally_words`: words weigh what their text weighs
* `State.tally_perform`: what a request weighs
-/

namespace Manpage

open Markup

variable {w : Fragment → Int}

/-! ## Words -/

section Pieces

variable {sep : Fragment → Bool} {gap text : List Fragment} {ws : List (List Fragment)}

/-- Cutting at what weighs nothing does not change the weight. -/
theorem tally_pieces (hsep : ∀ f, sep f → w f = 0) :
    ((Text.pieces sep text).map (tally w)).sum = tally w text := by
  induction text with
  | nil => rfl
  | cons f text ih =>
    rw [Text.pieces, tally_cons, ← ih]
    by_cases hf : sep f
    · rw [if_pos hf, hsep f hf]
      simp
    · rw [if_neg hf]
      cases Text.pieces sep text with
      | nil => simp
      | cons piece rest => simp [Int.add_assoc]

theorem tally_joinWith (hgap : tally w gap = 0) :
    tally w (Text.joinWith gap ws) = (ws.map (tally w)).sum := by
  fun_induction Text.joinWith gap ws with
  | case1 => rfl
  | case2 piece => simp
  | case3 piece rest _ ih => simp [hgap, ih]

theorem prefix_of_pieces_eq_cons {piece : List Fragment} (h : Text.pieces sep text = piece :: ws) :
    piece <+: text := by
  induction text generalizing piece ws with
  | nil =>
    obtain ⟨rfl, -⟩ := List.cons.inj h
    exact List.nil_prefix
  | cons f text ih =>
    rw [Text.pieces] at h
    by_cases hf : sep f
    · rw [if_pos hf] at h
      obtain ⟨rfl, -⟩ := List.cons.inj h
      exact List.nil_prefix
    · rw [if_neg hf] at h
      cases hpieces : Text.pieces sep text with
      | nil =>
        rw [hpieces] at h
        obtain ⟨rfl, -⟩ := List.cons.inj h
        exact List.cons_prefix_cons.mpr ⟨rfl, List.nil_prefix⟩
      | cons first rest =>
        rw [hpieces] at h
        obtain ⟨rfl, -⟩ := List.cons.inj h
        exact List.cons_prefix_cons.mpr ⟨rfl, ih hpieces⟩

end Pieces

namespace Inline

variable {text word : List Fragment} {ws : List (List Fragment)}

theorem tally_space (hw : IsTagWeight w) : tally w [.char ' '] = 0 :=
  hw.tally_eq_zero (by simp [Fragment.isTag])

theorem tally_splitWords (hw : IsTagWeight w) :
    ((splitWords text).map (tally w)).sum = tally w text :=
  tally_pieces fun f hf => by
    rw [eq_of_beq hf]
    exact hw.weightless _ rfl

/-- **Words weigh what their text weighs.** -/
theorem tally_words (hw : IsTagWeight w) : ((words text).map (tally w)).sum = tally w text := by
  rw [← tally_splitWords hw, words]
  induction splitWords text with
  | nil => rfl
  | cons word ws ih =>
    by_cases hword : word = []
    · simpa [hword] using ih
    · simpa [hword] using ih

theorem tally_dashed (hw : IsTagWeight w) : tally w (dashed word) = tally w word := by
  unfold dashed
  split_ifs
  · rw [tally_cons, hw.weightless _ rfl, Int.zero_add]
  · rfl

/-- A word that reads as a name without `<` weighs nothing. -/
theorem tally_of_reads (hw : IsTagWeight w) {name : String} (hname : '<' ∉ name.toList)
    (h : reads word name) : tally w word = 0 := by
  refine hw.tally_eq_zero fun f hf => ?_
  cases htag : f.isTag with
  | false => rfl
  | true =>
    have hmem : '<' ∈ f.chars := by
      cases f <;> simp_all [Fragment.isTag, Fragment.chars]
    have hrender : '<' ∈ (render word).map Char.toLower :=
      List.mem_map.mpr ⟨'<', List.mem_flatMap.mpr ⟨f, hf, hmem⟩, by decide⟩
    rw [eq_of_beq h] at hrender
    exact absurd hrender hname

theorem tally_optionalWords (hw : IsTagWeight w) {dash italic : Bool} :
    ((optionalWords dash italic ws).map (tally w)).sum = (ws.map (tally w)).sum := by
  have hitalic := hw.italic
  induction ws generalizing dash italic with
  | nil => simp [optionalWords]
  | cons word rest ih =>
    rw [optionalWords, List.map_cons, List.sum_cons]
    dsimp only
    split
    · next hfl => rw [ih, tally_of_reads hw (by decide) hfl, Int.zero_add]
    · split
      · next har => rw [ih, tally_of_reads hw (by decide) har, Int.zero_add]
      · rw [List.map_cons, List.sum_cons, ih]
        congr 1
        cases dash <;> cases italic <;> simp [hw.char] <;> omega

/-- A section weighs nothing, and a word that names it weighs what follows the section. -/
theorem tally_of_section? (hw : IsTagWeight w) {sect rest : List Fragment}
    (h : section? word = some (sect, rest)) :
    tally w sect = 0 ∧ tally w word = tally w rest := by
  unfold section? at h
  split at h
  · obtain ⟨-, rfl, rfl⟩ := by simpa using h
    simp [hw.char]
  · obtain ⟨-, rfl, rfl⟩ := by simpa using h
    simp [hw.char]
  · exact absurd h (by simp)

theorem tally_boldFirst (hw : IsTagWeight w) :
    tally w (boldFirst ws) = (ws.map (tally w)).sum := by
  have hbold := hw.bold
  cases ws with
  | nil =>
    simp only [boldFirst, tally_cons, tally_nil, hw.char, List.map_nil, List.sum_nil]
    omega
  | cons word rest =>
    have hrest : tally w (rest.flatMap (.char ' ' :: ·)) = (rest.map (tally w)).sum := by
      induction rest with
      | nil => rfl
      | cons word rest ih => simp [hw.char, ih]
    simp only [boldFirst, tally_append, tally_cons, tally_nil, hw.char, hrest, List.map_cons,
      List.sum_cons]
    omega

/-- The page that a reference links to, by the words of its text. -/
def linkedPage? : List (List Fragment) → Option (List Fragment)
  | [page, sect] => (section? sect).map fun _ => page
  | _ => none

/-- A reference weighs what its words weigh, and its page weighs twice if it is a link. -/
theorem tally_referenceWords (hw : IsTagWeight w) :
    tally w (referenceWords ws) =
      (ws.map (tally w)).sum + ((linkedPage? ws).toList.map (tally w)).sum := by
  unfold referenceWords
  split
  · next page sect =>
    rw [linkedPage?]
    cases hs : section? sect with
    | none => simp [tally_boldFirst hw]
    | some found =>
      obtain ⟨number, rest⟩ := found
      obtain ⟨hnumber, hrest⟩ := tally_of_section? hw hs
      have hbold := hw.bold
      have hman : tally w (wording "/man") = 0 := hw.tally_eq_zero (by decide)
      simp only [pageLink, tally_append, tally_cons, tally_nil, hw.char, hnumber, hman,
        hw.anchorStart, hw.valueEnd, hw.anchorEnd,
        List.map_cons, List.map_nil, List.sum_cons, List.sum_nil, Option.map_some,
        Option.toList_some, hrest]
      omega
  · next hnot =>
    have hnone : linkedPage? ws = none := by
      unfold linkedPage?
      split
      · next page sect => exact absurd rfl (hnot page sect)
      · rfl
    rw [tally_boldFirst hw, hnone]
    simp

end Inline

/-! ## Frames -/

/-- The tags of structure that a request writes. -/
def Request.frame (s : State) (args : List Char) : Request → List Fragment
  | .th | .dt =>
    if quotedArguments args = [] then [] else [.pageStart, .opening .h1, .closing .h1]
  | .sh =>
    (if s.inSection then [.divisionEnd] else []) ++
      if quotedArguments args = [] then [] else [.sectionStart, .opening .h2, .closing .h2]
  | .pp | .lp | .p | .sp => (if s.inParagraph then [.closing .p] else []) ++ [.opening .p]
  | .so =>
    if quotedArguments args = [] then []
    else [.pageStart, .sectionStart, .opening .h2, .closing .h2, .divisionEnd, .divisionEnd]
  | .ip =>
    if Block.term? args = none then Block.listStart
    else [.opening .dl, .opening .dt, .closing .dt, .opening .dd]
  | .bl | .rs => Block.listStart
  | .el | .re => Block.listEnd
  | .nf => [.opening .pre]
  | .fi => [.closing .pre]
  | _ => []

/-- The changes of the font that a request writes again: the name of a section is written three
times, and the page of a reference that is a link twice. Each change is the font before it and the
font after it. -/
def Request.rewrites (s : State) (args : List Char) : Request → List (Font × Font)
  | .sh =>
    match quotedArguments args with
    | [] => []
    | name :: _ => List.replicate 2 (s.font, (s.argument name).1.font)
  | .br =>
    ((Inline.linkedPage? (Inline.splitWords (s.argument args).2)).bind s.font.read?).toList.map
      (s.font, ·)
  | _ => []

/-- What changes of the font weigh together. -/
def Font.changes (w : Fragment → Int) (cs : List (Font × Font)) : Int :=
  (cs.map fun c => c.2.weight w - c.1.weight w).sum

theorem Font.changes_cons (c : Font × Font) (cs : List (Font × Font)) :
    changes w (c :: cs) = c.2.weight w - c.1.weight w + changes w cs := by
  rw [changes, List.map_cons, List.sum_cons, changes]

theorem Font.changes_eq_zero (h : ∀ f : Font, f.weight w = 0) (cs : List (Font × Font)) :
    changes w cs = 0 := by
  induction cs with
  | nil => rfl
  | cons c cs ih => rw [changes_cons, h, h, ih, Int.sub_self, Int.add_zero]

/-- Where only the tags of one font count, changes of the font weigh as many as lead into it, less
those that lead out of it. -/
theorem Font.changes_eq_countP_sub {f : Font} (h : ∀ g : Font, g.weight w = if g = f then 1 else 0)
    (cs : List (Font × Font)) :
    changes w cs = (cs.countP (·.2 = f) : Int) - cs.countP (·.1 = f) := by
  induction cs with
  | nil => rfl
  | cons c cs ih =>
    rw [changes_cons, ih, h, h, List.countP_cons, List.countP_cons]
    simp only [decide_eq_true_eq]
    push_cast
    ring

theorem isTag_of_mem_escape (cs : List Char) : ∀ f ∈ escape cs, f.isTag = false := by
  fun_induction escape cs with
  | case1 => simp
  | case2 cs ih => exact List.forall_mem_cons.mpr ⟨rfl, ih⟩
  | case3 c cs _ ih => exact List.forall_mem_cons.mpr ⟨RunningText.isTag_ofChar c, ih⟩

namespace Block

variable (s : State) (args : List Char)

theorem tally_title (hw : IsTagWeight w) :
    tally w (title s args).2 = tally w (Request.th.frame s args) +
      ((title s args).1.font.weight w - s.font.weight w) := by
  unfold title Request.frame
  cases quotedArguments args with
  | nil => simp
  | cons name _ =>
    simp [s.tally_text name hw]
    ring

theorem tally_sectionHead (hw : IsTagWeight w) :
    tally w (sectionHead s args).2 = tally w (Request.sh.frame s args) +
      ((sectionHead s args).1.font.weight w - s.font.weight w) +
      Font.changes w (Request.sh.rewrites s args) := by
  unfold sectionHead Request.frame Request.rewrites
  cases quotedArguments args with
  | nil => simp [Font.changes]
  | cons name _ =>
    simp [Font.changes, sectionFrame, s.tally_argument name hw, hw.char, hw.sectionClass,
      hw.anchorStart, hw.valueEnd, hw.anchorEnd]
    ring

theorem tally_pointer (hw : IsTagWeight w) :
    tally w (pointer args) = tally w (Request.so.frame s args) := by
  have hbold := hw.bold
  have hwording : ∀ words, tally w (wording words) = 0 := fun words =>
    hw.tally_eq_zero (by simp [wording, Fragment.isTag])
  have hescape : ∀ cs, tally w (escape cs) = 0 := fun cs =>
    hw.tally_eq_zero (isTag_of_mem_escape cs)
  unfold pointer Request.frame
  cases quotedArguments args with
  | nil => rfl
  | cons name _ =>
    simp [hwording, hescape, hw.char, hw.sectionClass, hw.anchorStart, hw.valueEnd, hw.anchorEnd]
    omega

theorem tally_hanging (hw : IsTagWeight w) :
    tally w (hanging s args).2 = tally w (Request.ip.frame s args) +
      ((hanging s args).1.font.weight w - s.font.weight w) := by
  unfold hanging Request.frame
  cases term? args with
  | none => simp
  | some term =>
    simp [s.tally_argument term hw]
    ring

theorem tally_endPreformatted (hw : IsTagWeight w) :
    tally w (endPreformatted s args).2 = tally w (Request.fi.frame s args) +
      ((endPreformatted s args).1.font.weight w - s.font.weight w) := by
  have htext := { s with inPreformatted := false }.tally_argument args hw
  simp [endPreformatted, Request.frame, hw.char, htext]

theorem tally_description (hw : IsTagWeight w) :
    tally w (description s args).2 =
      (description s args).1.font.weight w - s.font.weight w := by
  have hdash : tally w (wording " - ") = 0 := hw.tally_eq_zero (by decide)
  simp [description, hdash, s.tally_argument args hw]

end Block

namespace Inline

variable (s : State) (args : List Char)

theorem tally_styled (hw : IsTagWeight w) (es : List Element) (hes : ∀ e ∈ es, e = .b ∨ e = .i) :
    tally w (styled es s args).2 =
      (styled es s args).1.font.weight w - s.font.weight w := by
  have htags : tally w (es.map .opening) + tally w (es.reverse.map .closing) = 0 := by
    induction es with
    | nil => rfl
    | cons e es ih =>
      obtain ⟨he, hes⟩ := List.forall_mem_cons.mp hes
      have hpair : w (.opening e) + w (.closing e) = 0 := by
        rcases he with rfl | rfl
        · exact hw.bold
        · exact hw.italic
      have := ih hes
      simp only [List.map_cons, List.reverse_cons, List.map_append, List.map_nil, tally_cons,
        tally_append, tally_nil]
      omega
  simp only [styled, tally_cons, tally_append, tally_nil, hw.char, s.tally_argument args hw]
  omega

theorem tally_boldItalic (hw : IsTagWeight w) :
    tally w (boldItalic s args).2 =
      (boldItalic s args).1.font.weight w - s.font.weight w := by
  have hbold := hw.bold
  have hitalic := hw.italic
  unfold boldItalic
  split_ifs
  · have hparts : tally w ((quotedArguments args).flatMap escape) = 0 :=
      hw.tally_eq_zero fun f hf => by
        obtain ⟨part, -, hf⟩ := List.mem_flatMap.mp hf
        exact isTag_of_mem_escape part f hf
    simp only [tally_append, tally_cons, tally_nil, hw.char, hparts, hw.weightless .newline rfl]
    omega
  · simp only [tally_append, tally_cons, tally_nil, hw.char, s.tally_argument args hw]
    omega

theorem tally_flags (hw : IsTagWeight w) :
    tally w (flags s args).2 = (flags s args).1.font.weight w - s.font.weight w := by
  have hdashed : (((words (s.argument args).2).map dashed).map (tally w)).sum =
      tally w (s.argument args).2 := by
    rw [List.map_map, ← tally_words hw]
    congr 1
    exact List.map_congr_left fun word _ => tally_dashed hw
  simp only [flags, tally_cons, hw.char, tally_joinWith (tally_space hw), hdashed, Int.zero_add,
    s.tally_argument args hw]

theorem tally_optional (hw : IsTagWeight w) :
    tally w (optional s args).2 = (optional s args).1.font.weight w - s.font.weight w := by
  simp [optional, hw.char, tally_joinWith (tally_space hw), tally_optionalWords hw,
    tally_words hw, s.tally_argument args hw]

theorem tally_commandName (hw : IsTagWeight w) :
    tally w (commandName s args).2 =
      (commandName s args).1.font.weight w - s.font.weight w := by
  have hbreak : tally w (if s.lastLine.any isControl then [.lineBreak] else []) = 0 := by
    split_ifs
    · exact hw.tally_eq_zero (by simp [Fragment.isTag])
    · rfl
  have hname := tally_styled { s with commandName := (Text.firstWord? args).or s.commandName }
    (nameToWrite { s with commandName := (Text.firstWord? args).or s.commandName } args) hw [.b]
    (by simp)
  rw [commandName, tally_append, hbreak, Int.zero_add]
  exact hname

/-- The page of a reference starts its text, so it weighs the change of the font that is read in
it. -/
theorem tally_linkedPage? (hw : IsTagWeight w) {newlines : Bool} {text : List Fragment} {f g : Font}
    (htext : IsInline newlines text) (hread : f.read? text = some g) :
    ((linkedPage? (splitWords text)).toList.map (tally w)).sum =
      Font.changes w (((linkedPage? (splitWords text)).bind f.read?).toList.map (f, ·)) := by
  cases hpage : linkedPage? (splitWords text) with
  | none => rfl
  | some page =>
    have hstarts : page <+: text := by
      unfold linkedPage? at hpage
      split at hpage
      · next hwords =>
        obtain ⟨-, -, rfl⟩ := Option.map_eq_some_iff.mp hpage
        exact prefix_of_pieces_eq_cons hwords
      · exact absurd hpage (Option.some_ne_none _).symm
    obtain ⟨k, hk⟩ := Font.exists_read?_of_prefix hread hstarts
    have hinline : IsInline newlines page := fun f hf => htext f (hstarts.subset hf)
    simp [Font.changes, hk, Font.tally_of_read? hw hinline hk]

/-- A reference writes its page again if it is a link. -/
theorem tally_reference (hw : IsTagWeight w) :
    tally w (reference s args).2 = (reference s args).1.font.weight w - s.font.weight w +
      Font.changes w (Request.br.rewrites s args) := by
  have hpage := tally_linkedPage? hw (s.isInline_argument args) (s.read?_setText true args)
  unfold reference Request.rewrites
  split_ifs with hargs
  · have htext : (s.argument []).2 = if s.inPreformatted then [.newline] else [] := by
      simp [State.argument, State.setText, RunningText.textMarks, Item.scan, RunningText.marks,
        RunningText.write]
    have hnone : linkedPage? (splitWords (s.argument []).2) = none := by
      rw [htext]
      split_ifs <;> rfl
    simp [hargs, hnone, Font.changes, hw.weightless .lineBreak rfl]
  · dsimp only
    rw [tally_referenceWords hw, tally_splitWords hw, s.tally_argument args hw]
    exact congrArg _ hpage

end Inline

/-! ## Requests -/

/-- **What a request weighs**, unless it makes another one: its frame, the change of the font, and
the changes of the font that it writes again. -/
theorem State.tally_perform (hw : IsTagWeight w)
    {nested : List Char → State → State × List Fragment} (s : State) {r : Request} (hr : r ≠ .it)
    (args : List Char) :
    tally w (s.perform nested r args).2 = tally w (r.frame s args) +
      ((s.perform nested r args).1.font.weight w - s.font.weight w) +
      Font.changes w (r.rewrites s args) := by
  suffices h : r ≠ .sh → r ≠ .br → tally w (s.perform nested r args).2 = tally w (r.frame s args) +
      ((s.perform nested r args).1.font.weight w - s.font.weight w) by
    cases r with
    | sh => exact Block.tally_sectionHead s args hw
    | br => simpa [Request.frame, State.perform] using Inline.tally_reference s args hw
    | _ => simpa [Request.rewrites, Font.changes] using h
  intro hsh hbr
  cases r with
  | it => exact absurd rfl hr
  | sh => exact absurd rfl hsh
  | br => exact absurd rfl hbr
  | th | dt => exact Block.tally_title s args hw
  | pp | lp | p | sp =>
    simp only [State.perform, Block.paragraph, Request.frame, Int.sub_self, Int.add_zero]
  | so => simpa [State.perform] using Block.tally_pointer s args hw
  | ip => exact Block.tally_hanging s args hw
  | fi => exact Block.tally_endPreformatted s args hw
  | tp | bl | rs | el | re | nf | ie | nh | ad =>
    simp [State.perform, Request.frame, Block.startPreformatted]
  | nd => exact (Block.tally_description s args hw).trans (Int.zero_add _).symm
  | nm => exact (Inline.tally_commandName s args hw).trans (Int.zero_add _).symm
  | b | i | ar | ri | rb | ir | ib =>
    exact (Inline.tally_styled s args hw _ (by simp)).trans (Int.zero_add _).symm
  | bi => exact (Inline.tally_boldItalic s args hw).trans (Int.zero_add _).symm
  | fl => exact (Inline.tally_flags s args hw).trans (Int.zero_add _).symm
  | op => exact (Inline.tally_optional s args hw).trans (Int.zero_add _).symm

end Manpage
