import Manpage.Proofs.Markup.Rendered
import Manpage.Proofs.Roff.Lines
import Manpage.Proofs.Text.Lines
import Mathlib.Data.List.DropRight

/-!
# Optional parts of a synopsis

An optional part writes every word of its argument once and in order, apart from the words `fl` and
`ar`, which say how the next word is set: with a dash in front, or in italics. What they say is used
up by that word, so how a word is set is told by the words between it and the word before it that is
written. The words are those of the argument as it is set, with its tags and references in them.

## Main definitions

* `textWords`: the words of a written text
* `isSwitchedOn`: whether a switch stands behind the last word that is written
* `shownWords`: the words of an optional part as they are written

## Main results

* `Inline.textWords_render`: the words of a text are those of its fragments
* `Inline.map_render_optionalWords`: what a loop over words with two switches writes
* `State.render_feed_optional`: what an optional part writes
-/

namespace Manpage

open Markup

/-! ## Words as they are written -/

/-- The words of a written text: what stands between its spaces. -/
def textWords (text : List Char) : List (List Char) :=
  (Text.pieces (· == ' ') text).filter (· ≠ [])

/-- Whether a word reads `name`, whatever the case of its letters. -/
def readsAs (name : String) (word : List Char) : Bool :=
  word.map Char.toLower == name.toList

/-- The **switches** are not written, but say how the next word is set. -/
def isSwitch (word : List Char) : Bool :=
  readsAs "fl" word || readsAs "ar" word

/-- Whether one of the switches at the end of the words `before` reads `name`: those that no word
has used up. -/
def isSwitchedOn (name : String) (before : List (List Char)) : Bool :=
  (before.rtakeWhile isSwitch).any (readsAs name)

/-- A word as it is written behind the words `before`: with a dash behind `fl`, and in italics, the
dash included, behind `ar`. -/
def shownBehind (before : List (List Char)) (word : List Char) : List Char :=
  let word := if isSwitchedOn "fl" before then '-' :: word else word
  if isSwitchedOn "ar" before then "<i>".toList ++ word ++ "</i>".toList else word

/-- **The words of an optional part as they are written**: all words but the switches, each set as
the words before it say. -/
def shownWords (words : List (List Char)) : List (List Char) :=
  (words.zipIdx.filter fun (word, _) => !isSwitch word).map fun (word, i) =>
    shownBehind (words.take i) word

/-- The text of an optional part whose argument is set as `text`. -/
def optionalText (text : List Char) : List Char :=
  " [".toList ++ Text.joinWith [' '] (shownWords (textWords text)) ++ "]".toList

variable {name : String} {before : List (List Char)} {word : List Char} {fs : List Fragment}

/-- A switch adds itself to those behind the last word that is written, and such a word uses them
up. -/
theorem isSwitchedOn_concat :
    isSwitchedOn name (before ++ [word]) =
      (isSwitch word && (isSwitchedOn name before || readsAs name word)) := by
  unfold isSwitchedOn
  cases hword : isSwitch word with
  | true => simp [hword]
  | false => simp [hword]

namespace Inline

/-! ## The words of fragments -/

/-- The space of a written text is the plain space between words. -/
theorem notMem_chars_of_isInline {newlines : Bool} {f : Fragment} (h : f.isInline newlines)
    (hf : f ≠ .char ' ') : ' ' ∉ f.chars := by
  cases f with
  | char c =>
    rw [Fragment.chars, List.mem_singleton]
    rintro rfl
    exact hf rfl
  | code n =>
    have hdigits : ' ' ∉ Nat.toDigits 10 n := fun hmem =>
      absurd (Nat.isDigit_of_mem_toDigits (by decide) (by decide) hmem) (by decide)
    simp [Fragment.chars, hdigits]
  | opening e | closing e => cases e <;> decide
  | less | greater | ampersand | blank | newline => decide
  | _ => exact absurd h Bool.false_ne_true

theorem pieces_render {newlines : Bool} (h : IsInline newlines fs) :
    Text.pieces (· == ' ') (render fs) = (splitWords fs).map render := by
  induction fs with
  | nil => rfl
  | cons f fs ih =>
    obtain ⟨hf, hfs⟩ := isInline_cons.mp h
    rw [render_cons, splitWords, Text.pieces_cons, ← splitWords]
    by_cases hspace : f = .char ' '
    · rw [hspace, if_pos (by decide), Fragment.chars, List.singleton_append, Text.pieces_cons,
        if_pos (by decide), ih hfs, List.map_cons, render_nil]
    · have hchars : ∀ c ∈ f.chars, (c == ' ') = false := fun c hc =>
        beq_false_of_ne (ne_of_mem_of_not_mem hc (notMem_chars_of_isInline hf hspace))
      obtain ⟨first, rest, hwords⟩ :=
        List.exists_cons_of_ne_nil (Text.pieces_ne_nil (· == .char ' ') fs)
      have hsplit : splitWords fs = first :: rest := hwords
      rw [if_neg (by simpa using hspace), Text.pieces_append hchars, ih hfs, hsplit, List.map_cons,
        List.modifyHead_cons, List.modifyHead_cons, List.map_cons, render_cons]

/-- **The words of a text** are those of its fragments. -/
theorem textWords_render {newlines : Bool} (h : IsInline newlines fs) :
    textWords (render fs) = (words fs).map render := by
  have hempty : ∀ word : List Fragment, render word = [] ↔ word = [] := by
    intro word
    cases word <;> simp [Fragment.chars_ne_nil]
  rw [textWords, pieces_render h, List.filter_map, words]
  congr 1
  refine List.filter_congr fun word _ => ?_
  simp [hempty]

theorem render_joinWith (gap : List Fragment) (ws : List (List Fragment)) :
    render (Text.joinWith gap ws) = Text.joinWith (render gap) (ws.map render) := by
  fun_induction Text.joinWith gap ws with
  | case1 => rfl
  | case2 word => rfl
  | case3 word ws hws ih =>
    obtain ⟨next, rest, rfl⟩ := List.exists_cons_of_ne_nil hws
    rw [render_append, render_append, ih]
    rfl

/-! ## The loop over words -/

/-- A word with a dash or without, in italics or not. -/
theorem render_shownBehind (before : List (List Char)) (word : List Fragment) :
    render (
      let word := if isSwitchedOn "fl" before then .char '-' :: word else word
      if isSwitchedOn "ar" before then .opening .i :: word ++ [.closing .i] else word) =
        shownBehind before (render word) := by
  unfold shownBehind
  cases isSwitchedOn "fl" before <;> cases isSwitchedOn "ar" before <;>
    simp [Fragment.chars, Element.name]

/-- **The loop over words** writes each word but the switches as the words before it say, the words
`before` the first one included. -/
theorem map_render_optionalWords (before : List (List Char)) (ws : List (List Fragment)) :
    (optionalWords (isSwitchedOn "fl" before) (isSwitchedOn "ar" before) ws).map render =
      (((ws.map render).zipIdx before.length).filter fun (word, _) => !isSwitch word).map
        fun (word, i) => shownBehind ((before ++ ws.map render).take i) word := by
  induction ws generalizing before with
  | nil => rfl
  | cons word ws ih =>
    have hrest := ih (before ++ [render word])
    rw [isSwitchedOn_concat, isSwitchedOn_concat, List.length_append, List.length_singleton,
      List.append_assoc, List.singleton_append] at hrest
    have hfl : reads word "fl" = readsAs "fl" (render word) := rfl
    have har : reads word "ar" = readsAs "ar" (render word) := rfl
    rw [optionalWords, hfl, har, List.map_cons, List.zipIdx_cons]
    by_cases hdash : readsAs "fl" (render word)
    · have hitalic : readsAs "ar" (render word) = false := by
        rw [readsAs, eq_of_beq hdash]
        decide
      have hswitch : isSwitch (render word) := by simp [isSwitch, hdash]
      rw [if_pos hdash, List.filter_cons_of_neg (by simp [hswitch]), ← hrest]
      simp [hswitch, hdash, hitalic]
    · by_cases hitalic : readsAs "ar" (render word)
      · have hswitch : isSwitch (render word) := by simp [isSwitch, hitalic]
        rw [if_neg hdash, if_pos hitalic, List.filter_cons_of_neg (by simp [hswitch]), ← hrest]
        simp [hswitch, hdash, hitalic]
      · have hswitch : isSwitch (render word) = false := by simp [isSwitch, hdash, hitalic]
        rw [hswitch, Bool.false_and, Bool.false_and] at hrest
        rw [if_neg hdash, if_neg hitalic, List.filter_cons_of_pos (by simp [hswitch]),
          List.map_cons, List.map_cons, ← hrest, render_shownBehind]
        simp

/-- **An optional part** writes its words between brackets. -/
theorem render_optional (s : State) (args : List Char) :
    render (optional s args).2 = optionalText (render (s.argument args).2) := by
  have hloop := map_render_optionalWords [] (words (s.argument args).2)
  have hwords := textWords_render (s.isInline_argument args)
  have hopening : render [.char ' ', .char '['] = " [".toList := rfl
  have hclosing : render [.char ']'] = "]".toList := rfl
  have hspace : render [.char ' '] = [' '] := rfl
  rw [optional]
  dsimp only
  rw [render_append, render_append, render_joinWith, hopening, hclosing, hspace, optionalText,
    shownWords, hwords]
  exact congrArg (fun shown => _ ++ Text.joinWith [' '] shown ++ _) hloop

end Inline

namespace State

/-- **What an optional part writes**, wherever it is asked for: in brackets and with single spaces
between them the words of its argument as it is set, all but the switches, each once and in order; a
word has a dash if a switch `fl` stands between it and the word before it that is written, and is in
italics if a switch `ar` does. A line adds to this only the tags of the countdown of indents. -/
theorem render_feed_optional (s : State) (args : List Char) :
    (∀ nested, render (s.request nested .op args).2 =
        optionalText (render (s.argument args).2)) ∧
      render (s.feed (".Op ".toList ++ args)).2 =
        optionalText (render (s.argument args).2) ++ render (Block.countdown s).2 := by
  constructor
  · intro nested
    exact Inline.render_optional s args
  · have hline : ".Op ".toList ++ args = '.' :: 'O' :: 'p' :: ' ' :: args := rfl
    have hrequest : Request.ofName? (splitRequest ('O' :: 'p' :: ' ' :: args)).1 = some .op := rfl
    have hperform : s.perform (control 7) .op (splitRequest ('O' :: 'p' :: ' ' :: args)).2 =
        ((s.argument args).1, (Inline.optional s args).2) := rfl
    have hcountdown : (Block.countdown (s.argument args).1).2 = (Block.countdown s).2 :=
      Block.snd_countdown_congr rfl
    rw [hline, feed_perform_of_not_ends hrequest rfl hperform, hcountdown, render_append,
      Inline.render_optional]

/-- Switches are read in any case, add up in either order, and hold for one word. -/
example : optionalText "fl f Ar FL file x ar".toList = " [-f <i>-file</i> x]".toList := by
  decide +kernel

end State

end Manpage
