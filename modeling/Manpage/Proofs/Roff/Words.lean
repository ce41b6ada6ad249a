import Manpage.Proofs.Roff.Escapes
import Manpage.Proofs.Text.Lines
import Manpage.Roff.Inline

/-!
# Words

A word without spaces, quotes and escapes is set as it stands, in every font and in every argument:
each of its characters is written by itself, and the font stays what it was. A space between two
words is written as a plain space, and this is where the words of set text are told apart again.

## Main definitions

* `IsWord`: a word that is set as it stands

## Main results

* `exists_range_of_isAlphanum`: where the characters of names stand
* `State.argument_word`: an argument that is a word
* `State.argument_words`: an argument that is two words
* `Inline.splitWords_two`: two set words are told apart
-/

namespace Manpage

open Markup

/-- A **word** holds no space, no quote and no escape. -/
def IsWord (cs : List Char) : Prop :=
  ∀ c ∈ cs, c ≠ ' ' ∧ c ≠ '"' ∧ c ≠ '\\'

variable {c : Char} {word rest : List Char}

namespace IsWord

theorem append (hword : IsWord word) (hrest : IsWord rest) : IsWord (word ++ rest) := by
  intro c hc
  rcases List.mem_append.mp hc with hc | hc
  · exact hword c hc
  · exact hrest c hc

theorem scan_append (hword : IsWord word) (cs : List Char) :
    Item.scan (word ++ cs) = word.map Item.char ++ Item.scan cs :=
  Manpage.scan_append (fun c hc => (hword c hc).2) cs

theorem scan (hword : IsWord word) : Item.scan word = word.map Item.char := by
  have h := hword.scan_append []
  rwa [List.append_nil, Item.scan, List.append_nil] at h

end IsWord

/-! ## Characters of words -/

/-- The letters, the digits and the underscore of ASCII stand in four ranges. -/
theorem exists_range_of_isAlphanum (h : c.isAlphanum ∨ c = '_') :
    ∃ r ∈ [(0x30, 0x39), (0x41, 0x5A), (0x5F, 0x5F), (0x61, 0x7A)],
      r.1 ≤ c.toNat ∧ c.toNat ≤ r.2 := by
  have hrange : ∀ {a b : UInt32}, a ≤ c.val → c.val ≤ b → a.toNat ≤ c.toNat ∧ c.toNat ≤ b.toNat :=
    fun ha hb => ⟨UInt32.le_iff_toNat_le.mp ha, UInt32.le_iff_toNat_le.mp hb⟩
  rcases h with h | rfl
  · rcases Bool.or_eq_true_iff.mp h with hletter | hdigit
    · rcases Bool.or_eq_true_iff.mp hletter with hupper | hlower
      · obtain ⟨hfirst, hlast⟩ := of_decide_eq_true hupper
        exact ⟨(0x41, 0x5A), by simp, hrange hfirst hlast⟩
      · obtain ⟨hfirst, hlast⟩ := Bool.and_eq_true_iff.mp hlower
        exact ⟨(0x61, 0x7A), by simp, hrange (of_decide_eq_true hfirst) (of_decide_eq_true hlast)⟩
    · obtain ⟨hfirst, hlast⟩ := Bool.and_eq_true_iff.mp hdigit
      exact ⟨(0x30, 0x39), by simp, hrange (of_decide_eq_true hfirst) (of_decide_eq_true hlast)⟩
  · exact ⟨(0x5F, 0x5F), by simp, by decide⟩

/-! ## Escaped words -/

namespace Markup

theorem ofChar_eq_char_iff {d : Char} (hd : d ∉ ['<', '>', '&']) (hrange : ¬ (d < ' ' ∨ '~' < d)) :
    Fragment.ofChar c = .char d ↔ c = d := by
  unfold Fragment.ofChar
  grind

theorem ofChar_ne_newline (c : Char) : Fragment.ofChar c ≠ .newline := by
  unfold Fragment.ofChar
  split_ifs <;> simp

/-- A word is escaped character by character, whatever follows it. -/
theorem escapeBefore_word (hword : IsWord word) (next : Option Char) :
    escapeBefore next word = word.map Fragment.ofChar := by
  induction word with
  | nil => rfl
  | cons c word ih =>
    obtain ⟨⟨hc, -⟩, hrest⟩ := List.forall_mem_cons.mp hword
    rw [escapeBefore, Fragment.ofCharBefore, if_neg fun h => hc h.1, ih hrest, List.map_cons]

theorem escape_word (hword : IsWord word) : escape word = word.map Fragment.ofChar := by
  rw [escape_eq_escapeBefore, escapeBefore_word hword]

/-- A word of plain characters is escaped as itself. -/
theorem escape_of_isPlain (hword : IsWord word) (hplain : ∀ c ∈ word, isPlain c) :
    escape word = word.map .char := by
  rw [escape_word hword]
  exact List.map_congr_left fun c hc => Fragment.ofChar_of_isPlain (hplain c hc)

end Markup

/-! ## Set words -/

namespace RunningText

variable {collapse inQuotes : Bool}

/-- The characters of a word are marks one by one, and a space in front of the word counts only for
what stands behind it if the word is empty. -/
theorem marks_word (hword : IsWord word) (afterSpace : Bool) (items : List Item) :
    marks collapse inQuotes afterSpace (word.map Item.char ++ items) =
      word.map Mark.char ++ marks collapse inQuotes (afterSpace && word.isEmpty) items := by
  induction word generalizing afterSpace with
  | nil => simp
  | cons c word ih =>
    obtain ⟨⟨hc, -⟩, hrest⟩ := List.forall_mem_cons.mp hword
    have hspace : (c == ' ') = false := beq_false_of_ne hc
    rw [List.map_cons, List.cons_append, marks, hspace, Bool.and_false, if_neg Bool.false_ne_true,
      ih hrest, Bool.false_and, List.isEmpty_cons, Bool.and_false]
    rfl

theorem marks_word_nil (hword : IsWord word) (afterSpace : Bool) :
    marks collapse inQuotes afterSpace (word.map Item.char) = word.map Mark.char := by
  have h : marks collapse inQuotes afterSpace (word.map Item.char ++ []) = _ :=
    marks_word hword afterSpace []
  rwa [List.append_nil, marks, List.append_nil] at h

/-- The marks of a word are written as the escaped word. -/
theorem write_word (hword : IsWord word) (f : Font) (ms : List Mark) :
    write f (word.map Mark.char ++ ms) = escape word ++ write f ms := by
  rw [write_chars, escapeBefore_word hword, escape_word hword]

/-- A space is written as it is, unless it comes before another one. -/
theorem writeChar_space {ms : List Mark} (hms : ms.head? ≠ some (.char ' ')) :
    writeChar ' ' ms = .char ' ' := by
  unfold writeChar
  split
  · exact absurd rfl hms
  · rfl

theorem lastFont_append (cs : List Char) (f : Font) (ms : List Mark) :
    lastFont f (cs.map Mark.char ++ ms) = lastFont f ms := by
  induction cs with
  | nil => rfl
  | cons c cs ih => exact ih

theorem lastFont_chars (f : Font) (cs : List Char) : lastFont f (cs.map Mark.char) = f := by
  have h := lastFont_append cs f []
  rwa [List.append_nil] at h

end RunningText

namespace State

open RunningText

variable {s : State}

/-- The line break that ends each piece of preformatted text. -/
def lineEnd (s : State) : List Fragment :=
  if s.inPreformatted then [.newline] else []

/-- **A word is set as it stands**, and the font stays what it was. -/
theorem argument_word (hword : IsWord word) :
    s.argument word = (s, escape word ++ s.lineEnd) := by
  have hmarks : textMarks true word = word.map Mark.char := by
    rw [textMarks, hword.scan, marks_word_nil hword]
  rw [argument, setText, hmarks, write_chars_nil, lastFont_chars]
  rfl

/-- **Two words are set with a plain space between them.** -/
theorem argument_words (hword : IsWord word) (hrest : IsWord rest) :
    s.argument (word ++ ' ' :: rest) =
      (s, escape word ++ .char ' ' :: (escape rest ++ s.lineEnd)) := by
  have hscan : Item.scan (word ++ ' ' :: rest) =
      word.map Item.char ++ .char ' ' :: rest.map Item.char := by
    rw [hword.scan_append, scan_plain (by decide) (absurd · (by decide)), hrest.scan]
  have hmarks : textMarks true (word ++ ' ' :: rest) =
      word.map Mark.char ++ .char ' ' :: rest.map Mark.char := by
    rw [textMarks, hscan, marks_word hword, marks, Bool.false_and, Bool.and_false,
      Bool.false_and, if_neg Bool.false_ne_true, marks_word_nil hrest]
  have hspace : writeChar ' ' (rest.map Mark.char) = .char ' ' := by
    refine writeChar_space fun hhead => ?_
    rw [List.head?_map] at hhead
    obtain ⟨c, hc, heq⟩ := Option.map_eq_some_iff.mp hhead
    exact (hrest c (List.mem_of_head? hc)).1 (Mark.char.inj heq)
  have hfont :
      lastFont s.font (word.map Mark.char ++ .char ' ' :: rest.map Mark.char) = s.font := by
    have h := lastFont_chars s.font (word ++ ' ' :: rest)
    rwa [List.map_append] at h
  rw [argument, setText, hmarks, hfont, write_word hword, write, hspace, write_chars_nil,
    List.append_assoc, List.cons_append]
  rfl

end State

namespace Inline

/-- **Two set words are told apart** by the plain space between them. -/
theorem splitWords_two {first second : List Fragment} (hfirst : .char ' ' ∉ first)
    (hsecond : .char ' ' ∉ second) :
    splitWords (first ++ .char ' ' :: second) = [first, second] := by
  have hpieces : ∀ {fs : List Fragment}, .char ' ' ∉ fs →
      Text.pieces (· == .char ' ') fs = [fs] := fun hfs =>
    Text.pieces_of_forall fun f hf => beq_false_of_ne (ne_of_mem_of_not_mem hf hfs)
  rw [splitWords, Text.pieces_append_cons (by decide), hpieces hfirst, hpieces hsecond,
    List.singleton_append]

/-- A set word holds no plain space. -/
theorem notMem_escape (hword : IsWord word) : .char ' ' ∉ escape word := by
  rw [escape_word hword]
  intro hmem
  obtain ⟨c, hc, heq⟩ := List.mem_map.mp hmem
  exact (hword c hc).1 ((ofChar_eq_char_iff (by decide) (by decide)).mp heq)

end Inline

end Manpage
