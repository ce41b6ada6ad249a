import Manpage.Proofs.Markup.PlainText
import Manpage.Proofs.Roff.RunningText
import Mathlib.Data.List.TakeWhile

/-!
# The grammar of escapes

Which plain text a piece of running text stands for, said by a grammar and without any reference
to how the text is set. Setting a text writes the plain text that the grammar gives to it, no
matter in which state: nothing is lost or doubled where an escape or a change of font cuts the
text into parts.

## Main definitions

* `IsName`: the names of fonts and of strings
* `StandsFor`: what the escape behind a backslash stands for
* `Resolves`: the plain text of a piece of running text

## Main results

* `resolves_iff`: the grammar gives every text one plain text, the one its marks spell
* `State.resolves_iff_plainText_setText`: a text is set as the plain text that it stands for
-/

namespace Manpage

/-! ## The grammar -/

/-- How the name of a font or of a string starts a text, with the rest of the text behind it: the
name is one character, two behind a parenthesis, or all up to a closing bracket. An unfinished
long name runs to the end. -/
inductive IsName : (cs rest : List Char) → Prop
  | short {c : Char} {rest : List Char} : c ≠ '(' → c ≠ '[' → IsName (c :: rest) rest
  | pair {a b : Char} {rest : List Char} : IsName ('(' :: a :: b :: rest) rest
  | unfinishedPair {cs : List Char} : cs.length < 2 → IsName ('(' :: cs) []
  | bracketed {name rest : List Char} : ']' ∉ name → IsName ('[' :: (name ++ ']' :: rest)) rest
  | unfinishedBracket {cs : List Char} : ']' ∉ cs → IsName ('[' :: cs) []

/-- A name takes a part of the text at its start. -/
theorem IsName.suffix {cs rest : List Char} (h : IsName cs rest) : rest <:+ cs := by
  cases h with
  | short => exact List.suffix_cons _ _
  | @pair a b => exact List.suffix_append ['(', a, b] rest
  | unfinishedPair | unfinishedBracket => exact List.nil_suffix
  | @bracketed name => exact ⟨'[' :: (name ++ [']']), by simp⟩

/-- The characters that say behind a backslash that something else follows or is meant. All other
characters stand for themselves there. -/
def escapeChars : List Char := ['f', '(', '[', '*', '&', '^', '|', ':', 'e', '0', '~']

/-- What the escape behind a backslash stands for, with the rest of the text behind it. -/
inductive StandsFor : (cs text rest : List Char) → Prop
  | glyph {a b : Char} {rest : List Char} :
      StandsFor ('(' :: a :: b :: rest) (Glyph.text [a, b]) rest
  | unfinishedGlyph {rest : List Char} : rest.length < 2 → StandsFor ('(' :: rest) ['('] rest
  | longGlyph {name rest : List Char} :
      ']' ∉ name → StandsFor ('[' :: (name ++ ']' :: rest)) (Glyph.text name) rest
  | unfinishedLongGlyph {rest : List Char} : ']' ∉ rest → StandsFor ('[' :: rest) ['['] rest
  | font {cs rest : List Char} : IsName cs rest → StandsFor ('f' :: cs) [] rest
  | unfinishedFont : StandsFor ['f'] ['f'] []
  | string {cs rest : List Char} : IsName cs rest → StandsFor ('*' :: cs) [] rest
  /-- The name of the string is missing, so it is unfinished and runs to the end. -/
  | unfinishedString : StandsFor ['*'] [] []
  | nothing {c : Char} {rest : List Char} :
      c ∈ ['&', '^', '|', ':'] → StandsFor (c :: rest) [] rest
  | backslash {rest : List Char} : StandsFor ('e' :: rest) ['\\'] rest
  | space {c : Char} {rest : List Char} : c ∈ ['0', '~'] → StandsFor (c :: rest) [' '] rest
  | itself {c : Char} {rest : List Char} : c ∉ escapeChars → StandsFor (c :: rest) [c] rest

/-- An escape takes a part of the text at its start. -/
theorem StandsFor.suffix {cs part rest : List Char} (h : StandsFor cs part rest) : rest <:+ cs := by
  cases h with
  | @glyph a b => exact List.suffix_append ['(', a, b] rest
  | @longGlyph name => exact ⟨'[' :: (name ++ [']']), by simp⟩
  | font hname | string hname => exact hname.suffix.trans (List.suffix_cons _ _)
  | unfinishedFont | unfinishedString => exact List.nil_suffix
  | unfinishedGlyph | unfinishedLongGlyph | nothing | backslash | space | itself =>
    exact List.suffix_cons _ _

/-- **The plain text of a piece of running text**, read from inside or outside quotes and with or
without a plain space as the last item before it. With `collapse`, a space outside quotes is
dropped behind a plain space. A backslash at the end of the text stands for itself. -/
inductive Resolves (collapse : Bool) : (inQuotes afterSpace : Bool) → (cs text : List Char) → Prop
  | nil {q p : Bool} : Resolves collapse q p [] []
  | quote {q p : Bool} {cs text : List Char} :
      Resolves collapse (!q) p cs text → Resolves collapse q p ('"' :: cs) text
  | dropped {cs text : List Char} :
      collapse → Resolves collapse false true cs text →
        Resolves collapse false true (' ' :: cs) text
  | char {q p : Bool} {c : Char} {cs text : List Char} :
      c ≠ '"' → (c = '\\' → cs = []) → ¬ (collapse ∧ q = false ∧ p ∧ c = ' ') →
        Resolves collapse q (c == ' ') cs text → Resolves collapse q p (c :: cs) (c :: text)
  | escape {q p : Bool} {cs part rest text : List Char} :
      StandsFor cs part rest → Resolves collapse q false rest text →
        Resolves collapse q p ('\\' :: cs) (part ++ text)

/-! ## The text of marks -/

/-- The text that an escape leaves. -/
def Escape.plain : Escape → List Char
  | font _ => []
  | text cs => cs

/-- The text of a mark. -/
def Mark.plain : Mark → List Char
  | char c => [c]
  | seam | font _ => []

section Marks

open Markup RunningText

variable (e : Escape) (f : Font) (ms : List Mark)

theorem plain_escapeMarks : (escapeMarks e).flatMap Mark.plain = e.plain := by
  cases e with
  | font f => rfl
  | text cs =>
    show (cs.map Mark.char).flatMap Mark.plain = cs
    induction cs with
    | nil => rfl
    | cons c cs ih => exact congrArg (c :: ·) ih

theorem plain_writeChar (c : Char) : (writeChar c ms).plain = [c] := by
  unfold writeChar
  split
  · split_ifs with hspace
    · rw [hspace]
      rfl
    · exact plain_ofChar c
  · exact plain_ofChar c

/-- Marks are written as what they spell, whatever the fonts. -/
theorem plain_write : (write f ms).flatMap Fragment.plain = ms.flatMap Mark.plain := by
  fun_induction write f ms with
  | case1 => rfl
  | case2 f c rest ih =>
    rw [List.flatMap_cons, List.flatMap_cons, plain_writeChar, ih]
    rfl
  | case3 f rest ih => exact ih
  | case4 f g rest ih =>
    have hclosing : f.closing.flatMap Fragment.plain = [] := by cases f <;> rfl
    have hopening : g.opening.flatMap Fragment.plain = [] := by cases g <;> rfl
    rw [List.flatMap_append, List.flatMap_append, hclosing, hopening, ih]
    rfl

end Marks

/-! ## The grammar and the scanner -/

section Escapes

open Item

variable {c : Char} {cs name rest part : List Char}

theorem afterBracket_append (h : ']' ∉ name) : afterBracket (name ++ ']' :: rest) = rest := by
  have hname : ∀ x ∈ name, decide (x ≠ ']') :=
    fun x hx => decide_eq_true (ne_of_mem_of_not_mem hx h)
  rw [afterBracket, List.dropWhile_append_of_pos hname, List.dropWhile_cons_of_neg (by decide)]
  rfl

theorem afterBracket_of_not_mem (h : ']' ∉ cs) : afterBracket cs = [] := by
  have hcs : ∀ x ∈ cs, decide (x ≠ ']') :=
    fun x hx => decide_eq_true (ne_of_mem_of_not_mem hx h)
  rw [afterBracket, List.dropWhile_eq_nil_iff.mpr hcs]
  rfl

theorem bracketedGlyph_append (h : ']' ∉ name) :
    bracketedGlyph (name ++ ']' :: rest) = (.text (Glyph.text name), rest) := by
  have hname : ∀ x ∈ name, decide (x ≠ ']') :=
    fun x hx => decide_eq_true (ne_of_mem_of_not_mem hx h)
  rw [bracketedGlyph, if_pos (List.mem_append_right _ List.mem_cons_self), afterBracket_append h,
    List.takeWhile_append_of_pos hname, List.takeWhile_cons_of_neg (by decide), List.append_nil]

/-- Some name starts every text that is not empty, and no text starts with two of them. -/
theorem isName_iff : IsName (c :: cs) rest ↔ afterStringName (c :: cs) = rest := by
  constructor
  · intro h
    cases h with
    | short hparen hbracket =>
      unfold afterStringName
      split
      all_goals simp_all
    | pair => rfl
    | unfinishedPair hlength => exact List.drop_eq_nil_of_le (Nat.le_of_lt hlength)
    | bracketed hname => exact afterBracket_append hname
    | unfinishedBracket hcs => exact afterBracket_of_not_mem hcs
  · rintro rfl
    unfold afterStringName
    split
    case h_1 heq => exact absurd heq (List.cons_ne_nil _ _)
    case h_2 ds heq =>
      obtain ⟨rfl, rfl⟩ := List.cons.inj heq
      rcases cs with - | ⟨a, - | ⟨b, ds⟩⟩
      · exact .unfinishedPair (by decide)
      · exact .unfinishedPair (Nat.lt_add_one 1)
      · exact .pair
    case h_3 ds heq =>
      obtain ⟨rfl, rfl⟩ := List.cons.inj heq
      by_cases h : ']' ∈ cs
      · obtain ⟨name, rest, rfl, hname⟩ := List.eq_append_cons_of_mem h
        rw [afterBracket_append hname]
        exact .bracketed hname
      · rw [afterBracket_of_not_mem h]
        exact .unfinishedBracket h
    case h_4 d ds hparen hbracket heq =>
      obtain ⟨rfl, rfl⟩ := List.cons.inj heq
      exact .short hparen hbracket

/-- A change of font writes no text, and takes the name of the font. -/
theorem fontEscape_cons :
    (fontEscape (c :: cs)).1.plain = [] ∧
      (fontEscape (c :: cs)).2 = afterStringName (c :: cs) := by
  unfold fontEscape
  split
  all_goals simp_all [Escape.plain, Escape.nothing, afterStringName]

theorem parenthesizedGlyph_of_length_lt (h : cs.length < 2) :
    parenthesizedGlyph cs = (.char '(', cs) := by
  rcases cs with - | ⟨a, - | ⟨b, cs⟩⟩
  · rfl
  · rfl
  · exact absurd h (by simp)

/-- A character without a meaning of its own behind a backslash is escaped as itself. -/
theorem escapeAfter_of_not_mem (h : c ∉ escapeChars) : escapeAfter c cs = (.char c, cs) := by
  unfold escapeAfter
  split
  all_goals first | rfl | exact absurd (by decide) h

/-- **An escape stands for what it leaves**, and the text goes on where the escape ends. -/
theorem standsFor_iff :
    StandsFor (c :: cs) part rest ↔
      (escapeAfter c cs).1.plain = part ∧ (escapeAfter c cs).2 = rest := by
  constructor
  · intro h
    cases h with
    | glyph | unfinishedFont | unfinishedString | backslash => exact ⟨rfl, rfl⟩
    | unfinishedGlyph hlength =>
      show (parenthesizedGlyph cs).1.plain = _ ∧ (parenthesizedGlyph cs).2 = _
      rw [parenthesizedGlyph_of_length_lt hlength]
      exact ⟨rfl, rfl⟩
    | longGlyph hname =>
      show (bracketedGlyph _).1.plain = _ ∧ (bracketedGlyph _).2 = _
      rw [bracketedGlyph_append hname]
      exact ⟨rfl, rfl⟩
    | unfinishedLongGlyph hrest =>
      show (bracketedGlyph cs).1.plain = _ ∧ (bracketedGlyph cs).2 = _
      rw [bracketedGlyph, if_neg hrest]
      exact ⟨rfl, rfl⟩
    | font hname =>
      cases cs with
      | nil => cases hname
      | cons d ds => exact ⟨fontEscape_cons.1, fontEscape_cons.2.trans (isName_iff.mp hname)⟩
    | string hname =>
      cases cs with
      | nil => cases hname
      | cons d ds => exact ⟨rfl, isName_iff.mp hname⟩
    | nothing hc =>
      simp only [List.mem_cons, List.not_mem_nil, or_false] at hc
      rcases hc with rfl | rfl | rfl | rfl <;> exact ⟨rfl, rfl⟩
    | space hc =>
      simp only [List.mem_cons, List.not_mem_nil, or_false] at hc
      rcases hc with rfl | rfl <;> exact ⟨rfl, rfl⟩
    | itself hc =>
      rw [escapeAfter_of_not_mem hc]
      exact ⟨rfl, rfl⟩
  · rintro ⟨rfl, rfl⟩
    by_cases hc : c ∈ escapeChars
    · simp only [escapeChars, List.mem_cons, List.not_mem_nil, or_false] at hc
      rcases hc with rfl | rfl | rfl | rfl | rfl | rfl | rfl | rfl | rfl | rfl | rfl
      · cases cs with
        | nil => exact .unfinishedFont
        | cons d ds =>
          have hfont : StandsFor ('f' :: d :: ds) [] (afterStringName (d :: ds)) :=
            .font (isName_iff.mpr rfl)
          rwa [← fontEscape_cons.1, ← fontEscape_cons.2] at hfont
      · rcases cs with - | ⟨a, - | ⟨b, cs⟩⟩
        · exact .unfinishedGlyph (by decide)
        · exact .unfinishedGlyph (Nat.lt_add_one 1)
        · exact .glyph
      · by_cases h : ']' ∈ cs
        · obtain ⟨name, rest, rfl, hname⟩ := List.eq_append_cons_of_mem h
          have hglyph : StandsFor ('[' :: (name ++ ']' :: rest)) (Glyph.text name) rest :=
            .longGlyph hname
          show StandsFor _ (bracketedGlyph _).1.plain (bracketedGlyph _).2
          rw [bracketedGlyph_append hname]
          exact hglyph
        · show StandsFor _ (bracketedGlyph _).1.plain (bracketedGlyph _).2
          rw [bracketedGlyph, if_neg h]
          exact .unfinishedLongGlyph h
      · cases cs with
        | nil => exact .unfinishedString
        | cons d ds => exact .string (isName_iff.mpr rfl)
      · exact .nothing (by decide)
      · exact .nothing (by decide)
      · exact .nothing (by decide)
      · exact .nothing (by decide)
      · exact .backslash
      · exact .space (by decide)
      · exact .space (by decide)
    · rw [escapeAfter_of_not_mem hc]
      exact .itself hc

/-! ### Scanning -/

/-- An item takes a part of the text at its start. -/
theorem next_suffix (c : Char) (cs : List Char) : (next c cs).2 <:+ c :: cs := by
  fun_cases next c cs with
  | case3 _ _ d ds e rest hescape =>
    have hrest : rest <:+ d :: ds := (standsFor_iff.mpr ⟨rfl, congrArg Prod.snd hescape⟩).suffix
    exact hrest.trans (List.suffix_cons _ _)
  | _ => exact List.suffix_cons _ _

theorem scan_quote (cs : List Char) : scan ('"' :: cs) = .quote :: scan cs := by
  rw [scan, next.eq_def, if_pos rfl]

/-- A character without a meaning is an item of its own, and so is a backslash at the end. -/
theorem next_plain (hquote : c ≠ '"') (hlast : c = '\\' → cs = []) :
    next c cs = (.char c, cs) := by
  unfold next
  rw [if_neg hquote]
  split_ifs with hc
  · rw [hlast hc]
  · rfl

theorem scan_plain (hquote : c ≠ '"') (hlast : c = '\\' → cs = []) :
    scan (c :: cs) = .char c :: scan cs := by
  rw [scan, next_plain hquote hlast]

/-- Characters without a meaning are items of their own, one by one. -/
theorem scan_append {text : List Char} (htext : ∀ c ∈ text, c ≠ '"' ∧ c ≠ '\\') (cs : List Char) :
    scan (text ++ cs) = text.map Item.char ++ scan cs := by
  induction text with
  | nil => rfl
  | cons c text ih =>
    obtain ⟨⟨hquote, hbackslash⟩, hrest⟩ := List.forall_mem_cons.mp htext
    rw [List.cons_append, scan_plain hquote (absurd · hbackslash), ih hrest, List.map_cons,
      List.cons_append]

theorem scan_escape (d : Char) (cs : List Char) :
    scan ('\\' :: d :: cs) = .escape (escapeAfter d cs).1 :: scan (escapeAfter d cs).2 :=
  scan.eq_2 _ _

end Escapes

/-! ## Setting a text -/

section Setting

open Markup RunningText

variable {collapse : Bool}

/-- The text of the marks of the text `cs`. -/
def markText (collapse q p : Bool) (cs : List Char) : List Char :=
  (marks collapse q p (Item.scan cs)).flatMap Mark.plain

variable {q p : Bool} {cs text : List Char}

/-- What the grammar gives to a text is what the marks of the text spell. -/
theorem Resolves.eq_markText (h : Resolves collapse q p cs text) :
    text = markText collapse q p cs := by
  unfold markText
  induction h with
  | nil =>
    rw [Item.scan]
    rfl
  | quote _ ih => rwa [scan_quote]
  | dropped hcollapse _ ih =>
    rw [scan_plain (by decide) (absurd · (by decide)), marks, if_pos (by simp [hcollapse])]
    exact ih
  | char hquote hlast hkept _ ih =>
    rw [scan_plain hquote hlast, marks, if_neg (by simp_all), ih]
    rfl
  | @escape q p cs part rest text hpart _ ih =>
    cases cs with
    | nil => cases hpart
    | cons d ds =>
      obtain ⟨rfl, rfl⟩ := standsFor_iff.mp hpart
      rw [scan_escape, marks, List.flatMap_append, plain_escapeMarks, ih]

/-- The grammar gives what the marks spell to every text. -/
theorem resolves_markText (collapse q p : Bool) (cs : List Char) :
    Resolves collapse q p cs (markText collapse q p cs) := by
  unfold markText
  -- the scanner takes one item at a time, and each item is one rule of the grammar
  induction cs using Item.scan.induct generalizing q p with
  | case1 =>
    rw [Item.scan]
    exact .nil
  | case2 c cs ih =>
    by_cases hquote : c = '"'
    · obtain rfl := hquote
      rw [scan_quote]
      exact .quote (ih _ p)
    · by_cases hlast : c = '\\' → cs = []
      · rw [next_plain hquote hlast] at ih
        rw [scan_plain hquote hlast, marks]
        split_ifs with hdrop
        · simp only [Bool.and_eq_true, Bool.not_eq_true', beq_iff_eq] at hdrop
          obtain ⟨⟨⟨hcollapse, rfl⟩, rfl⟩, rfl⟩ := hdrop
          exact .dropped hcollapse (ih false true)
        · exact .char hquote hlast (by simpa using hdrop) (ih q _)
      · obtain ⟨rfl, hcs⟩ := Classical.not_imp.mp hlast
        obtain ⟨d, ds, rfl⟩ := List.exists_cons_of_ne_nil hcs
        rw [scan_escape, marks, List.flatMap_append, plain_escapeMarks]
        exact .escape (standsFor_iff.mpr ⟨rfl, rfl⟩) (ih q false)

/-- **The grammar gives every text one plain text**, the one that the marks of the text spell. -/
theorem resolves_iff : Resolves collapse q p cs text ↔ text = markText collapse q p cs :=
  ⟨Resolves.eq_markText, fun h => h ▸ resolves_markText collapse q p cs⟩

/-- The plain text of a text that is set, fragment by fragment. -/
theorem State.plain_setText (s : State) (collapse : Bool) (cs : List Char) :
    (s.setText collapse cs).2.flatMap Fragment.plain =
      markText collapse false false cs ++ if s.inPreformatted then ['\n'] else [] := by
  show (write s.font (textMarks collapse cs) ++ _).flatMap Fragment.plain = _
  rw [List.flatMap_append, plain_write]
  cases s.inPreformatted <;> rfl

/-- **A text is set as the plain text that it stands for**: the grammar of escapes gives to a text
what is left of the written fragments without the tags of fonts and with the references read, and
a piece of preformatted text ends its line. -/
theorem State.resolves_iff_plainText_setText (s : State) :
    Resolves collapse false false cs text ↔
      plainText (render (s.setText collapse cs).2) =
        text ++ if s.inPreformatted then ['\n'] else [] := by
  rw [plainText_render (s.isInline_setText collapse cs), s.plain_setText, resolves_iff,
    List.append_left_inj]
  exact eq_comm

end Setting

end Manpage
