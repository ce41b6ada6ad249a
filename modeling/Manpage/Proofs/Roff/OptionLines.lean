import Manpage.Proofs.Html.Runs
import Manpage.Proofs.Link.Path
import Manpage.Proofs.Markup.Heads
import Manpage.Proofs.Roff.Calls
import Manpage.Proofs.Roff.Fonts
import Manpage.Proofs.Roff.Lines
import Manpage.Proofs.Roff.Words
import Manpage.Roff.Line
import Manpage.Text.Letter

/-!
# Lists of options

The lines of a page that describes options one after the other, in the way in which most pages do: a
hanging paragraph for each option, with the option in bold as its term, and a line of text that can
mention options in bold. Such a paragraph closes the list of the one before it and leaves its own
open.

## Main definitions

* `TextPiece`, `OptionEntry`: the description of an option
* `optionLines`: the lines of a page that describes options
* `State.BetweenEntries`: the state between two descriptions

## Main results

* `exists_pieces_write`: what a line of text is read as
* `State.feedAll_entry`: what the lines of a description are read as
-/

namespace Manpage

open Markup
open Html (Piece Token)

/-- A piece of a line of text: a letter, a space, or an option in bold. -/
inductive TextPiece where
  | letter (c : Char) (isLetter : Text.isLetter c)
  | space
  | bold (option : List Char) (isOption : Link.IsOptionText option)

/-- A text in bold, as a page has it. -/
def boldSource (text : List Char) : List Char :=
  '\\' :: 'f' :: 'B' :: (text ++ ['\\', 'f', 'R'])

namespace TextPiece

/-- A piece of text, as a page has it. -/
def source : TextPiece → List Char
  | letter c _ => [c]
  | space => [' ']
  | bold option _ => boldSource option

/-- The option that a piece of text has in bold. -/
def option? : TextPiece → Option (List Char)
  | letter _ _ | space => none
  | bold option _ => some option

end TextPiece

/-- **The description of an option**: the option, and a line of text. -/
structure OptionEntry where
  option : List Char
  isOption : Link.IsOptionText option
  line : List TextPiece

namespace OptionEntry

/-- The lines of a description. -/
def lines (e : OptionEntry) : List (List Char) :=
  [['.', 'T', 'P'], boldSource e.option, e.line.flatMap TextPiece.source]

/-- The options that the text of a description has in bold. -/
def mentions (e : OptionEntry) : List (List Char) :=
  e.line.filterMap TextPiece.option?

theorem isOption_of_mem_mentions {e : OptionEntry} {option : List Char}
    (h : option ∈ e.mentions) : Link.IsOptionText option := by
  obtain ⟨piece, -, hpiece⟩ := List.mem_filterMap.mp h
  cases piece with
  | letter | space => exact absurd hpiece (Option.some_ne_none _).symm
  | bold text isOption => exact Option.some.inj hpiece ▸ isOption

end OptionEntry

/-- The first line of a page that describes options. -/
def optionHeader : List Char :=
  ['.', 'S', 'H', ' ', 'O', 'P', 'T', 'I', 'O', 'N', 'S']

/-- **The lines of a page that describes options.** -/
def optionLines (entries : List OptionEntry) : List (List Char) :=
  optionHeader :: entries.flatMap OptionEntry.lines

/-! ## Characters of options -/

theorem isPlain_of_isOptionChar {c : Char} (hc : Link.isOptionChar c) : isPlain c :=
  Link.of_isOptionChar (by decide) hc

/-- Characters of options are set as they stand. -/
theorem isWord_of_isOptionChar {text : List Char} (htext : ∀ c ∈ text, Link.isOptionChar c) :
    IsWord text :=
  fun c hc => ⟨Link.ne_of_isOptionChar (htext c hc) (by decide),
    Link.ne_of_isOptionChar (htext c hc) (by decide),
    Link.ne_of_isOptionChar (htext c hc) (by decide)⟩

/-! ## Reading bold text -/

section Bold

variable {text : List Char}

theorem scan_boldSource (htext : ∀ c ∈ text, Link.isOptionChar c) (cs : List Char) :
    Item.scan (boldSource text ++ cs) =
      .escape (.font .bold) :: (text.map Item.char ++ .escape (.font .roman) :: Item.scan cs) := by
  have hsource : boldSource text ++ cs =
      '\\' :: 'f' :: 'B' :: (text ++ '\\' :: 'f' :: 'R' :: cs) := by
    simp [boldSource]
  have hbold : ∀ ds, Item.scan ('\\' :: 'f' :: 'B' :: ds) =
      .escape (.font .bold) :: Item.scan ds := fun ds => Item.scan.eq_2 _ _
  have hroman : ∀ ds, Item.scan ('\\' :: 'f' :: 'R' :: ds) =
      .escape (.font .roman) :: Item.scan ds := fun ds => Item.scan.eq_2 _ _
  rw [hsource, hbold, (isWord_of_isOptionChar htext).scan_append, hroman]

namespace RunningText

/-- **Bold text** is written between the tags of the bold font, and the font is the roman one again
after it. -/
theorem exists_write_boldSource (htext : ∀ c ∈ text, Link.isOptionChar c) (afterSpace : Bool)
    (cs : List Char) :
    write .roman (marks false false afterSpace (Item.scan (boldSource text ++ cs))) =
        .opening .b :: (text.map Fragment.char ++
          .closing .b :: write .roman (marks false false false (Item.scan cs))) ∧
      lastFont .roman (marks false false afterSpace (Item.scan (boldSource text ++ cs))) =
        lastFont .roman (marks false false false (Item.scan cs)) := by
  have hword := isWord_of_isOptionChar htext
  have hall : marks false false afterSpace (Item.scan (boldSource text ++ cs)) =
      .seam :: .font .bold :: (text.map Mark.char ++
        .seam :: .font .roman :: marks false false false (Item.scan cs)) := by
    rw [scan_boldSource htext, marks, marks_word hword]
    rfl
  rw [hall]
  constructor
  · have htags : ∀ ms, write .roman (.seam :: .font .bold :: ms) =
        .opening .b :: write .bold ms := fun _ => rfl
    rw [htags, write_word hword,
      escape_of_isPlain hword fun c hc => isPlain_of_isOptionChar (htext c hc)]
    rfl
  · have hfont : ∀ ms, lastFont .roman (.seam :: .font .bold :: ms) = lastFont .bold ms :=
      fun _ => rfl
    rw [hfont, lastFont_append]
    rfl

end RunningText

end Bold

/-! ## Reading a line of text -/

/-- A letter is none of the characters that mean something to a page. -/
theorem ne_of_isLetter {c : Char} (hc : Text.isLetter c) :
    ∀ d ∈ ['"', '\\', '.', '\'', '\r'], c ≠ d := by
  have hnone : ∀ d ∈ ['"', '\\', '.', '\'', '\r'], Text.isLetter d = false := by
    simp only [List.forall_mem_cons]
    exact ⟨by decide +kernel, by decide +kernel, by decide +kernel, by decide +kernel,
      by decide +kernel, by simp⟩
  rintro d hd rfl
  exact Bool.false_ne_true ((hnone c hd).symm.trans hc)

/-- The tokens of a text in bold. -/
def boldTokens (text : List Char) : List Token :=
  .startTag .b [] :: (text.map Token.char ++ [.endTag .b])

theorem notMem_of_isOptionText {option : List Char} (h : Link.IsOptionText option) :
    '\x00' ∉ option :=
  fun hmem => absurd (Link.isOptionChar_of_mem h _ hmem) (by decide)

theorem tokens_bold (text : List Char) (fs : List Fragment) :
    tokens (.opening .b :: (text.map Fragment.char ++ .closing .b :: fs)) =
      boldTokens text ++ tokens fs := by
  have htext : ∀ gs, tokens (text.map Fragment.char ++ gs) =
      text.map Token.char ++ tokens gs := by
    intro gs
    induction text with
    | nil => rfl
    | cons c text ih =>
      rw [List.map_cons, List.cons_append, tokens_of_token? rfl, ih]
      rfl
  rw [tokens_of_token? rfl, htext, tokens_of_token? rfl, boldTokens]
  simp [Element.tag]

/-- What is written for a character is read as one that is read as itself. -/
theorem RunningText.exists_token?_writeChar {c : Char} (hc : c ≠ '\r') (rest : List Mark) :
    ∃ d, Html.IsReadable d ∧ (writeChar c rest).token? = some (.char d) := by
  have hinline : (writeChar c rest).isInline false := isInline_writeChar c rest
  obtain ⟨d, hd, htoken, -⟩ := exists_char_of_isInline hinline (isTag_writeChar c rest)
  have hplain : (Fragment.ofChar c).token? ≠ some (.char '\r') := by
    unfold Fragment.ofChar
    split_ifs
    · decide
    · decide
    · decide
    · intro h
      have hcode : Html.Reference.codePoint c.toNat = '\r' :=
        Token.char.inj (Option.some.inj h)
      exact hc (Char.toNat_inj.mp (toNat_of_codePoint_eq (by decide) (by decide) hcode).2)
    · exact fun h => hc (Token.char.inj (Option.some.inj h))
  refine ⟨d, ⟨hd, ?_⟩, htoken⟩
  rintro rfl
  unfold writeChar at htoken
  split at htoken
  · split_ifs at htoken
    · exact absurd htoken (by decide)
    · exact hplain htoken
  · exact hplain htoken

open RunningText in
/-- A plain character is read as a character. -/
theorem exists_piece_char {c : Char} (hquote : c ≠ '"') (hbackslash : c ≠ '\\') (hc : c ≠ '\r')
    (afterSpace : Bool) (cs : List Char) :
    ∃ p : Piece, p.boldText? = none ∧
      tokens (write .roman (marks false false afterSpace (Item.scan (c :: cs)))) =
        p.tokens ++ tokens (write .roman (marks false false (c == ' ') (Item.scan cs))) ∧
      lastFont .roman (marks false false afterSpace (Item.scan (c :: cs))) =
        lastFont .roman (marks false false (c == ' ') (Item.scan cs)) := by
  have hmarks : marks false false afterSpace (Item.scan (c :: cs)) =
      .char c :: marks false false (c == ' ') (Item.scan cs) := by
    rw [scan_plain hquote (absurd · hbackslash), marks]
    rfl
  generalize marks false false (c == ' ') (Item.scan cs) = rest at hmarks ⊢
  obtain ⟨d, hd, htoken⟩ := exists_token?_writeChar hc rest
  refine ⟨.char d hd, rfl, ?_, ?_⟩
  · rw [hmarks, write, tokens_of_token? htoken]
    rfl
  · rw [hmarks]
    rfl

open RunningText in
/-- **A line of text** is read as running text with the same options in bold. -/
theorem exists_pieces_write (line : List TextPiece) (afterSpace : Bool) :
    ∃ ps : List Piece, ps.filterMap Piece.boldText? = line.filterMap TextPiece.option? ∧
      tokens (write .roman (marks false false afterSpace
        (Item.scan (line.flatMap TextPiece.source)))) = ps.flatMap Piece.tokens ∧
      lastFont .roman (marks false false afterSpace
        (Item.scan (line.flatMap TextPiece.source))) = .roman := by
  induction line generalizing afterSpace with
  | nil => exact ⟨[], rfl, by simp [Item.scan, marks, write, tokens, tokensFrom],
      by simp [Item.scan, marks, lastFont]⟩
  | cons piece line ih =>
    cases piece with
    | letter c hc =>
      obtain ⟨p, hp, htokens, hfont⟩ := exists_piece_char (ne_of_isLetter hc '"' (by simp))
        (ne_of_isLetter hc '\\' (by simp)) (ne_of_isLetter hc '\r' (by simp)) afterSpace
        (line.flatMap TextPiece.source)
      obtain ⟨ps, hbold, hrest, hlast⟩ := ih (c == ' ')
      refine ⟨p :: ps, ?_, ?_, ?_⟩
      · rw [List.filterMap_cons_none hp, List.filterMap_cons_none rfl, hbold]
      · rw [List.flatMap_cons, List.flatMap_cons, ← hrest]
        exact htokens
      · exact hfont.trans hlast
    | space =>
      obtain ⟨p, hp, htokens, hfont⟩ := exists_piece_char (c := ' ') (by decide) (by decide)
        (by decide) afterSpace (line.flatMap TextPiece.source)
      obtain ⟨ps, hbold, hrest, hlast⟩ := ih (' ' == ' ')
      refine ⟨p :: ps, ?_, ?_, ?_⟩
      · rw [List.filterMap_cons_none hp, List.filterMap_cons_none rfl, hbold]
      · rw [List.flatMap_cons, List.flatMap_cons, ← hrest]
        exact htokens
      · exact hfont.trans hlast
    | bold option hoption =>
      obtain ⟨hwrite, hfont⟩ := exists_write_boldSource (Link.isOptionChar_of_mem hoption)
        afterSpace (line.flatMap TextPiece.source)
      obtain ⟨ps, hbold, hrest, hlast⟩ := ih false
      refine ⟨.bold option (notMem_of_isOptionText hoption) :: ps, ?_, ?_, ?_⟩
      · simp only [List.filterMap_cons, Piece.boldText?, TextPiece.option?, hbold]
      · rw [List.flatMap_cons, List.flatMap_cons, ← hrest, TextPiece.source, hwrite, tokens_bold]
        rfl
      · rw [List.flatMap_cons, TextPiece.source, hfont, hlast]

/-! ## Reading a description -/

/-- The tokens of a description: a list with the option as its term, which stays open. -/
def entryTokens (option : List Char) (ps : List Piece) : List Token :=
  [.startTag .dl [], .startTag .dt [], .char ' '] ++ boldTokens option ++
    [.endTag .dt, .startTag .dd [], .char ' '] ++ ps.flatMap Piece.tokens

namespace State

/-- **The state between two descriptions**: the text is plain text in the roman font. -/
structure BetweenEntries (s : State) : Prop where
  font : s.font = .roman
  inPreformatted : s.inPreformatted = false
  inParagraph : s.inParagraph = false

/-- The state after the first line. -/
def afterHeader : State :=
  { inSection := true, lastRequest := some .sh, lastLine := some optionHeader }

theorem feed_optionHeader :
    State.feed {} optionHeader = (afterHeader, Block.sectionFrame (wording "OPTIONS")) := by
  decide +kernel

/-- What a text is read as, where it is plain text in the roman font. -/
theorem exists_pieces_text {s : State} (hs : s.BetweenEntries) (line : List TextPiece) :
    ∃ ps : List Piece, ps.filterMap Piece.boldText? = line.filterMap TextPiece.option? ∧
      tokens (s.text (line.flatMap TextPiece.source)).2 = ps.flatMap Piece.tokens ∧
      (s.text (line.flatMap TextPiece.source)).1 = s := by
  obtain ⟨ps, hbold, htokens, hfont⟩ := exists_pieces_write line false
  refine ⟨ps, hbold, ?_, ?_⟩
  · rw [text, setText, hs.font, hs.inPreformatted, if_neg Bool.false_ne_true, List.append_nil]
    exact htokens
  · have hroman : RunningText.lastFont s.font (RunningText.textMarks false
        (line.flatMap TextPiece.source)) = s.font := by
      rw [hs.font]
      exact hfont
    rw [text, setText, hroman]

/-- A line of text is neither a comment nor a control line. -/
theorem isComment_source (line : List TextPiece) :
    isComment (line.flatMap TextPiece.source) = false ∧
      Inline.isControl (line.flatMap TextPiece.source) = false := by
  cases line with
  | nil => exact ⟨rfl, rfl⟩
  | cons piece line =>
    cases piece with
    | letter c hc =>
      have hdot : c ≠ '.' := ne_of_isLetter hc '.' (by simp)
      have hquote : c ≠ '\'' := ne_of_isLetter hc '\'' (by simp)
      have hbackslash : c ≠ '\\' := ne_of_isLetter hc '\\' (by simp)
      rw [List.flatMap_cons, TextPiece.source, List.singleton_append]
      constructor
      · unfold isComment
        split <;> simp_all
      · unfold Inline.isControl
        split <;> simp_all
    | space => exact ⟨rfl, rfl⟩
    | bold option _ => exact ⟨rfl, rfl⟩

/-- What an option in bold is set as, where it is plain text in the roman font. -/
theorem text_boldSource {s : State} (hs : s.BetweenEntries) {option : List Char}
    (h : Link.IsOptionText option) :
    s.text (boldSource option) =
      (s, .opening .b :: (option.map Fragment.char ++ [.closing .b])) := by
  obtain ⟨hwrite, hlast⟩ :=
    RunningText.exists_write_boldSource (Link.isOptionChar_of_mem h) false []
  rw [List.append_nil, Item.scan] at hwrite hlast
  obtain ⟨font, lastRequest, lastLine, commandName, inParagraph, inSection, inPreformatted,
    indent⟩ := s
  obtain rfl : font = .roman := hs.font
  obtain rfl : inPreformatted = false := hs.inPreformatted
  have hfont : RunningText.lastFont .roman (RunningText.textMarks false (boldSource option)) =
      .roman := hlast
  rw [text, setText, hfont, if_neg Bool.false_ne_true, List.append_nil]
  exact congrArg _ hwrite

/-- The lines of a description start no section and write no link. -/
theorem sections_targets_entry {e : OptionEntry} {line : List Char} (hline : line ∈ e.lines)
    {c : Call} (hc : c ∈ callsOn line) (s : State) : c.sections s = [] ∧ c.targets s = [] := by
  have htext : ∀ {text : List Char}, isComment text = false → Inline.isControl text = false →
      callsOn text = [] := by
    intro text hcomment hcontrol
    simp [callsOn, hcomment, hcontrol]
  obtain ⟨hcomment, hcontrol⟩ := isComment_source e.line
  simp only [OptionEntry.lines, List.mem_cons, List.not_mem_nil, or_false] at hline
  rcases hline with rfl | rfl | rfl
  · obtain rfl := List.mem_singleton.mp (show c ∈ [(⟨.tp, []⟩ : Call)] from hc)
    exact ⟨rfl, rfl⟩
  · rw [htext rfl rfl] at hc
    exact absurd hc List.not_mem_nil
  · rw [htext hcomment hcontrol] at hc
    exact absurd hc List.not_mem_nil

/-- Descriptions start no section and write no link. -/
theorem sections_targets_entries (s : State) {lines : List (List Char)}
    (h : ∀ line ∈ lines, ∃ e : OptionEntry, line ∈ e.lines) :
    ((s.performed lines).flatMap fun x => x.2.sections x.1) = [] ∧
      ((s.performed lines).flatMap fun x => x.2.targets x.1) = [] := by
  induction lines generalizing s with
  | nil => exact ⟨rfl, rfl⟩
  | cons line lines ih =>
    obtain ⟨⟨e, hline⟩, hrest⟩ := List.forall_mem_cons.mp h
    obtain ⟨hsections, htargets⟩ := ih (s.feed line).1 hrest
    rw [performed, List.flatMap_append, List.flatMap_append, hsections, htargets,
      List.append_nil, List.append_nil, List.flatMap_map, List.flatMap_map]
    constructor
    · exact List.flatMap_eq_nil_iff.mpr fun c hc => (sections_targets_entry hline hc s).1
    · exact List.flatMap_eq_nil_iff.mpr fun c hc => (sections_targets_entry hline hc s).2

theorem betweenEntries_leaveIndent {s : State} (hs : s.BetweenEntries) :
    (Block.leaveIndent s).1.BetweenEntries := by
  unfold Block.leaveIndent
  split_ifs
  · exact ⟨hs.font, hs.inPreformatted, hs.inParagraph⟩
  · exact hs

/-- **The lines of a description** close the list of the description before it, and start a list
with the option as its term, which stays open. -/
theorem feedAll_entry {s : State} (hs : s.BetweenEntries) (e : OptionEntry) :
    ∃ ps : List Piece, ps.filterMap Piece.boldText? = e.mentions ∧
      tokens (s.feedAll e.lines).2 =
        tokens (Block.leaveIndent s).2 ++ entryTokens e.option ps ∧
      (s.feedAll e.lines).1.BetweenEntries ∧ (s.feedAll e.lines).1.indent = .body := by
  obtain ⟨hfont, hpre, hparagraph⟩ := betweenEntries_leaveIndent hs
  let inTerm : State :=
    { (Block.leaveIndent s).1 with
      indent := .term, lastRequest := some .tp, lastLine := some ['.', 'T', 'P'] }
  let inBody : State := { inTerm with indent := .body, lastLine := some (boldSource e.option) }
  have hterm : inTerm.BetweenEntries := ⟨hfont, hpre, hparagraph⟩
  have hbody : inBody.BetweenEntries := ⟨hfont, hpre, hparagraph⟩
  have hoption : inTerm.feed (boldSource e.option) =
      (inBody, .char ' ' :: (.opening .b :: (e.option.map Fragment.char ++ [.closing .b])) ++
        [.closing .dt, .opening .dd]) := by
    rw [feed_text rfl rfl, text_boldSource hterm e.isOption]
    rfl
  obtain ⟨ps, hbold, htokens, hsame⟩ := exists_pieces_text hbody e.line
  obtain ⟨hcomment, hcontrol⟩ := isComment_source e.line
  have hline : inBody.feed (e.line.flatMap TextPiece.source) =
      ({ inBody with lastLine := some (e.line.flatMap TextPiece.source) },
        .char ' ' :: (inBody.text (e.line.flatMap TextPiece.source)).2 ++ []) := by
    rw [feed_text hcomment hcontrol, hsame]
    rfl
  have hleft : Content false (Block.leaveIndent s).2 := (Block.layout_leaveIndent s).content
  rw [OptionEntry.lines, feedAll_cons (feed_hangingRequest rfl s), feedAll_cons hoption,
    feedAll_cons hline, feedAll]
  refine ⟨ps, hbold, ?_, ⟨hfont, hpre, hparagraph⟩, rfl⟩
  simp only [List.append_assoc, List.append_nil, List.cons_append, List.nil_append]
  rw [tokens_append hleft, tokens_of_token? rfl, tokens_of_token? rfl, tokens_of_token? rfl,
    tokens_bold, tokens_of_token? rfl, tokens_of_token? rfl, tokens_of_token? rfl, htokens]
  simp [entryTokens, Element.tag]

end State

end Manpage
