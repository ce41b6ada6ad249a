import Manpage.Proofs.Html.Reading
import Manpage.Proofs.Markup.Rendered
import Mathlib.Data.List.Basic

/-!
# The tokens of content

Content as the reader of documents sees it. The text of a whole tag, of a reference or of a plain
character is one token. The start tag of a section or of an anchor is read as far as the first quote
in its attribute value, which need not be the one that was written to end it.

## Main definitions

* `Fragment.token?`: the token of a fragment that is whole by itself
* `Fragment.inValue`: what a fragment in an attribute value is read as
* `values`: the attribute values that fragments hold
* `tokens`: the tokens that fragments are written for

## Main results

* `scan_chars`: a whole fragment is one token
* `scan_sectionTag`, `scan_anchorTag`: start tags whose value holds no quote
* `scan_sectionTag_of_quote`, `scan_anchorTag_of_quote`: start tags whose value holds a quote
-/

namespace Manpage.Markup

open Html (Attribute Tag Token)

/-! ## Tokens and values of fragments -/

/-- The tag of an element. -/
def Element.tag : Element → Tag
  | html => .html
  | body => .body
  | h1 => .h1
  | h2 => .h2
  | p => .p
  | b => .b
  | i => .i
  | dl => .dl
  | dt => .dt
  | dd => .dd
  | pre => .pre

/-- The token of a fragment that is whole by itself, outside of attribute values. -/
def Fragment.token? : Fragment → Option Token
  | char c => some (.char c)
  | less => some (.char '<')
  | greater => some (.char '>')
  | ampersand => some (.char '&')
  | blank => some (.char '\u00A0')
  | code n => some (.char (Html.Reference.codePoint n))
  | newline => some (.char '\n')
  | opening e => some (.startTag e.tag [])
  | closing e => some (.endTag e.tag)
  | lineBreak => some (.startTag .br [])
  | pageStart => some (.startTag .div [⟨"class", "man-page"⟩])
  | divisionEnd => some (.endTag .div)
  | anchorEnd => some (.endTag .a)
  | sectionStart | sectionClass | anchorStart | valueEnd => none

/-- What a fragment in an attribute value is read as. A tag in a value is plain text. -/
def Fragment.inValue : Fragment → List Char
  | less => ['<']
  | greater => ['>']
  | ampersand => ['&']
  | blank => ['\u00A0']
  | code n => [Html.Reference.codePoint n]
  | f => f.chars

/-- The text of an attribute value. -/
def valueText (value : List Fragment) : String :=
  String.ofList (value.flatMap Fragment.inValue)

/-- Whether a fragment ends an attribute value. -/
def Fragment.endsValue : Fragment → Bool
  | sectionClass | valueEnd => true
  | _ => false

/-- The attribute value that fragments start with. -/
def leadingValue (fs : List Fragment) : List Fragment :=
  fs.takeWhile fun f => !f.endsValue

/-- The attribute values that fragments hold, in the order in which they are written. -/
def values : List Fragment → List (List Fragment)
  | [] => []
  | .sectionStart :: fs | .anchorStart :: fs => leadingValue fs :: values fs
  | _ :: fs => values fs

/-- The start tag of a section. -/
def sectionToken (name : List Fragment) : Token :=
  .startTag .div [⟨"id", valueText name⟩, ⟨"class", "section"⟩]

/-- The start tag of an anchor. -/
def anchorToken (target : List Fragment) : Token :=
  .startTag .a [⟨"href", valueText target⟩]

/-- The tokens that fragments are written for; `inValue` says whether
they start in an attribute value. -/
def tokensFrom (inValue : Bool) : List Fragment → List Token
  | [] => []
  | .sectionStart :: fs => sectionToken (leadingValue fs) :: tokensFrom true fs
  | .anchorStart :: fs => anchorToken (leadingValue fs) :: tokensFrom true fs
  | f :: fs =>
    if f.endsValue then tokensFrom false fs
    else if inValue then tokensFrom inValue fs
    else f.token?.toList ++ tokensFrom inValue fs

/-- The tokens that fragments are written for. -/
def tokens (fs : List Fragment) : List Token :=
  tokensFrom false fs

section

variable {newlines : Bool} {f : Fragment} {fs name target : List Fragment}

theorem endsValue_of_isInline (h : f.isInline newlines) : f.endsValue = false := by
  cases f with
  | sectionClass | valueEnd => exact absurd h Bool.false_ne_true
  | _ => rfl

/-- A value lasts until the fragment that ends it. -/
theorem leadingValue_append (hname : IsInline newlines name) (hf : f.endsValue) :
    leadingValue (name ++ f :: fs) = name := by
  rw [leadingValue, List.takeWhile_append_of_pos, List.takeWhile_cons_of_neg (by simp [hf]),
    List.append_nil]
  intro g hg
  rw [endsValue_of_isInline (hname g hg)]
  rfl

theorem values_append (hname : IsInline newlines name) : values (name ++ fs) = values fs := by
  induction name with
  | nil => rfl
  | cons g name ih =>
    obtain ⟨hg, htail⟩ := isInline_cons.mp hname
    cases g with
    | sectionStart | anchorStart => exact absurd hg Bool.false_ne_true
    | _ => exact ih htail

theorem tokensFrom_append (hname : IsInline newlines name) (hf : f.endsValue) :
    tokensFrom true (name ++ f :: fs) = tokensFrom false fs := by
  induction name with
  | nil =>
    cases f with
    | sectionClass | valueEnd => rfl
    | _ => exact absurd hf Bool.false_ne_true
  | cons g name ih =>
    obtain ⟨hg, htail⟩ := isInline_cons.mp hname
    cases g with
    | sectionStart | sectionClass | anchorStart | valueEnd => exact absurd hg Bool.false_ne_true
    | _ => exact ih htail

theorem values_sectionTag (hname : IsInline newlines name) :
    values (.sectionStart :: (name ++ .sectionClass :: fs)) = name :: values fs := by
  rw [values, leadingValue_append hname rfl, values_append hname]
  rfl

theorem values_anchorTag (htarget : IsInline newlines target) :
    values (.anchorStart :: (target ++ .valueEnd :: fs)) = target :: values fs := by
  rw [values, leadingValue_append htarget rfl, values_append htarget]
  rfl

theorem tokens_sectionTag (hname : IsInline newlines name) :
    tokens (.sectionStart :: (name ++ .sectionClass :: fs)) = sectionToken name :: tokens fs := by
  rw [tokens, tokensFrom, leadingValue_append hname rfl, tokensFrom_append hname rfl]
  rfl

theorem tokens_anchorTag (htarget : IsInline newlines target) :
    tokens (.anchorStart :: (target ++ .valueEnd :: fs)) = anchorToken target :: tokens fs := by
  rw [tokens, tokensFrom, leadingValue_append htarget rfl, tokensFrom_append htarget rfl]
  rfl

end

/-! ## Whole tags -/

section Whole

variable {newlines : Bool} {f : Fragment} {t : Token} (cs : List Char)

theorem tag?_name (e : Element) :
    Token.tag? (e.name.toList ++ '>' :: cs) = some ((e.tag, []), cs) := by
  have hname : e.name.toList.all Token.isTagNameChar := by
    cases e <;> decide
  have htag : Tag.ofName (String.ofList (e.name.toList.map Token.nameChar)) = e.tag := by
    cases e <;> decide
  rw [Token.tag?_close _ hname, htag]

theorem exists_name_eq_cons (e : Element) : ∃ d ds, d.isAlpha ∧ e.name.toList = d :: ds := by
  cases e <;> exact ⟨_, _, by decide, rfl⟩

theorem scan_opening (e : Element) :
    Token.scan ((Fragment.opening e).chars ++ cs) = .startTag e.tag [] :: Token.scan cs := by
  obtain ⟨d, ds, hd, hname⟩ := exists_name_eq_cons e
  have htag := tag?_name cs e
  rw [hname, List.cons_append] at htag
  rw [Fragment.chars, hname, List.cons_append, List.append_assoc]
  exact Token.scan_startTag hd htag

theorem scan_closing (e : Element) :
    Token.scan ((Fragment.closing e).chars ++ cs) = .endTag e.tag :: Token.scan cs := by
  obtain ⟨d, ds, hd, hname⟩ := exists_name_eq_cons e
  have htag := tag?_name cs e
  rw [hname, List.cons_append] at htag
  rw [Fragment.chars, hname, List.cons_append, List.cons_append, List.append_assoc]
  exact Token.scan_endTag hd htag

/-- The start tag of the page has one attribute. -/
theorem scan_pageStart :
    Token.scan (Fragment.pageStart.chars ++ cs) =
      .startTag .div [⟨"class", "man-page"⟩] :: Token.scan cs := by
  have hvalue : Token.quotedValue '"' ("man-page".toList ++ '"' :: '>' :: cs) =
      ("man-page".toList, '>' :: cs) := by
    rw [Token.quotedValue_append _ (by decide), Token.quotedValue_quote]
    rfl
  have htag := Token.scan_quoted 'd' "iv".toList 'c' "lass".toList
    (by decide) (by decide) (by decide) ("man-page".toList ++ '"' :: '>' :: cs)
  rw [hvalue, Token.startedTag_of_attributes? (Token.attributes?_close cs)] at htag
  exact htag

/-- The text of a whole fragment is one token. -/
theorem scan_chars (hclean : f.isClean newlines) (ht : f.token? = some t) :
    Token.scan (f.chars ++ cs) = t :: Token.scan cs := by
  cases f with
  | char c =>
    obtain rfl := Option.some.inj ht
    exact Token.scan_char (ne_of_isPlain hclean (by decide)) (ne_of_isPlain hclean (by decide))
  | newline =>
    obtain rfl := Option.some.inj ht
    exact Token.scan_char (by decide) (by decide)
  | less | greater | ampersand | blank =>
    obtain rfl := Option.some.inj ht
    exact Token.scan_reference rfl
  | code n =>
    obtain rfl := Option.some.inj ht
    rw [Fragment.chars, List.cons_append, List.cons_append, List.append_assoc]
    exact Token.scan_reference (Html.Reference.read_decimal false n cs)
  | opening e =>
    obtain rfl := Option.some.inj ht
    exact scan_opening cs e
  | closing e =>
    obtain rfl := Option.some.inj ht
    exact scan_closing cs e
  | lineBreak =>
    obtain rfl := Option.some.inj ht
    have htag : Token.tag? ("br".toList ++ '/' :: '>' :: cs) = some ((.br, []), cs) := by
      rw [Token.tag?_append (by decide) (by decide),
        Token.attributes?_separator (by decide) (by decide), Token.attributes?_close]
      rfl
    exact Token.scan_startTag (by decide) htag
  | pageStart =>
    obtain rfl := Option.some.inj ht
    exact scan_pageStart cs
  | divisionEnd =>
    obtain rfl := Option.some.inj ht
    exact Token.scan_endTag (by decide) (Token.tag?_close "div".toList (by decide) cs)
  | anchorEnd =>
    obtain rfl := Option.some.inj ht
    exact Token.scan_endTag (by decide) (Token.tag?_close "a".toList (by decide) cs)
  | sectionStart | sectionClass | anchorStart | valueEnd =>
    exact absurd ht (by simp [Fragment.token?])

end Whole

/-! ## Attribute values -/

section Value

variable {newlines : Bool} {f : Fragment} {name value fs : List Fragment} (cs : List Char)

/-- A fragment of running text is read in a value as what it stands for, unless it is a quote. -/
theorem quotedValue_chars (hf : f.isInline newlines) (hquote : f ≠ .char '"') :
    Token.quotedValue '"' (f.chars ++ cs) =
      (f.inValue ++ (Token.quotedValue '"' cs).1, (Token.quotedValue '"' cs).2) := by
  cases f with
  | char c =>
    have hc : c ≠ '"' ∧ c ≠ '&' ∧ c ≠ '\x00' :=
      ⟨fun h => hquote (congrArg Fragment.char h), ne_of_isPlain hf (by decide),
        ne_of_isPlain hf (by decide)⟩
    exact Token.quotedValue_append cs (by simpa [Fragment.chars, and_assoc] using hc)
  | newline => exact Token.quotedValue_append cs (by decide)
  | less | greater | ampersand | blank => exact Token.quotedValue_reference _ (by decide)
  | code n =>
    rw [Fragment.chars, List.cons_append, List.cons_append, List.append_assoc,
      Token.quotedValue_reference _ (by decide), List.singleton_append,
      Html.Reference.read_decimal true n cs]
    rfl
  | opening e => exact Token.quotedValue_append cs (by cases e <;> decide)
  | closing e => exact Token.quotedValue_append cs (by cases e <;> decide)
  | _ => exact absurd hf Bool.false_ne_true

/-- A value without quotes lasts until the quote that was written to end it. -/
theorem quotedValue_render (hvalue : IsInline newlines value) (hquote : .char '"' ∉ value) :
    Token.quotedValue '"' (render value ++ '"' :: cs) =
      (value.flatMap Fragment.inValue, cs) := by
  induction value with
  | nil => exact Token.quotedValue_quote cs
  | cons f value ih =>
    obtain ⟨hf, htail⟩ := isInline_cons.mp hvalue
    have hhead : f ≠ .char '"' := fun h => hquote (h ▸ List.mem_cons_self)
    have hrest : .char '"' ∉ value := fun h => hquote (List.mem_cons_of_mem _ h)
    rw [render_cons, List.append_assoc, quotedValue_chars _ hf hhead, ih htail hrest,
      List.flatMap_cons]

/-- The start tag of a section as far as its value, and what is read after it. -/
theorem scan_sectionStart :
    Token.scan ('<' :: ("div id=\"".toList ++ cs)) =
      Token.startedTag .div ⟨"id", String.ofList (Token.quotedValue '"' cs).1⟩
        (Token.quotedValue '"' cs).2 :=
  Token.scan_quoted 'd' "iv".toList 'i' "d".toList (by decide) (by decide) (by decide) cs

/-- The start tag of an anchor as far as its value, and what is read after it. -/
theorem scan_anchorStart :
    Token.scan ('<' :: ("a href=\"".toList ++ cs)) =
      Token.startedTag .a ⟨"href", String.ofList (Token.quotedValue '"' cs).1⟩
        (Token.quotedValue '"' cs).2 :=
  Token.scan_quoted 'a' [] 'h' "ref".toList (by decide) (by decide) (by decide) cs

theorem attributes?_sectionClass :
    Token.attributes? (" class=\"section\">".toList ++ cs) =
      some ([⟨"class", "section"⟩], cs) := by
  have hvalue : Token.quotedValue '"' ("section".toList ++ '"' :: '>' :: cs) =
      ("section".toList, '>' :: cs) := by
    rw [Token.quotedValue_append _ (by decide), Token.quotedValue_quote]
    rfl
  have hkey := Token.attributes?_quoted 'c' "lass".toList (by decide) (by decide)
    ("section".toList ++ '"' :: '>' :: cs)
  rw [hvalue, Token.attributes?_close] at hkey
  exact (Token.attributes?_separator (by decide) (by decide) _).trans hkey

/-- **The start tag of a section** whose name holds no quote is read as it was written. -/
theorem scan_sectionTag (hvalue : IsInline newlines value) (hquote : .char '"' ∉ value) :
    Token.scan (render (.sectionStart :: (value ++ .sectionClass :: fs)) ++ cs) =
      sectionToken value :: Token.scan (render fs ++ cs) := by
  have hdistinct : ∀ v, Token.distinctNames [⟨"id", v⟩, ⟨"class", "section"⟩] =
      [⟨"id", v⟩, ⟨"class", "section"⟩] := by
    intro v
    simp [Token.distinctNames]
  have hrender : render (.sectionStart :: (value ++ .sectionClass :: fs)) ++ cs =
      '<' :: ("div id=\"".toList ++
        (render value ++ '"' :: (" class=\"section\">".toList ++ (render fs ++ cs)))) := by
    simp [Fragment.chars]
  rw [hrender, scan_sectionStart, quotedValue_render _ hvalue hquote,
    Token.startedTag_of_attributes? (attributes?_sectionClass _), hdistinct]
  rfl

/-- **The start tag of an anchor** whose target holds no quote is read as it was written. -/
theorem scan_anchorTag (hvalue : IsInline newlines value) (hquote : .char '"' ∉ value) :
    Token.scan (render (.anchorStart :: (value ++ .valueEnd :: fs)) ++ cs) =
      anchorToken value :: Token.scan (render fs ++ cs) := by
  have hrender : render (.anchorStart :: (value ++ .valueEnd :: fs)) ++ cs =
      '<' :: ("a href=\"".toList ++ (render value ++ '"' :: '>' :: (render fs ++ cs))) := by
    simp [Fragment.chars]
  rw [hrender, scan_anchorStart, quotedValue_render _ hvalue hquote,
    Token.startedTag_of_attributes? (Token.attributes?_close _)]
  rfl

/-- **A quote in the name of a section** ends the value, and what the page says behind it is read
as attributes. -/
theorem scan_sectionTag_of_quote (hvalue : IsInline newlines value) (hquote : .char '"' ∉ value) :
    Token.scan (render (.sectionStart :: (value ++ .char '"' :: fs)) ++ cs) =
      Token.startedTag .div ⟨"id", valueText value⟩ (render fs ++ cs) := by
  have hrender : render (.sectionStart :: (value ++ .char '"' :: fs)) ++ cs =
      '<' :: ("div id=\"".toList ++ (render value ++ '"' :: (render fs ++ cs))) := by
    simp [Fragment.chars]
  rw [hrender, scan_sectionStart, quotedValue_render _ hvalue hquote]
  rfl

/-- **A quote in the target of an anchor** ends the value, and what the page says behind it is
read as attributes. -/
theorem scan_anchorTag_of_quote (hvalue : IsInline newlines value) (hquote : .char '"' ∉ value) :
    Token.scan (render (.anchorStart :: (value ++ .char '"' :: fs)) ++ cs) =
      Token.startedTag .a ⟨"href", valueText value⟩ (render fs ++ cs) := by
  have hrender : render (.anchorStart :: (value ++ .char '"' :: fs)) ++ cs =
      '<' :: ("a href=\"".toList ++ (render value ++ '"' :: (render fs ++ cs))) := by
    simp [Fragment.chars]
  rw [hrender, scan_anchorStart, quotedValue_render _ hvalue hquote]
  rfl

/-- A value that is cut at a quote is not the value. -/
theorem valueText_ne (left right : List Fragment) :
    valueText left ≠ valueText (left ++ .char '"' :: right) := by
  intro h
  have hlength := congrArg List.length (String.ofList_inj.mp h)
  simp only [List.flatMap_append, List.flatMap_cons, List.length_append, Fragment.inValue,
    Fragment.chars, List.length_singleton] at hlength
  omega

end Value

end Manpage.Markup
