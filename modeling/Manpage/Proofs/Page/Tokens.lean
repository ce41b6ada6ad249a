import Manpage.Proofs.Html.Printing
import Manpage.Proofs.Markup.Quotes
import Manpage.Proofs.Page.Markup

/-!
# The tokens of a page

The start tags of a page have no attributes but `id`, `class` and `href` as long as no attribute
value holds a quote. A quote in the header of a section or in a reference to another page does end
the value, and what the page says behind it can be an attribute of its own.

## Main definitions

* `Page.HasOwnAttributes`: tokens with no attributes but those that pages are written with

## Main results

* `Page.complete_markup`: the attribute values of a page are complete
* `Page.hasOwnAttributes_rawHtml_iff`: when a page has no attributes of its own
-/

namespace Manpage.Page

open Markup
open Html (Attribute Tag Token Document)

/-- The names of the attributes that pages are written with. -/
def attributeNames : List String := ["id", "class", "href"]

/-- Whether all start tags have no attributes but those that pages are written with. -/
def HasOwnAttributes (ts : List Token) : Prop :=
  ∀ tag attributes, .startTag tag attributes ∈ ts → ∀ a ∈ attributes, a.name ∈ attributeNames

section Tokens

variable {ts us : List Token} {tag : Tag} {attributes : List Attribute}

theorem hasOwnAttributes_append :
    HasOwnAttributes (ts ++ us) ↔ HasOwnAttributes ts ∧ HasOwnAttributes us := by
  simp only [HasOwnAttributes, List.mem_append, or_imp, forall_and]

theorem hasOwnAttributes_startTag :
    HasOwnAttributes (.startTag tag attributes :: ts) ↔
      (∀ a ∈ attributes, a.name ∈ attributeNames) ∧ HasOwnAttributes ts := by
  rw [← List.singleton_append, hasOwnAttributes_append]
  simp [HasOwnAttributes]

/-- A start tag brings the attributes that are read behind its first one. -/
theorem hasOwnAttributes_startedTag {first : Attribute} {text : List Char}
    (hfirst : first.name ∈ attributeNames) :
    HasOwnAttributes (Token.startedTag tag first text) ↔
      ∀ others rest, Token.attributes? text = some (others, rest) →
        (∀ a ∈ others, a.name ∈ attributeNames) ∧ HasOwnAttributes (Token.scan rest) := by
  cases h : Token.attributes? text with
  | none => simp [Token.startedTag, h, HasOwnAttributes]
  | some p =>
    obtain ⟨others, rest⟩ := p
    rw [Token.startedTag_of_attributes? h, hasOwnAttributes_startTag,
      Token.forall_mem_distinctNames (p := (· ∈ attributeNames)), List.forall_mem_cons]
    simp [hfirst]

/-- **Pages are written with their own attributes only.** -/
theorem hasOwnAttributes_tokens (fs : List Fragment) : HasOwnAttributes (tokens fs) := by
  have hfrom : ∀ inValue, HasOwnAttributes (tokensFrom inValue fs) := by
    intro inValue
    fun_induction tokensFrom inValue fs with
    | case1 => simp [HasOwnAttributes]
    | case2 _ _ ih => exact hasOwnAttributes_startTag.mpr ⟨by simp [attributeNames], ih⟩
    | case3 _ _ ih => exact hasOwnAttributes_startTag.mpr ⟨by simp [attributeNames], ih⟩
    | case4 _ _ _ _ _ _ ih => exact ih
    | case5 _ _ _ _ _ ih => exact ih
    | case6 _ f _ _ _ _ _ ih =>
      refine hasOwnAttributes_append.mpr ⟨?_, ih⟩
      cases f with
      | pageStart => simp [Fragment.token?, HasOwnAttributes, attributeNames]
      | _ => simp [Fragment.token?, HasOwnAttributes]
  exact hfrom false

end Tokens

/-! ## The fragments of a page -/

/-- The attribute values of a page are complete. -/
theorem complete_markup (lines : List (List Char)) :
    Complete (startsPreformatted lines) (markup lines) := by
  obtain ⟨content, hcontent, hmarkup⟩ := exists_content_markup lines
  rw [hmarkup, start, List.append_assoc]
  refine .whole rfl rfl (.whole rfl rfl (hcontent.complete_append ?_))
  exact .whole rfl rfl (.whole rfl rfl .nil)

/-- The HTML of a page is read as it is. -/
theorem tokens_rawHtml (text : List Char) :
    Document.tokens (rawHtml text) = Token.scan (render (markup (logicalLines text))) := by
  have hreturn : '\r' ∉ rawHtml text := by
    intro h
    rcases printable_of_mem_render isClean_of_mem_markup h with ⟨hlow, -⟩ | ⟨heq, -⟩
    · exact absurd hlow (by decide)
    · exact absurd heq (by decide)
  have hmark : Text.dropMark (rawHtml text) = rawHtml text := by
    obtain ⟨content, -, hmarkup⟩ := exists_content_markup (logicalLines text)
    rw [rawHtml, hmarkup]
    rfl
  rw [Document.tokens, hmark, Document.normalizeNewlines_eq hreturn, rawHtml]

/-- A page whose attribute values hold no quote is read as it was written. -/
theorem tokens_rawHtml_of_forall {text : List Char}
    (h : ∀ v ∈ values (markup (logicalLines text)), .char '"' ∉ v) :
    Document.tokens (rawHtml text) = tokens (markup (logicalLines text)) := by
  have hscan := scan_render (complete_markup (logicalLines text)) h []
  rwa [List.append_nil, Token.scan, List.append_nil, ← tokens_rawHtml] at hscan

/-! ## Attributes of its own -/

/-- **When a page brings attributes of its own.** If no attribute value holds a quote, then all
attributes are those that pages are written with; the page is read exactly as it was written only
in this case. A quote in a value ends it, and then it depends on what the page says behind the first
such quote, which is read as the rest of a start tag. -/
theorem hasOwnAttributes_rawHtml_iff (text : List Char) :
    ((∀ v ∈ values (markup (logicalLines text)), .char '"' ∉ v) →
      HasOwnAttributes (Document.tokens (rawHtml text))) ∧
    (Document.tokens (rawHtml text) = tokens (markup (logicalLines text)) ↔
      ∀ v ∈ values (markup (logicalLines text)), .char '"' ∉ v) ∧
    (HasOwnAttributes (Document.tokens (rawHtml text)) ↔
      ∀ right, afterQuote? (markup (logicalLines text)) = some right →
        ∀ others rest, Token.attributes? (render right) = some (others, rest) →
          (∀ a ∈ others, a.name ∈ attributeNames) ∧ HasOwnAttributes (Token.scan rest)) := by
  have hcomplete := complete_markup (logicalLines text)
  have hown := hasOwnAttributes_tokens (markup (logicalLines text))
  cases hafter : afterQuote? (markup (logicalLines text)) with
  | none =>
    have hquote := (afterQuote?_eq_none_iff hcomplete).mp hafter
    rw [tokens_rawHtml_of_forall hquote]
    refine ⟨fun _ => hown, ⟨fun _ => hquote, fun _ => rfl⟩, fun _ _ h => ?_, fun _ => hown⟩
    exact absurd h (Option.some_ne_none _).symm
  | some right =>
    have hquote : ¬ ∀ v ∈ values (markup (logicalLines text)), .char '"' ∉ v := by
      rw [← afterQuote?_eq_none_iff hcomplete, hafter]
      exact Option.some_ne_none _
    have hcut := cutShort_of_quote hcomplete hafter []
    rw [List.append_nil] at hcut
    refine ⟨fun h => absurd h hquote, ⟨fun heq => ?_, fun h => absurd h hquote⟩, ?_⟩
    · have hne := hcut.scan_ne []
      rw [List.append_nil, List.append_nil, ← tokens_rawHtml] at hne
      exact absurd heq hne
    · obtain ⟨before, tag, first, a, others, after, hwritten, hname, -, hscan⟩ := hcut
      rw [hwritten, hasOwnAttributes_append, hasOwnAttributes_startTag] at hown
      obtain ⟨hbefore, hattributes, -⟩ := hown
      have hfirst : first.name ∈ attributeNames := hname ▸ hattributes a List.mem_cons_self
      rw [List.append_nil] at hscan
      rw [tokens_rawHtml, hscan, hasOwnAttributes_append, hasOwnAttributes_startedTag hfirst]
      simp [hbefore]

theorem hasOwnAttributes_header_and_reference :
    (values (markup (logicalLines ".SH SEE ALSO\n.BR ls (1)".toList))).length = 3 ∧
      HasOwnAttributes (Document.tokens (rawHtml ".SH SEE ALSO\n.BR ls (1)".toList)) :=
  ⟨by decide +kernel, (hasOwnAttributes_rawHtml_iff _).1 (by decide +kernel)⟩

/-- A header that says a quote brings the attribute that it says behind it. -/
theorem not_hasOwnAttributes_quoted_header :
    ¬ HasOwnAttributes (Document.tokens (rawHtml ".SH a\\(dq x=y".toList)) := by
  intro h
  have htag : .startTag .div [⟨"id", "a"⟩, ⟨"x", "y\""⟩, ⟨"class", "section"⟩] ∈
      Document.tokens (rawHtml ".SH a\\(dq x=y".toList) := by
    decide +kernel
  exact absurd (h _ _ htag ⟨"x", "y\""⟩ (by decide)) (by decide)

end Manpage.Page
