import Manpage.Proofs.Html.Scanning
import Manpage.Proofs.Markup.Rendered
import Manpage.Proofs.Markup.Tokens

/-!
# The start tags of rendered fragments

A start tag that is read in the text of fragments is one that a fragment was written for. Its
attributes can be others: a quote in the value of an attribute ends the value, and then text and
tags behind it are read as attributes. But no text is ever read as a tag.

## Main definitions

* `Fragment.startTag?`: the tag that a fragment starts

## Main results

* `exists_startTag?_of_mem_scan`: the start tags of rendered fragments
-/

namespace Manpage.Markup

open Html (Attribute Tag Token)

/-- The tag that a fragment starts. -/
def Fragment.startTag? : Fragment → Option Tag
  | opening e => some e.tag
  | lineBreak => some .br
  | pageStart | sectionStart => some .div
  | anchorStart => some .a
  | _ => none

variable {newlines : Bool} {f : Fragment} {fs : List Fragment} {tag : Tag}
  {attributes : List Attribute} {d : Char} {after right rest : List Char}

/-- A name in front of what cannot be part of it is the name of the tag. -/
theorem eq_of_tag?_append {name : List Char} {c : Char} (hname : name.all Token.isTagNameChar)
    (hc : ¬ Token.isTagNameChar c)
    (h : Token.tag? (name ++ c :: after) = some ((tag, attributes), rest)) :
    tag = .ofName (String.ofList (name.map Token.nameChar)) := by
  rw [Token.tag?_append hname hc] at h
  obtain ⟨p, -, hp⟩ := Option.map_eq_some_iff.mp h
  exact (congrArg (·.1.1) hp).symm

/-- The tag that the text of a fragment starts is the one that it was written for. -/
theorem startTag?_of_chars (hclean : f.isClean newlines) (hd : d.isAlpha)
    (hchars : '<' :: d :: right = f.chars ++ after)
    (h : Token.tag? (d :: right) = some ((tag, attributes), rest)) : f.startTag? = some tag := by
  have named : ∀ (name : String) {c : Char} {behind : List Char},
      d :: right = name.toList ++ c :: behind → name.toList.all Token.isTagNameChar →
        ¬ Token.isTagNameChar c →
          tag = .ofName (String.ofList (name.toList.map Token.nameChar)) := by
    intro name c behind hright hname hc
    rw [hright] at h
    exact eq_of_tag?_append hname hc h
  cases f with
  | char c =>
    obtain rfl := (List.cons.inj hchars).1
    exact absurd (show isPlain '<' from hclean) (by decide)
  | opening e =>
    have hright : d :: right = e.name.toList ++ '>' :: after := by
      simpa [Fragment.chars] using hchars
    rw [hright, tag?_name] at h
    obtain ⟨⟨rfl, -⟩, -⟩ := by simpa using h
    rfl
  | lineBreak =>
    rw [named "br" (List.cons.inj hchars).2 (by decide) (by decide)]
    rfl
  | pageStart | sectionStart =>
    rw [named "div" (List.cons.inj hchars).2 (by decide) (by decide)]
    rfl
  | anchorStart =>
    rw [named "a" (List.cons.inj hchars).2 (by decide) (by decide)]
    rfl
  | closing e =>
    obtain rfl := (List.cons.inj (List.cons.inj hchars).2).1
    exact absurd hd (by decide)
  | divisionEnd | anchorEnd =>
    obtain rfl := (List.cons.inj (List.cons.inj hchars).2).1
    exact absurd hd (by decide)
  | less | greater | ampersand | blank | code | newline | sectionClass | valueEnd =>
    exact absurd (List.cons.inj hchars).1 (by decide)

/-- **The start tags of rendered fragments** are those that fragments were written for. -/
theorem exists_startTag?_of_mem_scan (hclean : ∀ f ∈ fs, f.isClean newlines)
    (h : .startTag tag attributes ∈ Token.scan (render fs)) :
    ∃ f ∈ fs, f.startTag? = some tag := by
  obtain ⟨left, d, right, rest, hrender, hd, htag⟩ := Token.exists_of_startTag_mem h
  obtain ⟨before, f, behind, rfl, -, -, hchars⟩ :=
    exists_fragment_of_render_eq (fun f _ => f.not_mem_tail_chars.1) hrender
  have hf : f ∈ before ++ f :: behind := List.mem_append_right _ List.mem_cons_self
  exact ⟨f, hf, startTag?_of_chars (hclean f hf) hd hchars htag⟩

end Manpage.Markup
