import Manpage.Markup.Fragment
import Mathlib.Tactic.SplitIfs

/-!
# The content of a page

What may stand between the start and the end of a page: running text, whole tags, and start tags
whose attribute value is running text. Content is closed under appending, so a page's content is
the content that its lines write.

## Main definitions

* `Fragment.isInline`: the fragments of running text
* `Fragment.isFlow`: the fragments that stand alone outside attribute values
* `Content`: the content of a page

## Main results

* `Content.append`, `Content.of_inline`: content is made of running text and of content
* `isInline_escape`: plain text is running text once it is escaped
-/

namespace Manpage.Markup

/-- Whether a character stands for itself: printable ASCII, and not one that HTML reads as
markup. -/
def isPlain (c : Char) : Bool :=
  ' ' ≤ c && c ≤ '~' && c != '<' && c != '>' && c != '&'

theorem ne_of_isPlain {c d : Char} (hc : isPlain c) (hd : ¬ isPlain d) : c ≠ d := by
  rintro rfl
  exact hd hc

namespace Fragment

/-- The fragments of running text: characters that need no escaping, references, the tags of fonts
and, if there can be `newlines`, line breaks. -/
def isInline (newlines : Bool) : Fragment → Bool
  | char c => isPlain c
  | less | greater | ampersand | blank | code _ => true
  | newline => newlines
  | opening .b | opening .i | closing .b | closing .i => true
  | opening _ | closing _ | lineBreak | pageStart | sectionStart | sectionClass | divisionEnd
  | anchorStart | valueEnd | anchorEnd => false

/-- The fragments that stand alone outside attribute values, apart from the tags of the root and
the body. -/
def isFlow (newlines : Bool) : Fragment → Bool
  | opening .html | opening .body | closing .html | closing .body => false
  | opening _ | closing _ | lineBreak | pageStart | divisionEnd | anchorEnd => true
  | f => f.isInline newlines

theorem isFlow_of_isInline {newlines : Bool} {f : Fragment} (h : f.isInline newlines) :
    f.isFlow newlines := by
  cases f with
  | opening e => cases e <;> simp_all [isInline, isFlow]
  | closing e => cases e <;> simp_all [isInline, isFlow]
  | _ => simp_all [isInline, isFlow]

/-- A line break needs leave, all other fragments of running text do not. -/
theorem isInline_mono {newlines more : Bool} (hle : newlines → more) {f : Fragment}
    (h : f.isInline newlines) : f.isInline more := by
  cases f with
  | newline => exact hle h
  | opening e => cases e <;> exact h
  | closing e => cases e <;> exact h
  | _ => exact h

theorem isFlow_mono {newlines more : Bool} (hle : newlines → more) {f : Fragment}
    (h : f.isFlow newlines) : f.isFlow more := by
  cases f with
  | newline => exact hle h
  | opening e => cases e <;> exact h
  | closing e => cases e <;> exact h
  | _ => exact h

/-- A character that stands for itself is written as it is. -/
theorem ofChar_of_isPlain {c : Char} (h : isPlain c) : ofChar c = .char c := by
  simp only [isPlain, Bool.and_eq_true, decide_eq_true_eq, bne_iff_ne] at h
  obtain ⟨⟨⟨⟨hlow, hhigh⟩, hless⟩, hgreater⟩, hampersand⟩ := h
  have hrange : ¬ (c < ' ' ∨ '~' < c) := by
    rintro (h | h)
    · exact absurd hlow (Char.not_le.mpr h)
    · exact absurd hhigh (Char.not_le.mpr h)
  rw [ofChar, if_neg hless, if_neg hgreater, if_neg hampersand, if_neg hrange]

theorem isInline_ofChar (newlines : Bool) (c : Char) : (ofChar c).isInline newlines := by
  unfold ofChar
  split_ifs with hless hgreater hampersand hcode
  · rfl
  · rfl
  · rfl
  · rfl
  · have hlow : ' ' ≤ c := Char.not_lt.mp fun h => hcode (Or.inl h)
    have hhigh : c ≤ '~' := Char.not_lt.mp fun h => hcode (Or.inr h)
    simp [isInline, isPlain, hlow, hhigh, hless, hgreater, hampersand]

end Fragment

/-! ## Running text -/

/-- Whether fragments are running text. -/
def IsInline (newlines : Bool) (fs : List Fragment) : Prop :=
  ∀ f ∈ fs, f.isInline newlines

section Inline

variable {newlines : Bool} {fs gs : List Fragment}

theorem IsInline.nil : IsInline newlines [] := fun _ h => absurd h List.not_mem_nil

theorem isInline_cons {f : Fragment} :
    IsInline newlines (f :: fs) ↔ f.isInline newlines ∧ IsInline newlines fs :=
  List.forall_mem_cons

theorem isInline_append :
    IsInline newlines (fs ++ gs) ↔ IsInline newlines fs ∧ IsInline newlines gs :=
  List.forall_mem_append

theorem IsInline.mono {more : Bool} (h : IsInline newlines fs) (hle : newlines → more) :
    IsInline more fs :=
  fun f hf => Fragment.isInline_mono hle (h f hf)

theorem isInline_escape (cs : List Char) : IsInline newlines (escape cs) := by
  fun_induction escape cs with
  | case1 => exact IsInline.nil
  | case2 cs ih => exact isInline_cons.mpr ⟨rfl, ih⟩
  | case3 c cs _ ih => exact isInline_cons.mpr ⟨Fragment.isInline_ofChar _ _, ih⟩

/-- The library's own wording is running text if its characters are plain. -/
theorem isInline_wording {words : String} (h : words.toList.all isPlain) :
    IsInline newlines (wording words) := by
  intro f hf
  obtain ⟨c, hc, rfl⟩ := List.mem_map.mp hf
  exact List.all_eq_true.mp h c hc

end Inline

/-! ## Content -/

/-- **The content of a page**: running text, whole tags, and the start tags of sections and of
anchors around a value that is running text. -/
inductive Content (newlines : Bool) : List Fragment → Prop
  | nil : Content newlines []
  | flow {f : Fragment} {fs : List Fragment} :
      f.isFlow newlines → Content newlines fs → Content newlines (f :: fs)
  | sectionTag {name fs : List Fragment} :
      IsInline newlines name → Content newlines fs →
      Content newlines (.sectionStart :: (name ++ .sectionClass :: fs))
  | anchorTag {target fs : List Fragment} :
      IsInline newlines target → Content newlines fs →
      Content newlines (.anchorStart :: (target ++ .valueEnd :: fs))

namespace Content

variable {newlines : Bool} {fs gs : List Fragment}

theorem of_flow (h : ∀ f ∈ fs, f.isFlow newlines) : Content newlines fs := by
  induction fs with
  | nil => exact nil
  | cons f fs ih =>
    obtain ⟨hf, hfs⟩ := List.forall_mem_cons.mp h
    exact flow hf (ih hfs)

theorem of_inline (h : IsInline newlines fs) : Content newlines fs :=
  of_flow fun f hf => Fragment.isFlow_of_isInline (h f hf)

theorem append (hf : Content newlines fs) (hg : Content newlines gs) :
    Content newlines (fs ++ gs) := by
  induction hf with
  | nil => exact hg
  | flow h _ ih => exact flow h ih
  | sectionTag h _ ih => simpa using sectionTag h ih
  | anchorTag h _ ih => simpa using anchorTag h ih

theorem inline_append (hf : IsInline newlines fs) (hg : Content newlines gs) :
    Content newlines (fs ++ gs) :=
  (of_inline hf).append hg

/-- What holds of running text, of whole tags and of the ends of attribute values holds throughout
content. -/
theorem forall_mem {p : Fragment → Prop} (hflow : ∀ f, f.isFlow newlines → p f)
    (hvalue : ∀ f ∈ [.sectionStart, .sectionClass, .anchorStart, .valueEnd], p f)
    (h : Content newlines fs) : ∀ f ∈ fs, p f := by
  simp only [List.forall_mem_cons] at hvalue
  obtain ⟨hstart, hclass, hanchor, hend, -⟩ := hvalue
  have hinline : ∀ {gs : List Fragment}, IsInline newlines gs → ∀ f ∈ gs, p f :=
    fun hgs f hf => hflow f (Fragment.isFlow_of_isInline (hgs f hf))
  induction h with
  | nil => simp
  | flow hf _ ih => exact List.forall_mem_cons.mpr ⟨hflow _ hf, ih⟩
  | sectionTag hname _ ih =>
    simp only [List.forall_mem_cons, List.forall_mem_append]
    exact ⟨hstart, hinline hname, hclass, ih⟩
  | anchorTag htarget _ ih =>
    simp only [List.forall_mem_cons, List.forall_mem_append]
    exact ⟨hanchor, hinline htarget, hend, ih⟩

end Content

end Manpage.Markup
