import Manpage.Proofs.Markup.Rendered
import Mathlib.Algebra.BigOperators.Group.List.Basic
import Mathlib.Data.List.Infix
import Mathlib.Tactic.Ring

/-!
# Tallies

How often a tag occurs in a rendered text, read off the fragments. A tag starts with `<`, which only
ever starts a fragment, so a tag that is counted in the text is counted among the fragments. What
start tags are ahead of end tags is the tally of the fragments under a weight.

## Main definitions

* `occurrences`: how often a text occurs in another one
* `tally`: what fragments weigh together
* `tagWeight`, `divisionWeight`: start tags less end tags
* `IsTagWeight`: the weights under which only tags count

## Main results

* `occurrences_render`: occurrences of a tag are fragments
* `surplus_tag`, `surplus_division`: start tags less end tags in a text, as a tally
-/

namespace Manpage.Markup

/-! ## Occurrences -/

/-- How often `pattern` occurs in `text`. -/
def occurrences (pattern : String) (text : List Char) : Nat :=
  text.tails.countP pattern.toList.isPrefixOf

section Occurrences

variable {pattern : String} {c : Char} {cs text : List Char} {newlines : Bool} {f : Fragment}
  {fs : List Fragment}

theorem occurrences_nil (hhead : pattern.toList.head? = some '<') :
    occurrences pattern [] = 0 := by
  obtain ⟨ps, hps⟩ := List.head?_eq_some_iff.mp hhead
  rw [occurrences, hps]
  rfl

theorem occurrences_cons :
    occurrences pattern (c :: text) =
      (if pattern.toList.isPrefixOf (c :: text) then 1 else 0) + occurrences pattern text := by
  rw [occurrences, List.tails_cons, List.countP_cons, occurrences, Nat.add_comm]

theorem isPrefixOf_cons_of_ne (hhead : pattern.toList.head? = some '<') (hc : c ≠ '<') :
    pattern.toList.isPrefixOf (c :: text) = false := by
  obtain ⟨ps, hps⟩ := List.head?_eq_some_iff.mp hhead
  rw [hps, List.isPrefixOf_cons_cons, beq_false_of_ne hc.symm, Bool.false_and]

/-- A tag does not start where there is no `<`. -/
theorem occurrences_append_of_notMem (hhead : pattern.toList.head? = some '<') (hcs : '<' ∉ cs) :
    occurrences pattern (cs ++ text) = occurrences pattern text := by
  induction cs with
  | nil => rfl
  | cons c cs ih =>
    obtain ⟨hc, hcs⟩ := List.ne_and_not_mem_of_not_mem_cons hcs
    rw [List.cons_append, occurrences_cons, isPrefixOf_cons_of_ne hhead hc.symm, ih hcs]
    simp

/-- Whether a clean fragment starts with a tag does not depend on what follows it, if own markup
starts no tag but itself. -/
theorem isPrefixOf_chars_append (hhead : pattern.toList.head? = some '<')
    (hown : ∀ m ∈ ownMarkup, m.toList <+: pattern.toList → m = pattern)
    (hf : f.isClean newlines) :
    pattern.toList.isPrefixOf (f.chars ++ text) = pattern.toList.isPrefixOf f.chars := by
  obtain ⟨c, cs, hchars⟩ := List.exists_cons_of_ne_nil f.chars_ne_nil
  by_cases hc : c = '<'
  · rw [Bool.eq_iff_iff, List.isPrefixOf_iff_prefix, List.isPrefixOf_iff_prefix]
    refine ⟨fun hstarts => ?_, fun hstarts => hstarts.trans (List.prefix_append _ _)⟩
    obtain ⟨m, hm, hmchars⟩ := Fragment.ownMarkup_of_head? hf (by rw [hchars, hc, List.head?_cons])
    rcases List.prefix_or_prefix_of_prefix hstarts (List.prefix_append _ _) with h | h
    · exact h
    · rw [← hmchars, hown m hm (hmchars ▸ h)]
  · rw [hchars, List.cons_append, isPrefixOf_cons_of_ne hhead hc, isPrefixOf_cons_of_ne hhead hc]

/-- **Occurrences of a tag are fragments**: none of them lies across two fragments or inside one. -/
theorem occurrences_render (hhead : pattern.toList.head? = some '<')
    (hown : ∀ m ∈ ownMarkup, m.toList <+: pattern.toList → m = pattern)
    (hclean : ∀ f ∈ fs, f.isClean newlines) :
    occurrences pattern (render fs) = fs.countP (pattern.toList.isPrefixOf ·.chars) := by
  induction fs with
  | nil => exact occurrences_nil hhead
  | cons f fs ih =>
    obtain ⟨hf, hfs⟩ := List.forall_mem_cons.mp hclean
    obtain ⟨c, cs, hchars⟩ := List.exists_cons_of_ne_nil f.chars_ne_nil
    have htail : '<' ∉ cs := by
      have h := f.not_mem_tail_chars.1
      rwa [hchars] at h
    have hstart : pattern.toList.isPrefixOf (f.chars ++ render fs) =
        pattern.toList.isPrefixOf f.chars := isPrefixOf_chars_append hhead hown hf
    rw [hchars, List.cons_append] at hstart
    rw [render_cons, hchars, List.cons_append, occurrences_cons, hstart,
      occurrences_append_of_notMem hhead htail, ih hfs, List.countP_cons, hchars, Nat.add_comm]

end Occurrences

/-! ## Weights -/

/-- What fragments weigh together. -/
def tally (w : Fragment → Int) (fs : List Fragment) : Int :=
  (fs.map w).sum

section Tally

variable {w : Fragment → Int} {fs gs : List Fragment}

@[simp] theorem tally_nil : tally w [] = 0 := rfl

@[simp] theorem tally_cons {f : Fragment} : tally w (f :: fs) = w f + tally w fs := by
  simp [tally]

@[simp] theorem tally_append : tally w (fs ++ gs) = tally w fs + tally w gs := by
  simp [tally]

/-- A count is a tally. -/
theorem countP_eq_tally {p : Fragment → Bool} :
    (fs.countP p : Int) = tally (fun f => if p f then 1 else 0) fs := by
  induction fs with
  | nil => rfl
  | cons f fs ih =>
    rw [tally_cons, ← ih, List.countP_cons, Int.add_comm]
    push_cast
    rfl

theorem tally_sub {v : Fragment → Int} :
    tally (fun f => v f - w f) fs = tally v fs - tally w fs := by
  induction fs with
  | nil => rfl
  | cons f fs ih =>
    rw [tally_cons, tally_cons, tally_cons, ih]
    ring

end Tally

/-! ## Tags in a text -/

/-- The start tags of an element less its end tags. -/
def tagWeight (e : Element) : Fragment → Int
  | .opening e' => if e' = e then 1 else 0
  | .closing e' => if e' = e then -1 else 0
  | _ => 0

/-- The start tags of divisions less their end tags and less the titles. -/
def divisionWeight : Fragment → Int
  | .pageStart | .sectionStart => 1
  | .divisionEnd => -1
  | .opening .h1 => -1
  | _ => 0

/-- Whether a fragment is a tag that is counted. -/
def Fragment.isTag : Fragment → Bool
  | .opening _ | .closing _ | .pageStart | .sectionStart | .divisionEnd => true
  | _ => false

/-- **Weights of tags**: what is no tag weighs nothing, and neither do the two tags of a font
together. -/
structure IsTagWeight (w : Fragment → Int) : Prop where
  weightless : ∀ f, f.isTag = false → w f = 0
  bold : w (.opening .b) + w (.closing .b) = 0
  italic : w (.opening .i) + w (.closing .i) = 0

theorem isTagWeight_tagWeight (e : Element) : IsTagWeight (tagWeight e) where
  weightless f hf := by cases f <;> simp_all [Fragment.isTag, tagWeight]
  bold := by cases e <;> rfl
  italic := by cases e <;> rfl

theorem isTagWeight_divisionWeight : IsTagWeight divisionWeight where
  weightless f hf := by cases f <;> simp_all [Fragment.isTag, divisionWeight]
  bold := rfl
  italic := rfl

namespace IsTagWeight

variable {w : Fragment → Int} (hw : IsTagWeight w)

include hw

theorem char (c : Char) : w (.char c) = 0 := hw.weightless _ rfl

theorem sectionClass : w .sectionClass = 0 := hw.weightless _ rfl

theorem anchorStart : w .anchorStart = 0 := hw.weightless _ rfl

theorem valueEnd : w .valueEnd = 0 := hw.weightless _ rfl

theorem anchorEnd : w .anchorEnd = 0 := hw.weightless _ rfl

theorem tally_eq_zero {fs : List Fragment} (h : ∀ f ∈ fs, f.isTag = false) : tally w fs = 0 := by
  induction fs with
  | nil => rfl
  | cons f fs ih =>
    obtain ⟨hf, hfs⟩ := List.forall_mem_cons.mp h
    rw [tally_cons, hw.weightless f hf, ih hfs, Int.add_zero]

end IsTagWeight

section Tags

variable {newlines : Bool} {fs : List Fragment} {e : Element} {startTag endTag : String}

theorem isPrefixOf_opening (e : Element) (f : Fragment) :
    (Fragment.opening e).chars.isPrefixOf f.chars = decide (f = .opening e) := by
  cases f with
  | opening e' => cases e <;> cases e' <;> rfl
  | closing => cases e <;> rfl
  | char c => cases e <;> simp [Fragment.chars, Element.name, List.isPrefixOf]
  | _ => cases e <;> rfl

theorem isPrefixOf_closing (e : Element) (f : Fragment) :
    (Fragment.closing e).chars.isPrefixOf f.chars = decide (f = .closing e) := by
  cases f with
  | opening e' => cases e' <;> rfl
  | closing e' => cases e <;> cases e' <;> rfl
  | char c => cases e <;> simp [Fragment.chars, Element.name, List.isPrefixOf]
  | _ => cases e <;> rfl

/-- The start tags of an element in a text. -/
theorem occurrences_startTag (htag : startTag.toList = (Fragment.opening e).chars)
    (hclean : ∀ f ∈ fs, f.isClean newlines) :
    occurrences startTag (render fs) = fs.countP (· = .opening e) := by
  obtain rfl : startTag = String.ofList (Fragment.opening e).chars := by
    rw [← htag, String.ofList_toList]
  rw [occurrences_render (by cases e <;> rfl) (by cases e <;> decide) hclean]
  simp only [String.toList_ofList, isPrefixOf_opening]

/-- The end tags of an element in a text. -/
theorem occurrences_endTag (htag : endTag.toList = (Fragment.closing e).chars)
    (hclean : ∀ f ∈ fs, f.isClean newlines) :
    occurrences endTag (render fs) = fs.countP (· = .closing e) := by
  obtain rfl : endTag = String.ofList (Fragment.closing e).chars := by
    rw [← htag, String.ofList_toList]
  rw [occurrences_render (by cases e <;> rfl) (by cases e <;> decide) hclean]
  simp only [String.toList_ofList, isPrefixOf_closing]

/-- **The start tags of an element less its end tags**, in a text. -/
theorem surplus_tag (hstart : startTag.toList = (Fragment.opening e).chars)
    (hend : endTag.toList = (Fragment.closing e).chars) (hclean : ∀ f ∈ fs, f.isClean newlines) :
    (occurrences startTag (render fs) : Int) - occurrences endTag (render fs) =
      tally (tagWeight e) fs := by
  rw [occurrences_startTag hstart hclean, occurrences_endTag hend hclean, countP_eq_tally,
    countP_eq_tally, ← tally_sub]
  congr 1
  funext f
  cases f with
  | opening e' => simp [tagWeight]
  | closing e' => by_cases h : e' = e <;> simp [tagWeight, h]
  | _ => rfl

/-- **The start tags of divisions less their end tags and less the titles**, in a text. -/
theorem surplus_division (hclean : ∀ f ∈ fs, f.isClean newlines) :
    (occurrences "<div" (render fs) : Int) - occurrences "</div>" (render fs) -
      occurrences "<h1>" (render fs) = tally divisionWeight fs := by
  rw [occurrences_render rfl (by decide) hclean, occurrences_render rfl (by decide) hclean,
    occurrences_startTag (e := .h1) rfl hclean, countP_eq_tally, countP_eq_tally, countP_eq_tally,
    ← tally_sub, ← tally_sub]
  congr 1
  funext f
  cases f with
  | opening e => cases e <;> rfl
  | closing e => cases e <;> rfl
  | char c => simp [divisionWeight, Fragment.chars, List.isPrefixOf]
  | _ => rfl

end Tags

end Manpage.Markup
