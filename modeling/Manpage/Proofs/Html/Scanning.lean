import Manpage.Html.Token
import Mathlib.Data.List.Infix

/-!
# Where tags are read

Whatever is read from a text, a reference, an attribute value, a tag or a comment, what is left is
an end of the text. So a start tag that is read stands in the text, from its `<` to the end of its
name, whatever the tags before it take for their own.

## Main results

* `Token.next_suffix`: what is left once the first tokens are read is an end of the text
* `Token.exists_of_startTag_mem`: a start tag stands in the text where it is read
-/

namespace Manpage.Html

/-! ## References -/

namespace Reference

theorem afterSemicolon_suffix (cs : List Char) : afterSemicolon cs <:+ cs := by
  unfold afterSemicolon
  split
  · exact List.suffix_cons _ _
  · exact List.suffix_rfl

theorem numeric?_suffix {base : Nat} {cs rest : List Char} {c : Char}
    (h : numeric? base cs = some (c, rest)) : rest <:+ cs := by
  unfold numeric? at h
  split at h
  · cases h
  · obtain ⟨-, rfl⟩ := Prod.mk.inj (Option.some.inj h)
    exact (afterSemicolon_suffix _).trans (List.drop_suffix _ _)

theorem named?_suffix {inValue : Bool} {cs rest : List Char} {c : Char}
    (h : named? inValue cs = some (c, rest)) : rest <:+ cs := by
  obtain ⟨⟨name, d⟩, -, h⟩ := List.exists_of_findSome?_eq_some h
  have hdrop : cs.drop name.length <:+ cs := List.drop_suffix _ _
  dsimp only at h
  split at h
  · split at h
    · next heq =>
      obtain ⟨-, rfl⟩ := Prod.mk.inj (Option.some.inj h)
      exact (List.suffix_cons _ _).trans (heq ▸ hdrop)
    · split at h
      · cases h
      · obtain ⟨-, rfl⟩ := Prod.mk.inj (Option.some.inj h)
        exact hdrop
  · cases h

/-- What follows a reference is an end of the text. -/
theorem read_suffix (inValue : Bool) (cs : List Char) : (read inValue cs).2 <:+ cs := by
  unfold read
  cases h : read? inValue cs with
  | none => exact List.suffix_rfl
  | some p =>
    unfold read? at h
    split at h
    · exact (numeric?_suffix h).trans (List.suffix_append ['#', 'x'] _)
    · exact (numeric?_suffix h).trans (List.suffix_append ['#', 'X'] _)
    · exact (numeric?_suffix h).trans (List.suffix_cons _ _)
    · exact named?_suffix h

end Reference

/-! ## Tags -/

namespace Token

theorem quotedValue_suffix (q : Char) (cs : List Char) : (quotedValue q cs).2 <:+ cs := by
  fun_induction quotedValue q cs with
  | case1 => exact List.suffix_rfl
  | case2 => exact List.suffix_cons _ _
  | case3 cs p value rest hvalue _ ih =>
    rw [hvalue] at ih
    exact (ih.trans (Reference.read_suffix true cs)).trans (List.suffix_cons _ _)
  | case4 c cs _ _ value rest hvalue ih =>
    rw [hvalue] at ih
    exact ih.trans (List.suffix_cons _ _)

theorem plainValue_suffix (cs : List Char) : (plainValue cs).2 <:+ cs := by
  fun_induction plainValue cs with
  | case1 => exact List.suffix_rfl
  | case2 => exact List.suffix_rfl
  | case3 cs p value rest hvalue _ ih =>
    rw [hvalue] at ih
    exact (ih.trans (Reference.read_suffix true cs)).trans (List.suffix_cons _ _)
  | case4 c cs _ _ value rest hvalue ih =>
    rw [hvalue] at ih
    exact ih.trans (List.suffix_cons _ _)

theorem assignedValue_suffix (cs : List Char) : (assignedValue cs).2 <:+ cs := by
  have hdrop : cs.dropWhile isSpace <:+ cs := List.dropWhile_suffix isSpace
  unfold assignedValue
  split
  · next rest heq =>
    exact (quotedValue_suffix _ rest).trans ((List.suffix_cons _ _).trans (heq ▸ hdrop))
  · next rest heq =>
    exact (quotedValue_suffix _ rest).trans ((List.suffix_cons _ _).trans (heq ▸ hdrop))
  · exact (plainValue_suffix _).trans hdrop

theorem valueAfterName_suffix (cs : List Char) : (valueAfterName cs).2 <:+ cs := by
  have hdrop : cs.dropWhile isSpace <:+ cs := List.dropWhile_suffix isSpace
  unfold valueAfterName
  split
  · next rest heq =>
    exact (assignedValue_suffix rest).trans ((List.suffix_cons _ _).trans (heq ▸ hdrop))
  · exact hdrop

/-- What follows a tag is an end of the text. -/
theorem attributes?_suffix {cs rest : List Char} {attributes : List Attribute}
    (h : attributes? cs = some (attributes, rest)) : rest <:+ cs := by
  fun_induction attributes? cs generalizing attributes rest with
  | case1 => cases h
  | case2 =>
    obtain ⟨-, rfl⟩ := Prod.mk.inj (Option.some.inj h)
    exact List.suffix_cons _ _
  | case3 c cs _ _ ih => exact (ih h).trans (List.suffix_cons _ _)
  | case4 c cs _ _ ih =>
    obtain ⟨⟨others, r⟩, hothers, hr⟩ := Option.map_eq_some_iff.mp h
    obtain ⟨-, rfl⟩ := Prod.mk.inj hr
    have hread : (readAttribute c cs).2 <:+ cs :=
      (valueAfterName_suffix _).trans (List.dropWhile_suffix _)
    exact ((ih hothers).trans hread).trans (List.suffix_cons _ _)

theorem tag?_suffix {cs rest : List Char} {t : Tag × List Attribute}
    (h : tag? cs = some (t, rest)) : rest <:+ cs := by
  obtain ⟨⟨attributes, r⟩, hattributes, hr⟩ := Option.map_eq_some_iff.mp h
  obtain ⟨-, rfl⟩ := Prod.mk.inj hr
  exact (attributes?_suffix hattributes).trans (List.dropWhile_suffix _)

theorem afterComment_suffix (cs : List Char) : afterComment cs <:+ cs :=
  (List.drop_suffix _ _).trans (List.dropWhile_suffix _)

/-! ## Texts -/

/-- What is left once the first tokens are read is an end of the text. -/
theorem next_suffix (c : Char) (cs : List Char) : (next c cs).2 <:+ cs := by
  unfold next
  split
  · exact Reference.read_suffix false cs
  split
  · split
    · next d rest =>
      have hrest : d :: rest <:+ '/' :: d :: rest := List.suffix_cons _ _
      split
      · split
        · next h => exact (tag?_suffix h).trans hrest
        · exact List.nil_suffix
      · exact (afterComment_suffix _).trans hrest
    · next d rest _ =>
      split
      · split
        · next h => exact tag?_suffix h
        · exact List.nil_suffix
      · split
        · exact (afterComment_suffix rest).trans (List.suffix_cons _ _)
        · exact List.suffix_rfl
    · exact List.suffix_rfl
  · exact List.suffix_rfl

/-- A start tag that comes first stands at the start of the text. -/
theorem eq_of_startTag_mem_next {c : Char} {cs : List Char} {tag : Tag}
    {attributes : List Attribute} (h : .startTag tag attributes ∈ (next c cs).1) :
    c = '<' ∧ ∃ d right rest, cs = d :: right ∧ d.isAlpha ∧
      tag? (d :: right) = some ((tag, attributes), rest) := by
  unfold next at h
  split at h
  · simp at h
  split at h
  · next hc =>
    refine ⟨hc, ?_⟩
    split at h
    · split at h
      · split at h <;> simp at h
      · simp at h
    · next d right _ =>
      split at h
      · next hd =>
        split at h
        · next found rest htag =>
          obtain ⟨rfl, rfl⟩ := by simpa using h
          exact ⟨d, right, rest, rfl, hd, htag⟩
        · simp at h
      · split at h <;> simp at h
    · simp at h
  · simp at h

/-- **A start tag stands in the text where it is read.** -/
theorem exists_of_startTag_mem {cs : List Char} {tag : Tag} {attributes : List Attribute}
    (h : .startTag tag attributes ∈ scan cs) :
    ∃ left d right rest, cs = left ++ '<' :: d :: right ∧ d.isAlpha ∧
      tag? (d :: right) = some ((tag, attributes), rest) := by
  induction cs using scan.induct with
  | case1 =>
    rw [scan] at h
    exact absurd h List.not_mem_nil
  | case2 c cs ih =>
    rw [scan, List.mem_append] at h
    rcases h with h | h
    · obtain ⟨rfl, d, right, rest, rfl, hd, htag⟩ := eq_of_startTag_mem_next h
      exact ⟨[], d, right, rest, rfl, hd, htag⟩
    · obtain ⟨left, d, right, rest, hleft, hd, htag⟩ := ih h
      obtain ⟨before, hbefore⟩ := next_suffix c cs
      refine ⟨c :: (before ++ left), d, right, rest, ?_, hd, htag⟩
      rw [← hbefore, hleft]
      simp

end Token

end Manpage.Html
