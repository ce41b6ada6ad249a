import Manpage.Proofs.Markup.Quotes
import Manpage.Proofs.Markup.Tally
import Manpage.Proofs.Roff.Layout

/-!
# The tokens of layouts

A layout is read part by part. The head of a section is read as the start tag of the section and a
heading with an anchor; if the name holds no tags, then the anchor holds just the text of the name.

## Main definitions

* `textOf`: the text of running text

## Main results

* `tokens_append`: content is read before what follows it
* `tokens_sectionFrame`: the head of a section
* `mem_values_of_layout`: the attribute values of a layout
* `tokens_eq_map_char`: running text without tags
-/

namespace Manpage.Markup

open Html (Attribute Tag Token)

/-- The text of running text, where tags count as they are written. -/
def textOf (value : List Fragment) : List Char :=
  value.flatMap Fragment.inValue

@[simp] theorem toList_valueText (value : List Fragment) :
    (valueText value).toList = textOf value :=
  String.toList_ofList

variable {newlines : Bool} {fs gs name : List Fragment}

/-- Content is read before what follows it. -/
theorem tokens_append (h : Content newlines fs) : tokens (fs ++ gs) = tokens fs ++ tokens gs := by
  induction h with
  | nil => rfl
  | flow hf _ ih =>
    obtain ⟨t, ht⟩ := exists_token_of_isFlow hf
    rw [List.cons_append, tokens_of_token? ht, tokens_of_token? ht, ih, List.cons_append]
  | sectionTag hname _ ih =>
    rw [List.cons_append, List.append_assoc, List.cons_append, tokens_sectionTag hname,
      tokens_sectionTag hname, ih, List.cons_append]
  | anchorTag htarget _ ih =>
    rw [List.cons_append, List.append_assoc, List.cons_append, tokens_anchorTag htarget,
      tokens_anchorTag htarget, ih, List.cons_append]

/-- **The head of a section**: its start tag, and a heading with an anchor around the name. -/
theorem tokens_sectionFrame (hname : IsInline newlines name) :
    tokens (Block.sectionFrame name ++ fs) =
      sectionToken name :: .startTag .h2 [] :: anchorToken (.char '#' :: name) ::
        (tokens name ++ .endTag .a :: .endTag .h2 :: tokens fs) := by
  have htarget : IsInline newlines (.char '#' :: name) := isInline_cons.mpr ⟨rfl, hname⟩
  have hframe : Block.sectionFrame name ++ fs = .sectionStart :: (name ++ .sectionClass ::
      .opening .h2 :: .anchorStart :: (.char '#' :: name ++ .valueEnd ::
        (name ++ .anchorEnd :: .closing .h2 :: fs))) := by
    simp [Block.sectionFrame]
  rw [hframe, tokens_sectionTag hname, tokens_of_token? rfl, tokens_anchorTag htarget,
    tokens_append (.of_inline hname), tokens_of_token? rfl, tokens_of_token? rfl]
  rfl

/-- **The attribute values of a layout** are the names of its sections, by themselves and behind a
`#`, and the targets of its links. -/
theorem mem_values_of_layout {names targets : List (List Fragment)}
    (h : Layout newlines names targets fs) {v : List Fragment} (hv : v ∈ values (fs ++ gs)) :
    v ∈ names ∨ (∃ name ∈ names, v = .char '#' :: name) ∨ v ∈ targets ∨ v ∈ values gs := by
  induction h with
  | nil => exact Or.inr (Or.inr (Or.inr hv))
  | flow hf _ ih =>
    obtain ⟨t, ht⟩ := exists_token_of_isFlow hf
    rw [List.cons_append, values_of_token? ht] at hv
    exact ih hv
  | @head name fs _ _ hname _ ih =>
    have htarget : IsInline newlines (.char '#' :: name) := isInline_cons.mpr ⟨rfl, hname⟩
    have hframe : Block.sectionFrame name ++ fs ++ gs = .sectionStart :: (name ++ .sectionClass ::
        .opening .h2 :: .anchorStart :: (.char '#' :: name ++ .valueEnd ::
          (name ++ .anchorEnd :: .closing .h2 :: (fs ++ gs)))) := by
      simp [Block.sectionFrame]
    rw [hframe, values_sectionTag hname, values_of_token? rfl, values_anchorTag htarget,
      values_append hname, values_of_token? rfl, values_of_token? rfl] at hv
    rcases List.mem_cons.mp hv with rfl | hv
    · exact Or.inl List.mem_cons_self
    · rcases List.mem_cons.mp hv with rfl | hv
      · exact Or.inr (Or.inl ⟨name, List.mem_cons_self, rfl⟩)
      · rcases ih hv with hname | ⟨other, hother, rfl⟩ | hrest
        · exact Or.inl (List.mem_cons_of_mem _ hname)
        · exact Or.inr (Or.inl ⟨other, List.mem_cons_of_mem _ hother, rfl⟩)
        · exact Or.inr (Or.inr hrest)
  | link htarget _ ih =>
    rw [List.cons_append, List.append_assoc, List.cons_append, values_anchorTag htarget] at hv
    rcases List.mem_cons.mp hv with rfl | hv
    · exact Or.inr (Or.inr (Or.inl List.mem_cons_self))
    · exact (ih hv).imp_right (Or.imp_right (Or.imp_left (List.mem_cons_of_mem _)))

/-- A numeric reference that is read as a character which takes the place of no other one is the
reference to this character. -/
theorem toNat_of_codePoint_eq {n : Nat} {d : Char} (hreplacement : d ≠ Html.Reference.replacement)
    (hcontrols : ∀ x ∈ Windows1252.controls, x.2 ≠ d) (h : Html.Reference.codePoint n = d) :
    n ≠ 0 ∧ n = d.toNat := by
  unfold Html.Reference.codePoint at h
  split_ifs at h with hvalid
  · exact absurd h.symm hreplacement
  · rw [not_or, Decidable.not_not] at hvalid
    refine ⟨hvalid.1, ?_⟩
    unfold Windows1252.char at h
    cases hcontrol : Windows1252.controls.lookup n with
    | some c =>
      obtain ⟨before, after, hmem, -⟩ := List.lookup_eq_some_iff.mp hcontrol
      rw [hcontrol, Option.getD_some] at h
      exact absurd h (hcontrols (n, c) (hmem ▸ List.mem_append_right _ List.mem_cons_self))
    | none =>
      rw [hcontrol, Option.getD_none, Char.ofNat, dif_pos hvalid.2] at h
      exact congrArg Char.toNat h

/-- A numeric reference never stands for NUL. -/
theorem codePoint_ne (n : Nat) : Html.Reference.codePoint n ≠ '\x00' := by
  intro h
  obtain ⟨hzero, hvalue⟩ := toNat_of_codePoint_eq (by decide) (by decide) h
  exact hzero hvalue

/-- A fragment of running text that is no tag is one character. -/
theorem exists_char_of_isInline {f : Fragment} (hf : f.isInline newlines)
    (htag : f.isTag = false) :
    ∃ c, c ≠ '\x00' ∧ f.token? = some (.char c) ∧ f.inValue = [c] := by
  cases f with
  | char c => exact ⟨c, ne_of_isPlain hf (by decide), rfl, rfl⟩
  | less | greater | ampersand | blank | newline => exact ⟨_, by decide, rfl, rfl⟩
  | code n => exact ⟨_, codePoint_ne n, rfl, rfl⟩
  | opening | closing => exact absurd htag Bool.noConfusion
  | _ => exact absurd hf Bool.false_ne_true

/-- **Running text without tags** is read as its text. -/
theorem tokens_eq_map_char (hname : IsInline newlines name) (htags : ∀ f ∈ name, f.isTag = false) :
    tokens name = (textOf name).map Token.char ∧ '\x00' ∉ textOf name := by
  induction name with
  | nil => exact ⟨rfl, List.not_mem_nil⟩
  | cons f name ih =>
    obtain ⟨hf, hrest⟩ := isInline_cons.mp hname
    obtain ⟨htag, htags⟩ := List.forall_mem_cons.mp htags
    obtain ⟨c, hc, htoken, hvalue⟩ := exists_char_of_isInline hf htag
    obtain ⟨htokens, hnull⟩ := ih hrest htags
    have htext : textOf (f :: name) = c :: textOf name := by
      rw [textOf, List.flatMap_cons, hvalue]
      rfl
    rw [htext, tokens_of_token? htoken, htokens]
    refine ⟨rfl, fun hmem => ?_⟩
    rcases List.mem_cons.mp hmem with heq | hmem
    · exact hc heq.symm
    · exact hnull hmem

end Manpage.Markup
