import Manpage.Proofs.Markup.Tokens

/-!
# Quotes in attribute values

Fragments are read as they were written exactly if no attribute value holds a quote. Otherwise they
are read so up to the first such quote, and what follows it is read as the rest of a start tag.

## Main definitions

* `Complete`: fragments in which every attribute value is complete
* `afterQuote?`: what follows the first quote in an attribute value
* `CutShort`: fragments that are read as they were written up to some start tag

## Main results

* `afterQuote?_eq_none_iff`: a quote is found exactly if a value holds one
* `scan_render`: fragments whose values hold no quote are read as they were written
* `cutShort_of_quote`: other fragments are read so up to the first quote
-/

namespace Manpage.Markup

open Html (Attribute Tag Token)

/-! ## Fragments with complete values -/

/-- Fragments in which every attribute value is complete: whole fragments, and start tags around
running text. -/
inductive Complete (newlines : Bool) : List Fragment → Prop
  | nil : Complete newlines []
  | whole {f : Fragment} {t : Token} {fs : List Fragment} :
      f.isClean newlines → f.token? = some t → Complete newlines fs → Complete newlines (f :: fs)
  | sectionTag {value fs : List Fragment} :
      IsInline newlines value → Complete newlines fs →
      Complete newlines (.sectionStart :: (value ++ .sectionClass :: fs))
  | anchorTag {value fs : List Fragment} :
      IsInline newlines value → Complete newlines fs →
      Complete newlines (.anchorStart :: (value ++ .valueEnd :: fs))

/-- What follows the first quote that stands in an attribute value; `inValue` says whether the
fragments start in one. -/
def afterQuoteFrom? (inValue : Bool) : List Fragment → Option (List Fragment)
  | [] => none
  | .sectionStart :: fs | .anchorStart :: fs => afterQuoteFrom? true fs
  | f :: fs =>
    if f.endsValue then afterQuoteFrom? false fs
    else if inValue ∧ f = .char '"' then some fs
    else afterQuoteFrom? inValue fs

/-- What follows the first quote that stands in an attribute value, if there is one. -/
def afterQuote? (fs : List Fragment) : Option (List Fragment) :=
  afterQuoteFrom? false fs

section Complete

variable {newlines : Bool} {f : Fragment} {t : Token} {fs gs left right value : List Fragment}

theorem exists_token_of_isFlow (h : f.isFlow newlines) : ∃ t, f.token? = some t := by
  cases f with
  | sectionStart | sectionClass | anchorStart | valueEnd => exact absurd h Bool.false_ne_true
  | _ => exact ⟨_, rfl⟩

/-- The values in content are complete. -/
theorem Content.complete_append (hf : Content newlines fs) (hg : Complete newlines gs) :
    Complete newlines (fs ++ gs) := by
  induction hf with
  | nil => exact hg
  | flow hf _ ih =>
    obtain ⟨t, ht⟩ := exists_token_of_isFlow hf
    exact .whole (Fragment.isClean_of_isFlow hf) ht ih
  | sectionTag h _ ih => simpa using Complete.sectionTag h ih
  | anchorTag h _ ih => simpa using Complete.anchorTag h ih

theorem values_of_token? (h : f.token? = some t) : values (f :: fs) = values fs := by
  cases f with
  | sectionStart | anchorStart => exact absurd h (by simp [Fragment.token?])
  | _ => rfl

theorem afterQuote?_of_token? (h : f.token? = some t) :
    afterQuote? (f :: fs) = afterQuote? fs := by
  cases f with
  | sectionStart | sectionClass | anchorStart | valueEnd =>
    exact absurd h (by simp [Fragment.token?])
  | _ => simp [afterQuote?, afterQuoteFrom?, Fragment.endsValue]

theorem tokens_of_token? (h : f.token? = some t) : tokens (f :: fs) = t :: tokens fs := by
  cases f with
  | sectionStart | sectionClass | anchorStart | valueEnd =>
    exact absurd h (by simp [Fragment.token?])
  | _ =>
    obtain rfl := Option.some.inj h
    rfl

/-- Running text without quotes is passed over in search for a quote. -/
theorem afterQuoteFrom?_append (hvalue : IsInline newlines value) (hquote : .char '"' ∉ value) :
    afterQuoteFrom? true (value ++ fs) = afterQuoteFrom? true fs := by
  induction value with
  | nil => rfl
  | cons f value ih =>
    obtain ⟨hf, htail⟩ := isInline_cons.mp hvalue
    have hhead : f ≠ .char '"' := fun h => hquote (h ▸ List.mem_cons_self)
    have hrest : .char '"' ∉ value := fun h => hquote (List.mem_cons_of_mem _ h)
    rw [← ih htail hrest]
    cases f with
    | sectionStart | sectionClass | anchorStart | valueEnd => exact absurd hf Bool.false_ne_true
    | _ => simp_all [afterQuoteFrom?, Fragment.endsValue]

/-- A value either ends without a quote, or holds a first one. -/
theorem afterQuoteFrom?_cases (hvalue : IsInline newlines value) (hf : f.endsValue)
    (fs : List Fragment) :
    (.char '"' ∉ value ∧ afterQuoteFrom? true (value ++ f :: fs) = afterQuote? fs) ∨
      ∃ left rest, value = left ++ .char '"' :: rest ∧ .char '"' ∉ left ∧
        IsInline newlines left ∧
        afterQuoteFrom? true (value ++ f :: fs) = some (rest ++ f :: fs) := by
  by_cases hquote : .char '"' ∈ value
  · obtain ⟨left, rest, rfl, hleft⟩ := List.eq_append_cons_of_mem hquote
    obtain ⟨hinline, -⟩ := isInline_append.mp hvalue
    refine Or.inr ⟨left, rest, rfl, hleft, hinline, ?_⟩
    rw [List.append_assoc, afterQuoteFrom?_append hinline hleft]
    simp [afterQuoteFrom?, Fragment.endsValue]
  · refine Or.inl ⟨hquote, ?_⟩
    rw [afterQuoteFrom?_append hvalue hquote]
    cases f with
    | sectionClass | valueEnd => rfl
    | _ => exact absurd hf Bool.false_ne_true

/-- A value that is passed over holds no quote, and one that is not holds one. -/
theorem afterQuoteFrom?_eq_none_iff (hvalue : IsInline newlines value) (hf : f.endsValue) :
    afterQuoteFrom? true (value ++ f :: fs) = none ↔
      .char '"' ∉ value ∧ afterQuote? fs = none := by
  rcases afterQuoteFrom?_cases hvalue hf fs with
    ⟨hquote, hafter⟩ | ⟨left, rest, rfl, -, -, hafter⟩
  · rw [hafter]
    exact ⟨fun h => ⟨hquote, h⟩, fun h => h.2⟩
  · rw [hafter]
    constructor
    · intro h
      exact absurd h (Option.some_ne_none _)
    · rintro ⟨h, -⟩
      exact absurd (List.mem_append_right _ List.mem_cons_self) h

/-- A quote is found in a value exactly if some value holds one. -/
theorem afterQuote?_eq_none_iff (h : Complete newlines fs) :
    afterQuote? fs = none ↔ ∀ v ∈ values fs, .char '"' ∉ v := by
  induction h with
  | nil => simp [afterQuote?, afterQuoteFrom?, values]
  | whole _ ht _ ih => rw [afterQuote?_of_token? ht, values_of_token? ht, ih]
  | sectionTag hvalue _ ih =>
    rw [values_sectionTag hvalue, List.forall_mem_cons, ← ih]
    exact afterQuoteFrom?_eq_none_iff hvalue rfl
  | anchorTag hvalue _ ih =>
    rw [values_anchorTag hvalue, List.forall_mem_cons, ← ih]
    exact afterQuoteFrom?_eq_none_iff hvalue rfl

/-- **Fragments whose values hold no quote are read as they were written.** -/
theorem scan_render (h : Complete newlines fs) (hquote : ∀ v ∈ values fs, .char '"' ∉ v)
    (cs : List Char) : Token.scan (render fs ++ cs) = tokens fs ++ Token.scan cs := by
  induction h with
  | nil => rfl
  | whole hf ht _ ih =>
    rw [values_of_token? ht] at hquote
    rw [render_cons, List.append_assoc, scan_chars _ hf ht, tokens_of_token? ht, ih hquote,
      List.cons_append]
  | sectionTag hvalue _ ih =>
    rw [values_sectionTag hvalue] at hquote
    obtain ⟨hhead, htail⟩ := List.forall_mem_cons.mp hquote
    rw [scan_sectionTag _ hvalue hhead, tokens_sectionTag hvalue, ih htail, List.cons_append]
  | anchorTag hvalue _ ih =>
    rw [values_anchorTag hvalue] at hquote
    obtain ⟨hhead, htail⟩ := List.forall_mem_cons.mp hquote
    rw [scan_anchorTag _ hvalue hhead, tokens_anchorTag hvalue, ih htail, List.cons_append]

/-- Whether `fs` are read as they were written up to a start tag whose first attribute is cut short,
where `text` is read as the rest of that tag. -/
def CutShort (fs : List Fragment) (cs text : List Char) : Prop :=
  ∃ before tag first a others after,
    tokens fs = before ++ .startTag tag (a :: others) :: after ∧ first.name = a.name ∧
      first ≠ a ∧ Token.scan (render fs ++ cs) = before ++ Token.startedTag tag first text

/-- What is read as it was written can come before. -/
theorem CutShort.cons {cs text : List Char} (h : CutShort fs cs text)
    (htokens : tokens gs = t :: tokens fs)
    (hscan : Token.scan (render gs ++ cs) = t :: Token.scan (render fs ++ cs)) :
    CutShort gs cs text := by
  obtain ⟨before, tag, first, a, others, after, hwritten, hname, hne, hread⟩ := h
  refine ⟨t :: before, tag, first, a, others, after, ?_, hname, hne, ?_⟩
  · rw [htokens, hwritten, List.cons_append]
  · rw [hscan, hread, List.cons_append]

/-- **Fragments with a quote in a value** are read as they were written up to the start tag with the
first such quote. What follows the quote is read as the rest of that tag. -/
theorem cutShort_of_quote (h : Complete newlines fs) (hquote : afterQuote? fs = some right)
    (cs : List Char) : CutShort fs cs (render right ++ cs) := by
  induction h with
  | nil => exact absurd hquote (Option.some_ne_none _).symm
  | whole hf ht _ ih =>
    rw [afterQuote?_of_token? ht] at hquote
    refine (ih hquote).cons (tokens_of_token? ht) ?_
    rw [render_cons, List.append_assoc, scan_chars _ hf ht]
  | @sectionTag value fs hvalue _ ih =>
    rcases afterQuoteFrom?_cases (f := .sectionClass) hvalue rfl fs with
      ⟨hnone, hafter⟩ | ⟨left, rest, rfl, hleft, hinline, hafter⟩
    · exact (ih (hafter.symm.trans hquote)).cons (tokens_sectionTag hvalue)
        (scan_sectionTag _ hvalue hnone)
    · obtain rfl := Option.some.inj (hafter.symm.trans hquote)
      have hne : (⟨"id", valueText left⟩ : Attribute) ≠
          ⟨"id", valueText (left ++ .char '"' :: rest)⟩ :=
        fun h => valueText_ne left rest (Attribute.mk.inj h).2
      refine ⟨[], .div, ⟨"id", valueText left⟩, _, _, _, tokens_sectionTag hvalue, rfl, hne, ?_⟩
      rw [List.append_assoc, List.cons_append, scan_sectionTag_of_quote _ hinline hleft]
      rfl
  | @anchorTag value fs hvalue _ ih =>
    rcases afterQuoteFrom?_cases (f := .valueEnd) hvalue rfl fs with
      ⟨hnone, hafter⟩ | ⟨left, rest, rfl, hleft, hinline, hafter⟩
    · exact (ih (hafter.symm.trans hquote)).cons (tokens_anchorTag hvalue)
        (scan_anchorTag _ hvalue hnone)
    · obtain rfl := Option.some.inj (hafter.symm.trans hquote)
      have hne : (⟨"href", valueText left⟩ : Attribute) ≠
          ⟨"href", valueText (left ++ .char '"' :: rest)⟩ :=
        fun h => valueText_ne left rest (Attribute.mk.inj h).2
      refine ⟨[], .a, ⟨"href", valueText left⟩, _, _, _, tokens_anchorTag hvalue, rfl, hne, ?_⟩
      rw [List.append_assoc, List.cons_append, scan_anchorTag_of_quote _ hinline hleft]
      rfl

/-- What is cut short is not read as it was written, whatever follows. -/
theorem CutShort.scan_ne {cs text : List Char} (h : CutShort fs cs text) (ts : List Token) :
    Token.scan (render fs ++ cs) ≠ tokens fs ++ ts := by
  obtain ⟨before, tag, first, a, others, after, hwritten, -, hne, hread⟩ := h
  rw [hread, hwritten, List.append_assoc, List.cons_append]
  intro heq
  exact Token.startedTag_ne hne (List.append_cancel_left heq)

end Complete

end Manpage.Markup
