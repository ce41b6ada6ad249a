import Manpage.Proofs.Markup.Content

/-!
# Rendered fragments

What can be told from the text of fragments. A `<` or a `&` only ever starts the text of a
fragment, so every occurrence of one of them in a rendered text is a fragment of its own.

## Main definitions

* `ownMarkup`, `valueEnds`: the texts of the fragments of markup
* `IsReference`: the texts of the fragments that start with `&`
* `Fragment.isClean`: the fragments whose text is safe

## Main results

* `exists_fragment_of_render_eq`: an occurrence of a character that only starts fragments
* `ownMarkup_of_render_eq`, `isReference_of_render_eq`: what starts with `<` and with `&`
-/

namespace Manpage.Markup

/-- The texts of the fragments that start with `<`. -/
def ownMarkup : List String :=
  ["<html>", "<body>", "</body>", "</html>", "<div class=\"man-page\">", "<div id=\"", "</div>",
    "<h1>", "</h1>", "<h2>", "</h2>", "<a href=\"", "</a>", "<p>", "</p>", "<b>", "</b>", "<i>",
    "</i>", "<dl>", "</dl>", "<dt>", "</dt>", "<dd>", "</dd>", "<br/>", "<pre>", "</pre>"]

/-- The texts of the fragments that end an attribute value. -/
def valueEnds : List String :=
  ["\" class=\"section\">", "\">"]

/-- The texts of the fragments that start with `&`: four references by name, and the references
by a decimal number. -/
def IsReference (cs : List Char) : Prop :=
  (∃ r ∈ ["&lt;", "&gt;", "&amp;", "&nbsp;"], cs = r.toList) ∨
    ∃ digits : List Char, digits ≠ [] ∧ (∀ d ∈ digits, d.isDigit) ∧
      cs = "&#".toList ++ digits ++ [';']

/-! ## One fragment -/

namespace Fragment

/-- The fragments whose text is safe: a character stands for itself only if it is plain, and a
line break needs leave. -/
def isClean (newlines : Bool) : Fragment → Bool
  | char c => isPlain c
  | newline => newlines
  | less | greater | ampersand | blank | code _ | opening _ | closing _ | lineBreak | pageStart
  | sectionStart | sectionClass | divisionEnd | anchorStart | valueEnd | anchorEnd => true

theorem isClean_of_isFlow {newlines : Bool} {f : Fragment} (h : f.isFlow newlines) :
    f.isClean newlines := by
  cases f with
  | char | newline => exact h
  | _ => rfl

variable {newlines : Bool} {f : Fragment}

theorem chars_ne_nil (f : Fragment) : f.chars ≠ [] := by
  cases f <;> simp [chars]

theorem isPlain_of_isDigit {c : Char} (h : c.isDigit) : isPlain c := by
  rw [Char.isDigit, Bool.and_eq_true, decide_eq_true_eq, decide_eq_true_eq] at h
  simp [isPlain, Char.le_def, ← Char.val_inj]
  grind

/-- The characters of a decimal number are plain. -/
theorem isPlain_of_mem_toDigits {n : Nat} {c : Char} (h : c ∈ Nat.toDigits 10 n) : isPlain c :=
  isPlain_of_isDigit (Nat.isDigit_of_mem_toDigits (by decide) (by decide) h)

/-- A clean fragment is printable ASCII, a line break apart. -/
theorem printable_of_mem_chars (h : f.isClean newlines) {c : Char} (hc : c ∈ f.chars) :
    (' ' ≤ c ∧ c ≤ '~') ∨ (c = '\n' ∧ newlines) := by
  have plain : ∀ {d : Char}, isPlain d → ' ' ≤ d ∧ d ≤ '~' := by
    intro d hd
    simp only [isPlain, Bool.and_eq_true, decide_eq_true_eq] at hd
    exact ⟨hd.1.1.1.1, hd.1.1.1.2⟩
  have all : ∀ {cs : List Char}, (cs.all fun d => ' ' ≤ d && d ≤ '~') → c ∈ cs →
      ' ' ≤ c ∧ c ≤ '~' := by
    intro cs hcs hmem
    simpa using List.all_eq_true.mp hcs c hmem
  cases f with
  | char d =>
    obtain rfl := List.mem_singleton.mp hc
    exact Or.inl (plain h)
  | newline => exact Or.inr ⟨List.mem_singleton.mp hc, h⟩
  | code n =>
    simp only [chars, List.mem_cons, List.mem_append, List.not_mem_nil, or_false] at hc
    rcases hc with rfl | rfl | hc | rfl
    · exact Or.inl (by decide)
    · exact Or.inl (by decide)
    · exact Or.inl (plain (isPlain_of_mem_toDigits hc))
    · exact Or.inl (by decide)
  | opening e => exact Or.inl (all (by cases e <;> decide) hc)
  | closing e => exact Or.inl (all (by cases e <;> decide) hc)
  | _ => exact Or.inl (all (by decide) hc)

/-- After its first character, the text of a fragment holds neither `<` nor `&`. -/
theorem not_mem_tail_chars (f : Fragment) : '<' ∉ f.chars.tail ∧ '&' ∉ f.chars.tail := by
  cases f with
  | code n =>
    have digit : ∀ {c : Char}, ¬ isPlain c → c ∉ Nat.toDigits 10 n :=
      fun hc h => hc (isPlain_of_mem_toDigits h)
    simp [chars, digit (c := '<') (by decide), digit (c := '&') (by decide)]
  | opening e => cases e <;> decide
  | closing e => cases e <;> decide
  | char c => simp [chars]
  | _ => decide

/-- A clean fragment that starts with `<` is own markup. -/
theorem ownMarkup_of_head? (h : f.isClean newlines) (hf : f.chars.head? = some '<') :
    ∃ m ∈ ownMarkup, m.toList = f.chars := by
  cases f with
  | char c =>
    obtain rfl : c = '<' := by simpa [chars] using hf
    exact absurd (show isPlain '<' from h) (by decide)
  | opening e => cases e <;> decide
  | closing e => cases e <;> decide
  | lineBreak | pageStart | sectionStart | divisionEnd | anchorStart | anchorEnd => decide
  | _ => exact absurd hf (by simp [chars])

/-- A clean fragment that starts with `&` is a reference. -/
theorem isReference_of_head? (h : f.isClean newlines) (hf : f.chars.head? = some '&') :
    IsReference f.chars := by
  cases f with
  | char c =>
    obtain rfl : c = '&' := by simpa [chars] using hf
    exact absurd (show isPlain '&' from h) (by decide)
  | less | greater | ampersand | blank => exact Or.inl (by decide)
  | code n =>
    exact Or.inr ⟨Nat.toDigits 10 n, Nat.toDigits_ne_nil,
      fun d hd => Nat.isDigit_of_mem_toDigits (by decide) (by decide) hd, rfl⟩
  | _ => exact absurd hf (by simp [chars])

/-- The text of a clean fragment is a plain character, a line break, a reference or own markup. -/
theorem chars_cases (h : f.isClean newlines) :
    (∃ c, isPlain c ∧ f.chars = [c]) ∨ f.chars = ['\n'] ∨ IsReference f.chars ∨
      ∃ m ∈ ownMarkup ++ valueEnds, m.toList = f.chars := by
  have own : f.chars.head? = some '<' → ∃ m ∈ ownMarkup ++ valueEnds, m.toList = f.chars := by
    intro hf
    obtain ⟨m, hm, hchars⟩ := ownMarkup_of_head? h hf
    exact ⟨m, List.mem_append_left _ hm, hchars⟩
  cases f with
  | char c => exact Or.inl ⟨c, h, rfl⟩
  | newline => exact Or.inr (Or.inl rfl)
  | less | greater | ampersand | blank | code =>
    exact Or.inr (Or.inr (Or.inl (isReference_of_head? h rfl)))
  | sectionClass | valueEnd => exact Or.inr (Or.inr (Or.inr (by decide)))
  | _ => exact Or.inr (Or.inr (Or.inr (own rfl)))

end Fragment

/-! ## Occurrences in a rendered text -/

@[simp] theorem render_nil : render [] = [] := rfl

@[simp] theorem render_cons (f : Fragment) (fs : List Fragment) :
    render (f :: fs) = f.chars ++ render fs := rfl

@[simp] theorem render_append (fs gs : List Fragment) :
    render (fs ++ gs) = render fs ++ render gs :=
  List.flatMap_append

/-- Characters that stand for themselves are written as they are. -/
@[simp] theorem render_map_char (cs : List Char) : render (cs.map Fragment.char) = cs := by
  induction cs with
  | nil => rfl
  | cons c cs ih => rw [List.map_cons, render_cons, ih, Fragment.chars, List.singleton_append]

@[simp] theorem render_wording (words : String) : render (wording words) = words.toList :=
  render_map_char words.toList

/-- A text several times over is rendered as its rendering several times over. -/
theorem render_replicate (n : Nat) (fs : List Fragment) :
    render (List.replicate n fs).flatten = (List.replicate n (render fs)).flatten := by
  induction n with
  | zero => rfl
  | succ n ih =>
    rw [List.replicate_succ, List.flatten_cons, render_append, ih, List.replicate_succ,
      List.flatten_cons]

/-- **An occurrence of a character that only starts fragments** is the start of a fragment: the
text before it is made of whole fragments, and so is the text from it on. -/
theorem exists_fragment_of_render_eq {x : Char} {fs : List Fragment}
    (hx : ∀ f ∈ fs, x ∉ f.chars.tail) {before after : List Char}
    (h : render fs = before ++ x :: after) :
    ∃ left f right, fs = left ++ f :: right ∧ before = render left ∧
      f.chars.head? = some x ∧ x :: after = f.chars ++ render right := by
  induction fs generalizing before with
  | nil => exact absurd h (by simp)
  | cons f fs ih =>
    obtain ⟨hf, hfs⟩ := List.forall_mem_cons.mp hx
    obtain ⟨c, cs, hchars⟩ := List.exists_cons_of_ne_nil f.chars_ne_nil
    rw [hchars, List.tail_cons] at hf
    cases before with
    | nil =>
      refine ⟨[], f, fs, rfl, rfl, ?_, h.symm⟩
      rw [render_cons, hchars] at h
      rw [hchars, List.head?_cons, (List.cons.inj h).1]
    | cons b before =>
      rw [render_cons, hchars, List.cons_append, List.cons_append] at h
      obtain ⟨rfl, htail⟩ := List.cons.inj h
      rcases List.append_eq_append_iff.mp htail with ⟨mid, rfl, hrest⟩ | ⟨mid, rfl, hrest⟩
      · obtain ⟨left, g, right, rfl, rfl, hg, hright⟩ := ih hfs hrest
        exact ⟨f :: left, g, right, rfl, by simp [hchars], hg, hright⟩
      · cases mid with
        | nil =>
          have hnext : render fs = [] ++ x :: after := hrest.symm
          obtain ⟨left, g, right, rfl, hleft, hg, hright⟩ := ih hfs hnext
          refine ⟨f :: left, g, right, rfl, ?_, hg, hright⟩
          rw [render_cons, hchars, ← hleft, List.append_nil, List.append_nil]
        | cons y mid =>
          obtain ⟨rfl, -⟩ := List.cons.inj hrest
          exact absurd (List.mem_append_right _ List.mem_cons_self) hf

section Clean

variable {newlines : Bool} {fs : List Fragment} {before after : List Char}

/-- Every `<` in a text of clean fragments starts own markup. -/
theorem ownMarkup_of_render_eq (hclean : ∀ f ∈ fs, f.isClean newlines)
    (h : render fs = before ++ '<' :: after) :
    ∃ m ∈ ownMarkup, m.toList <+: '<' :: after := by
  obtain ⟨left, f, right, rfl, -, hhead, hafter⟩ :=
    exists_fragment_of_render_eq (fun f _ => f.not_mem_tail_chars.1) h
  obtain ⟨m, hm, hchars⟩ :=
    Fragment.ownMarkup_of_head? (hclean f (List.mem_append_right _ List.mem_cons_self)) hhead
  exact ⟨m, hm, hchars ▸ hafter ▸ List.prefix_append _ _⟩

/-- Every `&` in a text of clean fragments starts a reference. -/
theorem isReference_of_render_eq (hclean : ∀ f ∈ fs, f.isClean newlines)
    (h : render fs = before ++ '&' :: after) :
    ∃ r, IsReference r ∧ r <+: '&' :: after := by
  obtain ⟨left, f, right, rfl, -, hhead, hafter⟩ :=
    exists_fragment_of_render_eq (fun f _ => f.not_mem_tail_chars.2) h
  have href :=
    Fragment.isReference_of_head? (hclean f (List.mem_append_right _ List.mem_cons_self)) hhead
  exact ⟨f.chars, href, hafter ▸ List.prefix_append _ _⟩

/-- A text of clean fragments is printable ASCII, line breaks apart. -/
theorem printable_of_mem_render (hclean : ∀ f ∈ fs, f.isClean newlines) {c : Char}
    (hc : c ∈ render fs) : (' ' ≤ c ∧ c ≤ '~') ∨ (c = '\n' ∧ newlines) := by
  obtain ⟨f, hf, hcf⟩ := List.mem_flatMap.mp hc
  exact Fragment.printable_of_mem_chars (hclean f hf) hcf

end Clean

end Manpage.Markup
