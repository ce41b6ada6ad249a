import Manpage.Proofs.Html.Reading
import Manpage.Proofs.Markup.Content

/-!
# Escaped text as it is displayed

What a reader of HTML shows for escaped text. Each character outside of printable ASCII is written
as a numeric reference, and HTML reads such a reference as its character, but for a few: there is no
reference to NUL, and the references to most of the controls from 128 on are read as the characters
that windows-1252 has in their places. Every text without these characters is displayed as itself.

## Main definitions

* `displayed`: written text with its references read
* `unreferable`: the characters that no reference is read as

## Main results

* `codePoint_eq_self_iff`: the characters that their own reference is read as
* `displayed_escape`: what escaped text is displayed as, and when that is the text itself
-/

namespace Manpage.Markup

open Html (Reference.read Reference.codePoint Reference.length_read_le Reference.read_decimal)

/-- **Written text as it is displayed**, outside of tags: its references are read as HTML reads
them, but `&nbsp;` is read as a space. -/
def displayed : List Char → List Char
  | [] => []
  | '&' :: 'n' :: 'b' :: 's' :: 'p' :: ';' :: cs => ' ' :: displayed cs
  | '&' :: cs => (Reference.read false cs).1 :: displayed (Reference.read false cs).2
  | c :: cs => c :: displayed cs
termination_by cs => cs.length
decreasing_by
  · simp only [List.length_cons]
    omega
  · exact Nat.lt_succ_of_le (Reference.length_read_le false cs)
  · exact Nat.lt_succ_self _

/-- **The characters that no reference is read as**: NUL, and the controls that are punctuation and
letters in windows-1252. -/
def unreferable : List Char :=
  '\x00' :: Windows1252.controls.map (Char.ofNat ·.1)

/-! ## Numeric references -/

section CodePoint

variable {c : Char}

/-- **The characters that their own reference is read as** are all but those that no reference is
read as. -/
theorem codePoint_eq_self_iff : Reference.codePoint c.toNat = c ↔ c ∉ unreferable := by
  have hreplaced : ∀ p ∈ Windows1252.controls, p.2.toNat ≠ p.1 := by decide
  have hkeys : ∀ p ∈ Windows1252.controls, (Char.ofNat p.1).toNat = p.1 := by decide
  by_cases hnul : c = '\x00'
  · rw [hnul]
    exact iff_of_false (by decide) fun h => h List.mem_cons_self
  have hcode : Reference.codePoint c.toNat = (Windows1252.controls.lookup c.toNat).getD c := by
    have hzero : c.toNat ≠ 0 := fun h => hnul (Char.toNat_inj.mp h)
    have hvalid : c.toNat.isValidChar := c.valid
    rw [Reference.codePoint, if_neg (by simp [hzero, hvalid]), Windows1252.char, Char.ofNat_toNat]
  rw [hcode, unreferable, List.mem_cons, not_or, List.mem_map]
  cases hlookup : Windows1252.controls.lookup c.toNat with
  | none =>
    rw [List.lookup_eq_none_iff] at hlookup
    refine iff_of_true rfl ⟨hnul, ?_⟩
    rintro ⟨p, hp, rfl⟩
    have hkey : (Char.ofNat p.1).toNat = p.1 := hkeys p hp
    exact absurd (hlookup p hp) (by simp [hkey])
  | some d =>
    obtain ⟨before, after, hcontrols, -⟩ := List.lookup_eq_some_iff.mp hlookup
    have hmem : (c.toNat, d) ∈ Windows1252.controls := by
      rw [hcontrols]
      exact List.mem_append_right _ List.mem_cons_self
    refine iff_of_false ?_ fun h => h.2 ⟨_, hmem, Char.ofNat_toNat c⟩
    intro h
    have hd : d = c := h
    exact hreplaced _ hmem (congrArg Char.toNat hd)

/-- Printable ASCII holds none of the characters that no reference is read as. -/
theorem lt_or_lt_of_mem_unreferable (h : c ∈ unreferable) : c < ' ' ∨ '~' < c := by
  have hall : unreferable.all fun d => d < ' ' ∨ '~' < d := by decide
  exact of_decide_eq_true (List.all_eq_true.mp hall c h)

end CodePoint

/-! ## Reading references -/

section Reading

variable {c d : Char} {rest : List Char} (cs : List Char)

theorem displayed_cons_of_ne (h : c ≠ '&') : displayed (c :: cs) = c :: displayed cs := by
  rw [displayed]
  · rintro rest rfl
    exact absurd rfl h
  · rintro rfl
    exact absurd rfl h

/-- A reference other than `&nbsp;` is read as HTML reads it. -/
theorem displayed_reference (hd : d ≠ 'n') (h : Reference.read false (d :: cs) = (c, rest)) :
    displayed ('&' :: d :: cs) = c :: displayed rest := by
  rw [displayed, h]
  intro rest heq
  exact hd (List.cons.inj heq).1

/-- A character is displayed as what the reference to it is read as, whichever way it is written. -/
theorem displayed_ofChar (c : Char) :
    displayed ((Fragment.ofChar c).chars ++ cs) = Reference.codePoint c.toNat :: displayed cs := by
  unfold Fragment.ofChar
  split_ifs with hless hgreater hampersand hcode
  · rw [hless]
    exact displayed_reference ('t' :: ';' :: cs) (by decide) rfl
  · rw [hgreater]
    exact displayed_reference ('t' :: ';' :: cs) (by decide) rfl
  · rw [hampersand]
    exact displayed_reference ('m' :: 'p' :: ';' :: cs) (by decide) rfl
  · rw [Fragment.chars, List.cons_append, List.cons_append, List.append_assoc]
    exact displayed_reference _ (by decide) (Reference.read_decimal false c.toNat cs)
  · have hplain : c ∉ unreferable := by
      intro hc
      rcases lt_or_lt_of_mem_unreferable hc with h | h
      · exact hcode (Or.inl h)
      · exact hcode (Or.inr h)
    rw [codePoint_eq_self_iff.mpr hplain]
    exact displayed_cons_of_ne cs hampersand

/-- Each character of a text is displayed as what the reference to it is read as. -/
theorem displayed_render_escape :
    displayed (render (escape cs)) = cs.map (Reference.codePoint ·.toNat) := by
  fun_induction escape cs with
  | case1 => rw [render, List.flatMap_nil, displayed, List.map_nil]
  | case2 cs ih =>
    have hblank : ∀ ds, displayed (Fragment.blank.chars ++ ds) = ' ' :: displayed ds :=
      fun ds => displayed.eq_2 ds
    rw [render, List.flatMap_cons, hblank, ← render, ih]
    rfl
  | case3 c cs _ ih =>
    rw [render, List.flatMap_cons, displayed_ofChar, ← render, ih, List.map_cons]

end Reading

/-- **Escaped text is displayed** with each character read as the reference to it. So it is
displayed as itself exactly if it holds none of the characters that no reference is read as. -/
theorem displayed_escape (cs : List Char) :
    displayed (render (escape cs)) = cs.map (Reference.codePoint ·.toNat) ∧
      (displayed (render (escape cs)) = cs ↔ ∀ c ∈ cs, c ∉ unreferable) := by
  refine ⟨displayed_render_escape cs, ?_⟩
  calc displayed (render (escape cs)) = cs
      ↔ cs.map (Reference.codePoint ·.toNat) = cs.map id := by
        rw [displayed_render_escape, List.map_id]
    _ ↔ ∀ c ∈ cs, Reference.codePoint c.toNat = c := List.map_inj_left
    _ ↔ ∀ c ∈ cs, c ∉ unreferable := forall₂_congr fun c _ => codePoint_eq_self_iff

/-- A control from 128 on is displayed as another character. -/
theorem displayed_escape_ne_control :
    displayed (render (escape ['\x80'])) = ['€'] ∧
      displayed (render (escape ['\x80'])) ≠ ['\x80'] := by
  decide +kernel

end Manpage.Markup
