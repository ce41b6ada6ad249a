import Manpage.Text.Basic
import Mathlib.Data.List.DropRight
import Mathlib.Data.List.Infix

/-!
# Trimmed texts

A trimmed text holds all the characters of a text that are no blanks, so nothing longer than it that
starts and ends with such characters occurs in the text.

## Main definitions

* `StartsUnblank`: a text that does not start with a blank

## Main results

* `trim_trim`: a trimmed text has no blanks at its ends
* `mark_trim_infix_iff`: when a trimmed text occurs in the text with a mark in front
-/

namespace Manpage.Text

/-- Whether a text starts with a character that is no blank. -/
def StartsUnblank : List Char → Prop
  | [] => False
  | c :: _ => isBlank c = false

variable {cs ds : List Char}

theorem trimEnd_eq_rdropWhile (cs : List Char) : trimEnd cs = cs.rdropWhile isBlank := rfl

theorem trimStart_eq_self_iff : trimStart cs = cs ↔ cs = [] ∨ StartsUnblank cs := by
  rw [trimStart, List.dropWhile_eq_self_iff]
  cases cs with
  | nil => simp
  | cons c cs => simp [StartsUnblank]

/-- What comes first in a text without a blank at its front has none there either. -/
theorem trimStart_eq_self_of_prefix (h : ds <+: cs) (hcs : trimStart cs = cs) :
    trimStart ds = ds := by
  rw [trimStart_eq_self_iff] at hcs ⊢
  cases ds with
  | nil => exact Or.inl rfl
  | cons d ds =>
    obtain ⟨rest, rfl⟩ := h
    rcases hcs with hnil | hstart
    · exact absurd hnil (List.cons_ne_nil _ _)
    · exact Or.inr hstart

theorem trimStart_trim (cs : List Char) : trimStart (trim cs) = trim cs :=
  trimStart_eq_self_of_prefix (List.rdropWhile_prefix isBlank _)
    (List.dropWhile_idempotent isBlank cs)

/-- A trimmed text has no blanks at its ends. -/
theorem trim_trim (cs : List Char) : trim (trim cs) = trim cs := by
  have hend : trimEnd (trim cs) = trim cs := List.rdropWhile_idempotent isBlank (trimStart cs)
  rw [trim, trimStart_trim, hend]

/-- Trimming takes blanks only. -/
theorem mem_trim_iff {c : Char} (hc : isBlank c = false) : c ∈ trim cs ↔ c ∈ cs := by
  have hdrop : ∀ ds : List Char, c ∈ ds.dropWhile isBlank ↔ c ∈ ds := by
    intro ds
    conv_rhs => rw [← List.takeWhile_append_dropWhile (p := isBlank) (l := ds)]
    rw [List.mem_append, or_iff_right]
    intro hmem
    rw [List.mem_takeWhile_imp hmem] at hc
    exact Bool.noConfusion hc
  rw [trim, trimEnd, List.mem_reverse, hdrop, List.mem_reverse, trimStart, hdrop]

/-- A text that starts with a character that is no blank is trimmed at its end only. -/
theorem trim_of_startsUnblank (h : StartsUnblank cs) : trim cs <+: cs ∧ trim cs ≠ [] := by
  have hstart : trim cs = trimEnd cs := by
    rw [trim, trimStart_eq_self_iff.mpr (Or.inr h)]
  rw [hstart, trimEnd_eq_rdropWhile]
  refine ⟨List.rdropWhile_prefix isBlank cs, fun hnil => ?_⟩
  cases cs with
  | nil => exact h
  | cons c cs =>
    have hblank := List.rdropWhile_eq_nil_iff.mp hnil c List.mem_cons_self
    exact absurd hblank (by rw [show isBlank c = false from h]; exact Bool.false_ne_true)

theorem startsUnblank_trim (h : trim cs ≠ []) : StartsUnblank (trim cs) :=
  (trimStart_eq_self_iff.mp (trimStart_trim cs)).resolve_left h

/-- A text without blanks is trimmed. -/
theorem trim_of_forall (h : ∀ c ∈ cs, isBlank c = false) : trim cs = cs := by
  have hstart : trimStart cs = cs := by
    cases cs with
    | nil => rfl
    | cons c cs => exact trimStart_eq_self_iff.mpr (Or.inr (h c List.mem_cons_self))
  rw [trim, hstart, trimEnd_eq_rdropWhile, List.rdropWhile_eq_self_iff]
  intro hne
  rw [h _ (List.getLast_mem hne)]
  exact Bool.false_ne_true

/-- A blank in front of a text is trimmed. -/
theorem trim_cons_of_isBlank {c : Char} (hc : isBlank c) (cs : List Char) :
    trim (c :: cs) = trim cs := by
  rw [trim, trim, trimStart, trimStart, List.dropWhile_cons_of_pos hc]

/-! ## Where a trimmed text occurs -/

/-- The number of the characters of a text that are no blanks. -/
def unblankCount (cs : List Char) : Nat :=
  cs.countP fun c => !isBlank c

theorem unblankCount_dropWhile (cs : List Char) :
    unblankCount (cs.dropWhile isBlank) = unblankCount cs := by
  induction cs with
  | nil => rfl
  | cons c cs ih =>
    by_cases hc : isBlank c
    · rw [List.dropWhile_cons_of_pos hc, ih, unblankCount, unblankCount,
        List.countP_cons_of_neg (by simp [hc])]
    · rw [List.dropWhile_cons_of_neg hc]

/-- Trimming drops blanks only. -/
theorem unblankCount_trim (cs : List Char) : unblankCount (trim cs) = unblankCount cs := by
  have hreverse : ∀ ds : List Char, unblankCount ds.reverse = unblankCount ds :=
    fun ds => List.countP_reverse
  rw [trim, trimEnd, hreverse, unblankCount_dropWhile, hreverse, trimStart,
    unblankCount_dropWhile]

/-- **A trimmed text occurs behind a mark** in the text with the mark in front only if the text does
not start with a blank. -/
theorem mark_trim_infix_iff {mark : Char} (hmark : isBlank mark = false) (hne : trim cs ≠ []) :
    mark :: trim cs <:+: mark :: cs ↔ StartsUnblank cs := by
  rw [List.infix_cons_iff]
  constructor
  · rintro (hfront | hinfix)
    · have hstart := startsUnblank_trim hne
      obtain ⟨rest, hrest⟩ := (List.prefix_cons_inj mark).mp hfront
      rw [← hrest]
      cases htrim : trim cs with
      | nil => exact absurd htrim hne
      | cons c ds =>
        rw [htrim] at hstart
        exact hstart
    · have hcount : unblankCount (mark :: trim cs) ≤ unblankCount cs :=
        hinfix.sublist.countP_le
      rw [unblankCount, List.countP_cons_of_pos (by simp [hmark]), ← unblankCount,
        unblankCount_trim] at hcount
      omega
  · intro h
    exact Or.inl ((List.prefix_cons_inj mark).mpr (trim_of_startsUnblank h).1)

end Manpage.Text
