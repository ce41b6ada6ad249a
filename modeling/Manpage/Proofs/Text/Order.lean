import Manpage.Text.Basic
import Mathlib.Data.List.Basic

/-!
# Sorted texts

The members of a sorted set of texts, and why there is only one such list for them.

## Main results

* `mem_sortedSet`: a sorted set has the members it is made of
* `pairwise_sortedSet`: it is in strict order
* `eq_of_pairwise_lt`: texts in strict order are determined by which they are
* `sortedSet_congr`: it is determined by its members
-/

namespace Manpage.Text

variable {a b c : List Char} {texts others : List (List Char)}

theorem notAfter_iff : notAfter a b ↔ ¬ b < a := by
  rw [notAfter, Bool.not_eq_true', decide_eq_false_iff_not]

theorem pairwise_sorted (texts : List (List Char)) :
    (sorted texts).Pairwise (fun a b => ¬ b < a) := by
  have hsorted : (sorted texts).Pairwise (fun a b => notAfter a b) := by
    apply List.pairwise_mergeSort
    · intro a b c hab hbc
      rw [notAfter_iff] at hab hbc ⊢
      exact List.le_trans hab hbc
    · intro a b
      rw [Bool.or_eq_true, notAfter_iff, notAfter_iff]
      exact List.le_total a b
  exact hsorted.imp notAfter_iff.mp

theorem mem_dropRepeats : a ∈ dropRepeats texts ↔ a ∈ texts := by
  fun_induction dropRepeats texts with
  | case1 b texts ih =>
    rw [ih]
    constructor
    · exact List.mem_cons_of_mem b
    · intro h
      rcases List.mem_cons.mp h with rfl | h
      · exact List.mem_cons_self
      · exact h
  | case2 b c texts _ ih => rw [List.mem_cons, ih, List.mem_cons (b := b)]
  | case3 texts => exact Iff.rfl

/-- **The members of a sorted set** are the texts it is made of. -/
theorem mem_sortedSet : a ∈ sortedSet texts ↔ a ∈ texts := by
  rw [sortedSet, mem_dropRepeats, sorted, List.mem_mergeSort]

/-- Texts in order, without those that repeat the one before them, are in strict order. -/
theorem pairwise_dropRepeats (h : texts.Pairwise (fun a b => ¬ b < a)) :
    (dropRepeats texts).Pairwise (· < ·) := by
  fun_induction dropRepeats texts with
  | case1 b texts ih => exact ih h.tail
  | case2 b c texts hne ih =>
    rw [List.pairwise_cons]
    refine ⟨fun d hd => ?_, ih h.tail⟩
    obtain ⟨hfirst, hrest⟩ := List.pairwise_cons.mp h
    have hbc : b < c := by
      by_contra hnot
      exact hne (List.le_antisymm (hfirst c List.mem_cons_self) hnot)
    rcases List.mem_cons.mp (mem_dropRepeats.mp hd) with rfl | hd
    · exact hbc
    · have hcd := (List.pairwise_cons.mp hrest).1 d hd
      by_contra hnot
      exact List.le_trans hcd hnot hbc
  | case3 texts hne =>
    rcases texts with - | ⟨b, - | ⟨c, texts⟩⟩
    · exact List.Pairwise.nil
    · exact List.pairwise_singleton _ _
    · exact absurd rfl (hne b c texts)

/-- **A sorted set is in strict order.** -/
theorem pairwise_sortedSet (texts : List (List Char)) : (sortedSet texts).Pairwise (· < ·) :=
  pairwise_dropRepeats (pairwise_sorted texts)

/-- Texts in strict order are all different. -/
theorem nodup_of_pairwise_lt (h : texts.Pairwise (· < ·)) : texts.Nodup := by
  refine h.imp fun {a b} hab => ?_
  rintro rfl
  exact List.lt_irrefl a hab

/-- **Texts in strict order** are determined by which they are. -/
theorem eq_of_pairwise_lt (h : texts.Pairwise (· < ·)) (h' : others.Pairwise (· < ·))
    (hmem : ∀ a, a ∈ texts ↔ a ∈ others) : texts = others := by
  have hperm : texts.Perm others :=
    (List.perm_ext_iff_of_nodup (nodup_of_pairwise_lt h) (nodup_of_pairwise_lt h')).mpr hmem
  refine hperm.eq_of_pairwise ?_ h h'
  intro a b _ _ hab hba
  exact absurd (List.lt_trans hab hba) (List.lt_irrefl a)

theorem nodup_sortedSet (texts : List (List Char)) : (sortedSet texts).Nodup :=
  nodup_of_pairwise_lt (pairwise_sortedSet texts)

/-- **A sorted set is determined by its members.** -/
theorem sortedSet_congr (h : ∀ a, a ∈ texts ↔ a ∈ others) :
    sortedSet texts = sortedSet others := by
  refine eq_of_pairwise_lt (pairwise_sortedSet texts) (pairwise_sortedSet others) fun a => ?_
  rw [mem_sortedSet, mem_sortedSet]
  exact h a

end Manpage.Text
