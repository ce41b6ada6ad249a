import Manpage.Link.Contents
import Manpage.Proofs.Text.Order

/-!
# The order of links

Links are listed by their groups: the empty link, then words, then all others, and in either of
these links of two characters before the rest. Sorting by the group keeps the order in a group,
which is that of the code points, since the links come from a sorted set. So every two links stand
in an order of their own, and there is one list of them only, whatever order they were collected
in.

## Main definitions

* `IsListing`: a set of links in the order in which they are listed

## Main results

* `filter_displayOrder`: links of one group keep their order
* `isListing_iff`: the only listing of a set of links
-/

namespace Manpage.Link

variable {links texts listed : List (List Char)} {a b : List Char}

/-- Whether a link is a word: whether it starts with a letter. -/
def IsWordLink : List Char → Prop
  | [] => False
  | c :: _ => Text.isLetter c

instance : DecidablePred IsWordLink
  | [] => inferInstanceAs (Decidable False)
  | c :: _ => inferInstanceAs (Decidable (Text.isLetter c = true))

/-- **A listing** of the links `texts`: each of them once, the empty one first, then words before
all others, of words as of others those of two characters before the rest, and otherwise in the
order of their code points. -/
structure IsListing (texts listed : List (List Char)) : Prop where
  /-- No link is listed twice. -/
  nodup : listed.Nodup
  /-- All of the links are listed, and nothing else is. -/
  mem_iff : ∀ link, link ∈ listed ↔ link ∈ texts
  /-- The empty link stands behind no other one. -/
  empty_first : listed.Pairwise fun _ b => b ≠ []
  /-- What stands before a word is a word or the empty link. -/
  words_first : listed.Pairwise fun a b => IsWordLink b → a = [] ∨ IsWordLink a
  /-- What stands before a link of two characters in its group has two characters, too. -/
  short_first : listed.Pairwise fun a b =>
    a ≠ [] → (IsWordLink a ↔ IsWordLink b) → b.length = 2 → a.length = 2
  /-- Links that nothing else tells apart are in the order of their code points. -/
  in_order : listed.Pairwise fun a b =>
    (IsWordLink a ↔ IsWordLink b) → (a.length = 2 ↔ b.length = 2) → a < b

/-- Whether the link `a` stands before `b`: by its group, and in one group by its code points. -/
def StandsBefore (a b : List Char) : Prop :=
  displayGroup a < displayGroup b ∨ displayGroup a = displayGroup b ∧ a < b

/-! ## The order of two links -/

theorem displayGroup_cons (c : Char) (cs : List Char) :
    displayGroup (c :: cs) =
      (if IsWordLink (c :: cs) then 1 else 3) + if (c :: cs).length = 2 then 0 else 1 := rfl

theorem StandsBefore.asymm (h : StandsBefore a b) : ¬ StandsBefore b a := by
  rintro (hgroup | ⟨hgroup, hba⟩)
  · rcases h with h | ⟨h, -⟩ <;> omega
  · rcases h with h | ⟨-, hab⟩
    · omega
    · exact List.lt_irrefl a (List.lt_trans hab hba)

/-- The order of two links in the words of a listing. -/
theorem standsBefore_iff :
    StandsBefore a b ↔
      b ≠ [] ∧ (IsWordLink b → a = [] ∨ IsWordLink a) ∧
        (a ≠ [] → (IsWordLink a ↔ IsWordLink b) → b.length = 2 → a.length = 2) ∧
          ((IsWordLink a ↔ IsWordLink b) → (a.length = 2 ↔ b.length = 2) → a < b) := by
  unfold StandsBefore
  rcases b with - | ⟨d, ds⟩
  · simp [displayGroup]
  · rcases a with - | ⟨c, cs⟩
    · have hempty : displayGroup [] < displayGroup (d :: ds) := by
        rw [displayGroup_cons]
        split_ifs <;> decide
      simp [hempty]
    · rw [displayGroup_cons, displayGroup_cons]
      grind

/-! ## Sorting by groups -/

theorem perm_displayOrder (links : List (List Char)) : (displayOrder links).Perm links :=
  List.mergeSort_perm links _

/-- The groups of two links are compared transitively, and any two can be compared. -/
theorem displayGroup_le :
    (∀ a b c : List Char, decide (displayGroup a ≤ displayGroup b) →
        decide (displayGroup b ≤ displayGroup c) → decide (displayGroup a ≤ displayGroup c)) ∧
      ∀ a b : List Char,
        decide (displayGroup a ≤ displayGroup b) || decide (displayGroup b ≤ displayGroup a) := by
  simp only [decide_eq_true_eq, Bool.or_eq_true]
  exact ⟨fun _ _ _ => Nat.le_trans, fun _ _ => Nat.le_total _ _⟩

theorem pairwise_displayGroup (links : List (List Char)) :
    (displayOrder links).Pairwise fun a b => displayGroup a ≤ displayGroup b := by
  have hsorted : (displayOrder links).Pairwise fun a b =>
      decide (displayGroup a ≤ displayGroup b) :=
    List.pairwise_mergeSort displayGroup_le.1 displayGroup_le.2 links
  exact hsorted.imp of_decide_eq_true

/-- **Links of one group keep their order.** -/
theorem filter_displayOrder (group : Nat) (links : List (List Char)) :
    (displayOrder links).filter (displayGroup · == group) =
      links.filter (displayGroup · == group) := by
  have hgroup : (links.filter (displayGroup · == group)).Pairwise fun a b =>
      decide (displayGroup a ≤ displayGroup b) := by
    rw [List.pairwise_filter]
    refine List.pairwise_of_forall fun a b => ?_
    simp only [beq_iff_eq, decide_eq_true_eq]
    omega
  have hsub : (links.filter (displayGroup · == group)).Sublist (displayOrder links) :=
    List.sublist_mergeSort displayGroup_le.1 displayGroup_le.2 hgroup List.filter_sublist
  have hfilter := hsub.filter (displayGroup · == group)
  simp only [List.filter_filter, Bool.and_self] at hfilter
  exact (hfilter.eq_of_length ((perm_displayOrder links).filter _).length_eq.symm).symm

/-- Links that are in the order of their code points are listed in the order of links. -/
theorem pairwise_displayOrder (h : links.Pairwise (· < ·)) :
    (displayOrder links).Pairwise StandsBefore := by
  rw [List.pairwise_iff_forall_sublist]
  intro a b hab
  have hle : displayGroup a ≤ displayGroup b :=
    List.pairwise_iff_forall_sublist.mp (pairwise_displayGroup links) hab
  rcases Nat.lt_or_eq_of_le hle with hlt | heq
  · exact Or.inl hlt
  · have hpair := hab.filter (displayGroup · == displayGroup b)
    rw [filter_displayOrder] at hpair
    have hkept : [a, b].filter (displayGroup · == displayGroup b) = [a, b] := by simp [heq]
    rw [hkept] at hpair
    exact Or.inr ⟨heq, List.pairwise_iff_forall_sublist.mp h (hpair.trans List.filter_sublist)⟩

/-! ## Listings -/

theorem isListing_iff_pairwise :
    IsListing texts listed ↔
      listed.Nodup ∧ (∀ link, link ∈ listed ↔ link ∈ texts) ∧ listed.Pairwise StandsBefore := by
  rw [List.Pairwise.iff fun _ _ => standsBefore_iff]
  simp only [List.pairwise_and_iff]
  constructor
  · rintro ⟨hnodup, hmem, hempty, hwords, hshort, horder⟩
    exact ⟨hnodup, hmem, hempty, hwords, hshort, horder⟩
  · rintro ⟨hnodup, hmem, hempty, hwords, hshort, horder⟩
    exact ⟨hnodup, hmem, hempty, hwords, hshort, horder⟩

/-- **The only listing of a set of links** is their display order. -/
theorem isListing_iff :
    IsListing texts listed ↔ listed = displayOrder (Text.sortedSet texts) := by
  have hperm := perm_displayOrder (Text.sortedSet texts)
  have hnodup := hperm.nodup_iff.mpr (Text.nodup_sortedSet texts)
  have hbefore := pairwise_displayOrder (Text.pairwise_sortedSet texts)
  have hmem : ∀ link, link ∈ displayOrder (Text.sortedSet texts) ↔ link ∈ texts := fun link =>
    hperm.mem_iff.trans Text.mem_sortedSet
  rw [isListing_iff_pairwise]
  constructor
  · rintro ⟨hlisted, hsame, hpairwise⟩
    have hlists : listed.Perm (displayOrder (Text.sortedSet texts)) :=
      (List.perm_ext_iff_of_nodup hlisted hnodup).mpr fun link =>
        (hsame link).trans (hmem link).symm
    refine hlists.eq_of_pairwise ?_ hpairwise hbefore
    intro a b _ _ hab hba
    exact absurd hba hab.asymm
  · rintro rfl
    exact ⟨hnodup, hmem, hbefore⟩

end Manpage.Link
