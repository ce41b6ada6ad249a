import Manpage.Text.Basic
import Mathlib.Tactic.SplitIfs

/-!
# The lines of a text

The pieces between separators, and what a text is made of as far as its lines go: a line is a part
of its text, and if a text is cut where a line ends, its lines are those of the one part, followed
by those of the other.

## Main definitions

* `IsCut`: how a list is cut at its separators
* `EndsLine`: texts after which a new line starts

## Main results

* `pieces_eq_splitOnP`, `isCut_iff`, `pieces_induction`: the pieces of a list
* `exists_append_of_mem_pieces`: where a piece stands
* `cut?_eq_some_iff`: what a list is cut into
* `lines_append`: the lines of a text that is cut where a line ends
-/

namespace Manpage.Text

section Pieces

variable {α : Type} {sep : α → Bool}

theorem pieces_eq_splitOnP (sep : α → Bool) (xs : List α) : pieces sep xs = xs.splitOnP sep := by
  induction xs with
  | nil => rfl
  | cons x xs ih =>
    rw [pieces, List.splitOnP_cons_eq_if_modifyHead, ih]
    obtain ⟨piece, rest, hpieces⟩ :=
      List.exists_cons_of_ne_nil (List.splitOnP_ne_nil sep xs)
    rw [hpieces]
    rfl

theorem pieces_cons (sep : α → Bool) (x : α) (xs : List α) :
    pieces sep (x :: xs) =
      if sep x then [] :: pieces sep xs else (pieces sep xs).modifyHead (x :: ·) := by
  rw [pieces_eq_splitOnP, pieces_eq_splitOnP, List.splitOnP_cons_eq_if_modifyHead]

theorem pieces_append_cons {x : α} (h : sep x) (xs ys : List α) :
    pieces sep (xs ++ x :: ys) = pieces sep xs ++ pieces sep ys := by
  rw [pieces_eq_splitOnP, pieces_eq_splitOnP, pieces_eq_splitOnP, List.splitOnP_append_cons xs ys h]

theorem pieces_ne_nil (sep : α → Bool) (xs : List α) : pieces sep xs ≠ [] := by
  rw [pieces_eq_splitOnP]
  exact List.splitOnP_ne_nil sep xs

/-- What comes before the first separator is part of the first piece. -/
theorem pieces_append {xs : List α} (h : ∀ x ∈ xs, sep x = false) (ys : List α) :
    pieces sep (xs ++ ys) = (pieces sep ys).modifyHead (xs ++ ·) := by
  obtain ⟨piece, rest, hpieces⟩ := List.exists_cons_of_ne_nil (pieces_ne_nil sep ys)
  rw [hpieces, List.modifyHead_cons]
  induction xs with
  | nil => exact hpieces
  | cons x xs ih =>
    obtain ⟨hx, hxs⟩ := List.forall_mem_cons.mp h
    rw [List.cons_append, pieces, ih hxs, hx]
    rfl

/-- Without separators there is one piece. -/
theorem pieces_of_forall {xs : List α} (h : ∀ x ∈ xs, sep x = false) : pieces sep xs = [xs] := by
  have hpieces := pieces_append h []
  rwa [List.append_nil, pieces, List.modifyHead_cons, List.append_nil] at hpieces

/-- **How a list is cut at its separators**: into one piece if it has none, and otherwise into what
stands before the first of them and the pieces of what follows it. -/
inductive IsCut (sep : α → Bool) : List α → List (List α) → Prop
  | last {piece : List α} : (∀ x ∈ piece, sep x = false) → IsCut sep piece [piece]
  | cons {piece rest : List α} {x : α} {ps : List (List α)} :
      (∀ x ∈ piece, sep x = false) → sep x → IsCut sep rest ps →
        IsCut sep (piece ++ x :: rest) (piece :: ps)

/-- **The pieces of a list** are what it is cut into. -/
theorem isCut_iff {xs : List α} {ps : List (List α)} : IsCut sep xs ps ↔ pieces sep xs = ps := by
  constructor
  · intro h
    induction h with
    | last hpiece => exact pieces_of_forall hpiece
    | cons hpiece hx _ ih =>
      rw [pieces_append hpiece, pieces_cons, if_pos hx, ih, List.modifyHead_cons, List.append_nil]
  · rintro rfl
    induction xs with
    | nil => exact .last fun _ h => absurd h List.not_mem_nil
    | cons x xs ih =>
      rw [pieces_cons]
      split_ifs with hx
      · exact .cons (fun _ h => absurd h List.not_mem_nil) hx ih
      · have hx : sep x = false := by simpa using hx
        generalize pieces sep xs = ps at ih
        cases ih with
        | last hpiece => exact .last (List.forall_mem_cons.mpr ⟨hx, hpiece⟩)
        | cons hpiece hsep hrest => exact .cons (List.forall_mem_cons.mpr ⟨hx, hpiece⟩) hsep hrest

/-- A list is cut in two at the separator between two of its pieces. -/
theorem IsCut.exists_append_cons {xs : List α} {ps qs : List (List α)} (hps : ps ≠ [])
    (hqs : qs ≠ []) (h : IsCut sep xs (ps ++ qs)) :
    ∃ ys x zs, xs = ys ++ x :: zs ∧ sep x ∧ IsCut sep zs qs := by
  induction ps generalizing xs with
  | nil => exact absurd rfl hps
  | cons p ps ih =>
    rw [List.cons_append] at h
    generalize hrest : ps ++ qs = rest at h
    cases h with
    | last => exact absurd (List.append_eq_nil_iff.mp hrest).2 hqs
    | @cons _ more x _ _ hx hmore =>
      by_cases hnil : ps = []
      · rw [hnil, List.nil_append] at hrest
        exact ⟨p, x, more, rfl, hx, hrest ▸ hmore⟩
      · obtain ⟨ys, y, zs, rfl, hy, hzs⟩ := ih hnil (hrest ▸ hmore)
        exact ⟨p ++ x :: ys, y, zs, by rw [List.append_assoc, List.cons_append], hy, hzs⟩

theorem isCut_pieces (sep : α → Bool) (xs : List α) : IsCut sep xs (pieces sep xs) :=
  isCut_iff.mpr rfl

/-- Where only `x` is a separator, a list without separators is one without `x`. -/
theorem forall_sep_iff [BEq α] [LawfulBEq α] {x : α} {xs : List α} :
    (∀ y ∈ xs, (y == x) = false) ↔ x ∉ xs := by
  refine ⟨fun h hx => ?_, fun h y hy => beq_false_of_ne (ne_of_mem_of_not_mem hy h)⟩
  exact absurd (h x hx) (by simp)

section Single

variable [BEq α] [LawfulBEq α] {x : α} {piece : List α}

/-- Without `x` there is one piece. -/
theorem pieces_of_notMem (h : x ∉ piece) : pieces (· == x) piece = [piece] :=
  pieces_of_forall (forall_sep_iff.mpr h)

/-- The piece that ends at the first `x`, and those after it. -/
theorem pieces_append_sep (h : x ∉ piece) (rest : List α) :
    pieces (· == x) (piece ++ x :: rest) = piece :: pieces (· == x) rest :=
  isCut_iff.mp (.cons (forall_sep_iff.mpr h) (beq_self_eq_true x) (isCut_pieces _ rest))

/-- **Induction on the pieces** between the `x` of a list. -/
@[elab_as_elim]
theorem pieces_induction {motive : List α → Prop} (x : α)
    (last : ∀ piece, x ∉ piece → motive piece)
    (cons : ∀ piece rest, x ∉ piece → motive rest → motive (piece ++ x :: rest))
    (xs : List α) : motive xs := by
  have hcut := isCut_pieces (· == x) xs
  generalize pieces (· == x) xs = ps at hcut
  induction hcut with
  | last hpiece => exact last _ (forall_sep_iff.mp hpiece)
  | @cons piece rest y _ hpiece hy _ ih =>
    obtain rfl : y = x := eq_of_beq hy
    exact cons piece rest (forall_sep_iff.mp hpiece) ih

end Single

/-- The first piece ends before the first separator. -/
theorem exists_pieces_eq_cons (sep : α → Bool) (xs : List α) :
    ∃ rest, pieces sep xs = xs.takeWhile (!sep ·) :: rest := by
  induction xs with
  | nil => exact ⟨[], rfl⟩
  | cons x xs ih =>
    obtain ⟨rest, hrest⟩ := ih
    rw [pieces_cons, hrest, List.takeWhile_cons]
    cases sep x with
    | true => exact ⟨_, rfl⟩
    | false => exact ⟨rest, rfl⟩

/-- The pieces of a list have no separators in them. -/
theorem sep_of_mem_pieces {xs piece : List α} {x : α} (hpiece : piece ∈ pieces sep xs)
    (hx : x ∈ piece) : sep x = false := by
  induction xs generalizing piece with
  | nil =>
    rw [pieces, List.mem_singleton] at hpiece
    exact absurd (hpiece ▸ hx) List.not_mem_nil
  | cons y ys ih =>
    rw [pieces] at hpiece
    split_ifs at hpiece with hy
    · rcases List.mem_cons.mp hpiece with rfl | hpiece
      · exact absurd hx List.not_mem_nil
      · exact ih hpiece hx
    · obtain ⟨first, rest, hpieces⟩ := List.exists_cons_of_ne_nil (pieces_ne_nil sep ys)
      rw [hpieces] at hpiece ih
      rcases List.mem_cons.mp hpiece with rfl | hpiece
      · rcases List.mem_cons.mp hx with rfl | hx
        · simpa using hy
        · exact ih List.mem_cons_self hx
      · exact ih (List.mem_cons_of_mem _ hpiece) hx

/-- The first piece ends before a separator, or at the end. -/
theorem exists_append_of_pieces_eq_cons {xs first : List α} {rest : List (List α)}
    (h : pieces sep xs = first :: rest) :
    ∃ after, xs = first ++ after ∧ ∀ x ∈ after.head?, sep x := by
  induction xs generalizing first rest with
  | nil =>
    obtain ⟨rfl, -⟩ := List.cons.inj h
    exact ⟨[], rfl, by simp⟩
  | cons x xs ih =>
    rw [pieces_cons] at h
    split_ifs at h with hx
    · obtain ⟨rfl, -⟩ := List.cons.inj h
      exact ⟨x :: xs, rfl, by simpa using hx⟩
    · obtain ⟨next, others, hnext⟩ := List.exists_cons_of_ne_nil (pieces_ne_nil sep xs)
      rw [hnext, List.modifyHead_cons] at h
      obtain ⟨rfl, -⟩ := List.cons.inj h
      obtain ⟨after, hxs, hafter⟩ := ih hnext
      exact ⟨after, congrArg (x :: ·) hxs, hafter⟩

/-- A piece stands between two separators, or at an end. -/
theorem exists_append_of_mem_pieces {xs piece : List α} (h : piece ∈ pieces sep xs) :
    ∃ before after, xs = before ++ (piece ++ after) ∧ ∀ x ∈ after.head?, sep x := by
  induction xs with
  | nil =>
    obtain rfl := List.mem_singleton.mp h
    exact ⟨[], [], rfl, by simp⟩
  | cons x xs ih =>
    obtain ⟨first, rest, hpieces⟩ := List.exists_cons_of_ne_nil (pieces_ne_nil sep (x :: xs))
    rw [hpieces] at h
    rcases List.mem_cons.mp h with rfl | h
    · obtain ⟨after, hxs, hafter⟩ := exists_append_of_pieces_eq_cons hpieces
      exact ⟨[], after, hxs, hafter⟩
    · have hlater : piece ∈ pieces sep xs := by
        rw [pieces_cons] at hpieces
        split_ifs at hpieces
        · exact (List.cons.inj hpieces).2 ▸ h
        · have htail := congrArg List.tail hpieces
          rw [List.tail_modifyHead, List.tail_cons] at htail
          exact List.mem_of_mem_tail (htail ▸ h)
      obtain ⟨before, after, hxs, hafter⟩ := ih hlater
      exact ⟨x :: before, after, congrArg (x :: ·) hxs, hafter⟩

theorem mem_of_mem_pieces {xs piece : List α} {x : α} (hpiece : piece ∈ pieces sep xs)
    (hx : x ∈ piece) : x ∈ xs := by
  obtain ⟨before, after, rfl, -⟩ := exists_append_of_mem_pieces hpiece
  exact List.mem_append_right _ (List.mem_append_left _ hx)

/-- What is no separator stands in a piece. -/
theorem exists_mem_pieces (sep : α → Bool) {xs : List α} {x : α} (hx : x ∈ xs)
    (hsep : sep x = false) : ∃ piece ∈ pieces sep xs, x ∈ piece := by
  induction xs with
  | nil => exact absurd hx List.not_mem_nil
  | cons y ys ih =>
    obtain ⟨first, rest, hpieces⟩ := List.exists_cons_of_ne_nil (pieces_ne_nil sep ys)
    rw [pieces_cons, hpieces, List.modifyHead_cons]
    rw [hpieces] at ih
    rcases List.mem_cons.mp hx with rfl | hx
    · rw [if_neg (by simp [hsep])]
      exact ⟨x :: first, List.mem_cons_self, List.mem_cons_self⟩
    · obtain ⟨piece, hpiece, hmem⟩ := ih hx
      split_ifs
      · exact ⟨piece, List.mem_cons_of_mem _ hpiece, hmem⟩
      · rcases List.mem_cons.mp hpiece with rfl | hpiece
        · exact ⟨y :: piece, List.mem_cons_self, List.mem_cons_of_mem _ hmem⟩
        · exact ⟨piece, List.mem_cons_of_mem _ hpiece, hmem⟩

/-- What stands before and after the first separator. -/
theorem eq_of_cut?_eq_some {xs before after : List α} (h : cut? sep xs = some (before, after)) :
    ∃ x, xs = before ++ x :: after := by
  induction xs generalizing before with
  | nil => cases h
  | cons y ys ih =>
    rw [cut?] at h
    split_ifs at h
    · obtain ⟨rfl, rfl⟩ := Prod.mk.inj (Option.some.inj h)
      exact ⟨y, rfl⟩
    · obtain ⟨⟨first, rest⟩, hcut, heq⟩ := Option.map_eq_some_iff.mp h
      obtain ⟨rfl, rfl⟩ := Prod.mk.inj heq
      obtain ⟨x, hx⟩ := ih hcut
      exact ⟨x, by rw [hx]; rfl⟩

section Cut

variable [BEq α] [LawfulBEq α] {x : α} {xs before after : List α}

/-- A list is cut at the first `x` in it. -/
theorem cut?_eq_some_iff :
    cut? (· == x) xs = some (before, after) ↔ xs = before ++ x :: after ∧ x ∉ before := by
  induction xs generalizing before with
  | nil => simp [cut?]
  | cons y ys ih =>
    rw [cut?]
    split_ifs with hy
    · obtain rfl := eq_of_beq hy
      cases before with
      | nil => simp [eq_comm]
      | cons b before =>
        refine iff_of_false (by simp) fun h => h.2 ?_
        rw [(List.cons.inj h.1).1]
        exact List.mem_cons_self
    · have hne : x ≠ y := fun h => hy (beq_iff_eq.mpr h.symm)
      rw [Option.map_eq_some_iff]
      constructor
      · rintro ⟨⟨front, back⟩, hcut, heq⟩
        obtain ⟨rfl, rfl⟩ := Prod.mk.inj heq
        obtain ⟨rfl, hfront⟩ := ih.mp hcut
        exact ⟨rfl, List.not_mem_cons_of_ne_of_not_mem hne hfront⟩
      · rintro ⟨heq, hbefore⟩
        cases before with
        | nil => exact absurd (List.cons.inj heq).1.symm hne
        | cons b before =>
          obtain ⟨rfl, hys⟩ := List.cons.inj heq
          exact ⟨(before, after), ih.mpr ⟨hys, fun h => hbefore (List.mem_cons_of_mem _ h)⟩, rfl⟩

theorem cut?_eq_none_iff : cut? (· == x) xs = none ↔ x ∉ xs := by
  constructor
  · intro h hmem
    obtain ⟨before, after, rfl, hbefore⟩ := List.eq_append_cons_of_mem hmem
    rw [cut?_eq_some_iff.mpr ⟨rfl, hbefore⟩] at h
    cases h
  · intro h
    cases hcut : cut? (· == x) xs with
    | none => rfl
    | some parts =>
      obtain ⟨hxs, -⟩ := cut?_eq_some_iff.mp hcut
      exact absurd (hxs ▸ List.mem_append_right _ List.mem_cons_self) h

end Cut

/-- A list is held by those that it is a part of. -/
theorem holds_iff [BEq α] [LawfulBEq α] {part xs : List α} :
    holds part xs = true ↔ part <:+: xs := by
  induction xs with
  | nil => rw [holds, List.isEmpty_iff, List.infix_nil]
  | cons x xs ih => rw [holds, Bool.or_eq_true, List.isPrefixOf_iff_prefix, ih, List.infix_cons_iff]

end Pieces

theorem dropReturn_prefix (piece : List Char) : dropReturn piece <+: piece := by
  fun_induction dropReturn piece with
  | case1 => exact List.prefix_rfl
  | case2 => exact List.nil_prefix
  | case3 c cs _ ih => exact List.cons_prefix_cons.mpr ⟨rfl, ih⟩

/-- A line is a piece of its text, less the ending. -/
theorem exists_prefix_of_mem_linesOfPieces {ps : List (List Char)} {line : List Char}
    (h : line ∈ linesOfPieces ps) : ∃ piece ∈ ps, line <+: piece := by
  fun_induction linesOfPieces ps with
  | case1 | case2 => exact absurd h List.not_mem_nil
  | case3 last =>
    obtain rfl := List.mem_singleton.mp h
    exact ⟨line, List.mem_singleton_self _, List.prefix_rfl⟩
  | case4 piece rest _ ih =>
    rcases List.mem_cons.mp h with rfl | h
    · exact ⟨piece, List.mem_cons_self, dropReturn_prefix piece⟩
    · obtain ⟨p, hp, hline⟩ := ih h
      exact ⟨p, List.mem_cons_of_mem _ hp, hline⟩

/-- A line is a part of its text. -/
theorem infix_of_mem_lines {text line : List Char} (h : line ∈ lines text) : line <:+: text := by
  obtain ⟨piece, hpiece, hline⟩ := exists_prefix_of_mem_linesOfPieces h
  obtain ⟨before, after, rfl, -⟩ := exists_append_of_mem_pieces hpiece
  rw [← List.append_assoc]
  exact hline.isInfix.trans (List.infix_append before piece after)

/-- All pieces but the last are lines that have ended. -/
theorem linesOfPieces_append (ps : List (List Char)) {qs : List (List Char)} (h : qs ≠ []) :
    linesOfPieces (ps ++ qs) = ps.map dropReturn ++ linesOfPieces qs := by
  induction ps with
  | nil => rfl
  | cons p ps ih =>
    obtain ⟨q, rest, hrest⟩ := List.exists_cons_of_ne_nil (List.append_ne_nil_of_right_ne_nil ps h)
    rw [List.cons_append, hrest, linesOfPieces, ← hrest, ih]
    · rfl
    · exact List.cons_ne_nil _ _

/-- Whether a text is empty or ends with a line feed, so that a new line starts after it. -/
def EndsLine (text : List Char) : Prop :=
  text = [] ∨ ∃ init, text = init ++ ['\n']

/-- **The lines of a text that is cut where a line ends.** -/
theorem lines_append {text : List Char} (h : EndsLine text) (rest : List Char) :
    lines (text ++ rest) = lines text ++ lines rest := by
  rcases h with rfl | ⟨init, rfl⟩
  · rfl
  · have hcut : ∀ more : List Char, lines (init ++ '\n' :: more) =
        (pieces (· == '\n') init).map dropReturn ++ lines more := fun more => by
      rw [lines, pieces_append_cons rfl, linesOfPieces_append _ (pieces_ne_nil _ more), lines]
    have hinit : lines (init ++ ['\n']) = (pieces (· == '\n') init).map dropReturn :=
      (hcut []).trans (List.append_nil _)
    rw [List.append_assoc, List.singleton_append, hcut, hinit]

end Manpage.Text
