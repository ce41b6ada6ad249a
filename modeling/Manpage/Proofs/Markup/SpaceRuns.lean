import Manpage.Proofs.Markup.Rendered
import Mathlib.Data.List.Chain

/-!
# Runs of spaces

How a character of plain text is written depends on the character behind it, and on nothing else:
a space is written as a blank if another space follows. So a text can be escaped in pieces, except
where a cut splits a run of spaces, and of the spaces of a run only the last is written as a plain
space.

## Main definitions

* `SplitsRun`: whether a cut between two texts splits a run of spaces
* `escapeBefore`: plain text as fragments, with the character behind the text taken into account

## Main results

* `escapeBefore_append`: the fragments of a text in two pieces
* `render_escape_append_iff`: which texts can be escaped in pieces
* `isChain_render_escape`: no two plain spaces are written next to each other
-/

namespace Manpage.Markup

/-- Whether the cut between `a` and `b` splits a run of spaces. -/
def SplitsRun (a b : List Char) : Prop :=
  a.getLast? = some ' ' ∧ b.head? = some ' '

/-! ## Looking ahead -/

/-- The fragment of the character `c` if the character `next` follows, or nothing. -/
def Fragment.ofCharBefore (c : Char) (next : Option Char) : Fragment :=
  if c = ' ' ∧ next = some ' ' then .blank else .ofChar c

/-- Plain text as fragments if the character `next` follows the text, or nothing. -/
def escapeBefore (next : Option Char) : List Char → List Fragment
  | [] => []
  | c :: cs => .ofCharBefore c (cs.head?.or next) :: escapeBefore next cs

namespace Fragment

variable {c : Char} {next : Option Char}

theorem ofCharBefore_none (c : Char) : ofCharBefore c none = ofChar c :=
  if_neg fun h => Option.some_ne_none ' ' h.2.symm

/-- A plain space is written for the last space of a run, and for nothing else. -/
theorem space_mem_chars_ofCharBefore_iff :
    ' ' ∈ (ofCharBefore c next).chars ↔ c = ' ' ∧ next ≠ some ' ' := by
  unfold ofCharBefore
  split_ifs with hblank
  · exact iff_of_false (by decide) fun h => h.2 hblank.2
  · rw [not_and] at hblank
    have hdigits : ' ' ∉ Nat.toDigits 10 c.toNat := fun h =>
      absurd (Nat.isDigit_of_mem_toDigits (by decide) (by decide) h) (by decide)
    have hchar : ' ' ∈ (ofChar c).chars ↔ c = ' ' := by
      unfold ofChar
      split_ifs with hless hgreater hampersand hcode
      · exact iff_of_false (by decide) (hless ▸ by decide)
      · exact iff_of_false (by decide) (hgreater ▸ by decide)
      · exact iff_of_false (by decide) (hampersand ▸ by decide)
      · refine iff_of_false (by simp [chars, hdigits]) ?_
        rintro rfl
        exact absurd hcode (by decide)
      · exact List.mem_singleton.trans eq_comm
    rw [hchar]
    exact ⟨fun h => ⟨h, hblank h⟩, And.left⟩

/-- A fragment that is written with a plain space is written as one. -/
theorem chars_ofCharBefore_of_mem (h : ' ' ∈ (ofCharBefore c next).chars) :
    (ofCharBefore c next).chars = [' '] := by
  obtain ⟨rfl, hnext⟩ := space_mem_chars_ofCharBefore_iff.mp h
  rw [ofCharBefore, if_neg fun hblank => hnext hblank.2]
  rfl

/-- The character behind `c` makes a difference between two spaces only. -/
theorem chars_ofCharBefore_eq_iff :
    (ofCharBefore c next).chars = (ofCharBefore c none).chars ↔ ¬ (c = ' ' ∧ next = some ' ') := by
  rw [ofCharBefore_none]
  constructor
  · rintro h ⟨rfl, rfl⟩
    exact absurd h (by decide)
  · intro h
    rw [ofCharBefore, if_neg h]

end Fragment

/-! ## Escaping in pieces -/

section Pieces

variable (next : Option Char) (a b : List Char)

/-- Escaping looks one character ahead. -/
theorem escape_eq_escapeBefore (cs : List Char) : escape cs = escapeBefore none cs := by
  fun_induction escape cs with
  | case1 => rfl
  | case2 cs ih => exact congrArg (Fragment.blank :: ·) ih
  | case3 c cs hspaces ih =>
    have hsingle : ¬ (c = ' ' ∧ cs.head?.or none = some ' ') := by
      rintro ⟨hc, hhead⟩
      rw [Option.or_none] at hhead
      obtain ⟨ds, hcs⟩ := List.head?_eq_some_iff.mp hhead
      exact hspaces ds hc hcs
    rw [escapeBefore, Fragment.ofCharBefore, if_neg hsingle, ih]

/-- **The fragments of a text in two pieces**: the first piece has to know what character the second
one starts with. -/
theorem escapeBefore_append :
    escapeBefore next (a ++ b) = escapeBefore (b.head?.or next) a ++ escapeBefore next b := by
  induction a with
  | nil => rfl
  | cons c a ih =>
    rw [List.cons_append, escapeBefore, escapeBefore, ih, List.head?_append, Option.or_assoc,
      List.cons_append]

theorem render_escape_append :
    render (escape (a ++ b)) = render (escapeBefore b.head? a) ++ render (escape b) := by
  rw [escape_eq_escapeBefore, escape_eq_escapeBefore, escapeBefore_append, Option.or_none,
    render_append]

/-- What follows a text is written into its last character. -/
theorem render_escapeBefore_concat (c : Char) :
    render (escapeBefore next (a ++ [c])) =
      render (escapeBefore (some c) a) ++ (Fragment.ofCharBefore c next).chars := by
  rw [escapeBefore_append, render_append]
  exact congrArg (_ ++ ·) (List.append_nil _)

/-- **A text can be escaped in pieces** unless the cut splits a run of spaces. -/
theorem render_escape_append_iff :
    render (escape (a ++ b)) = render (escape a) ++ render (escape b) ↔ ¬ SplitsRun a b := by
  rw [render_escape_append, List.append_left_inj, escape_eq_escapeBefore]
  rcases List.eq_nil_or_concat a with rfl | ⟨init, c, rfl⟩
  · exact iff_of_true rfl fun h => Option.some_ne_none ' ' h.1.symm
  · rw [List.concat_eq_append, render_escapeBefore_concat, render_escapeBefore_concat,
      List.append_right_inj, Fragment.chars_ofCharBefore_eq_iff, SplitsRun, List.getLast?_concat,
      Option.some.injEq]

end Pieces

/-! ## Plain spaces -/

/-- A text that is written with a space in front starts with a space. -/
theorem head?_of_head?_render_escape {cs : List Char}
    (h : (render (escape cs)).head? = some ' ') : cs.head? = some ' ' := by
  rw [escape_eq_escapeBefore] at h
  cases cs with
  | nil => exact absurd h (by simp [escapeBefore])
  | cons c cs =>
    rw [escapeBefore, render_cons, List.head?_append_of_ne_nil _ (Fragment.chars_ne_nil _)] at h
    obtain ⟨rfl, -⟩ := Fragment.space_mem_chars_ofCharBefore_iff.mp (List.mem_of_head? h)
    rfl

/-- **No two plain spaces are written next to each other.** -/
theorem isChain_render_escape (cs : List Char) :
    (render (escape cs)).IsChain fun c d => ¬ (c = ' ' ∧ d = ' ') := by
  induction cs with
  | nil => exact .nil
  | cons c cs ih =>
    have hcons : render (escape (c :: cs)) =
        (Fragment.ofCharBefore c cs.head?).chars ++ render (escape cs) := by
      rw [escape_eq_escapeBefore, escapeBefore, render_cons, Option.or_none,
        escape_eq_escapeBefore]
    rw [hcons, List.isChain_append]
    by_cases hspace : ' ' ∈ (Fragment.ofCharBefore c cs.head?).chars
    · obtain ⟨-, hnext⟩ := Fragment.space_mem_chars_ofCharBefore_iff.mp hspace
      rw [Fragment.chars_ofCharBefore_of_mem hspace]
      refine ⟨.singleton _, ih, fun x _ y hy hxy => hnext (head?_of_head?_render_escape ?_)⟩
      rw [← hxy.2]
      exact hy
    · refine ⟨List.Pairwise.isChain (List.pairwise_of_forall_mem_list ?_), ih, ?_⟩
      · rintro x hx y - ⟨rfl, -⟩
        exact hspace hx
      · rintro x hx y - ⟨rfl, -⟩
        exact hspace (List.mem_of_getLast? hx)

/-- **Escaping in pieces, and single spaces**: two texts can be escaped one by one exactly if the
cut between them splits no run of spaces, and no escaped text holds two plain spaces next to each
other. -/
theorem render_escape_pieces :
    (∀ a b, render (escape (a ++ b)) = render (escape a) ++ render (escape b) ↔
        ¬ (a.getLast? = some ' ' ∧ b.head? = some ' ')) ∧
      ∀ t, ¬ [' ', ' '] <:+: render (escape t) := by
  refine ⟨render_escape_append_iff, fun t hspaces => ?_⟩
  obtain ⟨before, after, heq⟩ := hspaces
  have hall := isChain_render_escape t
  rw [← heq] at hall
  exact List.isChain_pair.mp hall.left_of_append.right_of_append ⟨rfl, rfl⟩

end Manpage.Markup
