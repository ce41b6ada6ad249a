import Manpage.Proofs.Page.Balance

/-!
# Preformatted blocks

What the start tags of preformatted blocks are ahead of their end tags, while a page is being
written. This is one if the state says that text is preformatted, and none otherwise, as long as a
block is started only outside of blocks and ended only inside of one. A page that starts a block
inside another one leaves a start tag open for good, and a page that ends a block outside of blocks
writes an end tag that closes nothing.

## Main definitions

* `startsInside`, `endsOutside`: the calls that start a block in a block, and end one outside of it
* `Page.IsTracked`: whether the tags of preformatted blocks are as the state says

## Main results

* `countP_callsOn_le`: a line performs at most one request besides items
* `Page.preformatted_written`: the open preformatted blocks of a page
-/

namespace Manpage

open Markup

/-- Whether a call starts a preformatted block inside another one. -/
def startsInside (x : State × Call) : Bool :=
  x.1.inPreformatted && x.2.request = .nf

/-- Whether a call ends a preformatted block outside of blocks. -/
def endsOutside (x : State × Call) : Bool :=
  !x.1.inPreformatted && x.2.request = .fi

/-! ## The ledger of preformatted blocks -/

namespace Ledger

/-- What preformatted blocks are charged for: a start tag inside a block, and an end tag outside of
blocks. -/
def preformattedCharge (o : Outline) : Request → Int
  | .nf => if o.inPreformatted then 1 else 0
  | .fi => if o.inPreformatted then 0 else -1
  | _ => 0

/-- Preformatted blocks. -/
def preformatted : Ledger where
  weight := tagWeight .pre
  balance o := if o.inPreformatted then 1 else 0
  charge := preformattedCharge

theorem isKept_preformatted : preformatted.IsKept := by
  refine isKept_of_lists_weightless (isTagWeight_tagWeight .pre) (by decide) (fun _ _ => rfl)
    (fun _ _ r => by cases r <;> rfl) (fun _ => rfl) fun s args r => ?_
  cases r with
  | nf | fi =>
    cases h : s.inPreformatted <;>
      simp [preformatted, preformattedCharge, Request.frame, Request.outline, State.outline, h,
        tagWeight]
  | th | dt | so | sh | pp | lp | p | sp | ip =>
    simp only [Request.frame, Block.listStart]
    split_ifs <;> simp [preformatted, preformattedCharge, Request.outline, tagWeight]
  | _ =>
    simp [preformatted, preformattedCharge, Request.outline, tagWeight, Request.frame,
      Block.listStart, Block.listEnd]

theorem sum_due_preformatted (xs : List (State × Call)) :
    (xs.map fun x => preformatted.due x.1 x.2).sum =
      (xs.countP startsInside : Int) - xs.countP endsOutside := by
  have hfont : ∀ f : Font, f.weight preformatted.weight = 0 := fun f => by cases f <;> rfl
  induction xs with
  | nil => rfl
  | cons x xs ih =>
    have hcharge : preformatted.due x.1 x.2 =
        (if startsInside x then 1 else 0) - if endsOutside x then 1 else 0 := by
      obtain ⟨s, r, args⟩ := x
      rw [due, Font.changes_eq_zero hfont, Int.add_zero]
      cases r <;> cases h : s.inPreformatted <;>
        simp [preformatted, preformattedCharge, startsInside, endsOutside, State.outline, h]
    rw [List.map_cons, List.sum_cons, ih, hcharge, List.countP_cons, List.countP_cons]
    push_cast
    ring

end Ledger

/-! ## The calls of a line -/

/-- Of the calls on a control line only the last one is no item. -/
theorem countP_callsWithin_le (depth : Nat) (body : List Char) :
    (callsWithin depth body).countP (·.request != .it) ≤ 1 := by
  have hline : ∀ {nested : List Char → List Call} (body : List Char),
      (∀ args, (nested args).countP (·.request != .it) ≤ 1) →
        (callsBy nested body).countP (·.request != .it) ≤ 1 := by
    intro nested body hnested
    unfold callsBy
    cases Request.ofName? (splitRequest body).1 with
    | none => exact Nat.zero_le 1
    | some r =>
      cases r with
      | it => exact hnested _
      | _ => exact Nat.le_refl 1
  induction depth generalizing body with
  | zero => exact hline body fun _ => Nat.zero_le 1
  | succ depth ih => exact hline body ih

/-- A line performs at most one request besides items. -/
theorem countP_callsOn_le (line : List Char) :
    (callsOn line).countP (·.request != .it) ≤ 1 := by
  unfold callsOn
  split_ifs
  · exact Nat.zero_le 1
  · exact countP_callsWithin_le _ _
  · exact Nat.zero_le 1

namespace Page

variable {lines shown before : List (List Char)} {line : List Char}

theorem calls_concat (before : List (List Char)) (line : List Char) :
    calls (before ++ [line]) = calls before ++ (callsOn line).map (stateAfter before, ·) := by
  rw [calls, State.performed_append, State.performed, State.performed, List.append_nil]
  rfl

theorem calls_mono (h : shown <+: lines) : calls shown <+: calls lines := by
  obtain ⟨rest, rfl⟩ := h
  exact ⟨_, (State.performed_append {} shown rest).symm⟩

/-- Each call of a page is made on one of its lines, in the state before the line. -/
theorem exists_line_of_mem_calls {x : State × Call} (h : x ∈ calls lines) :
    ∃ before line, before ++ [line] <+: lines ∧
      x ∈ (callsOn line).map (stateAfter before, ·) := by
  induction lines using List.reverseRecOn with
  | nil => exact absurd h List.not_mem_nil
  | append_singleton lines line ih =>
    rw [calls_concat, List.mem_append] at h
    rcases h with h | h
    · obtain ⟨before, line', hprefix, hmem⟩ := ih h
      exact ⟨before, line', hprefix.trans (List.prefix_append _ _), hmem⟩
    · exact ⟨lines, line, List.prefix_refl _, h⟩

/-! ## The preformatted blocks of a page -/

/-- Whether the start tags of preformatted blocks that some lines write are ahead of the end tags as
the state says: by one in a block, and by none outside. -/
def IsTracked (lines : List (List Char)) : Prop :=
  (occurrences "<pre>" (written lines) : Int) - occurrences "</pre>" (written lines) =
    if (stateAfter lines).inPreformatted then 1 else 0

instance (lines : List (List Char)) : Decidable (IsTracked lines) :=
  inferInstanceAs (Decidable (_ = _))

theorem surplus_preformatted (lines : List (List Char)) :
    (occurrences "<pre>" (written lines) : Int) - occurrences "</pre>" (written lines) =
      (if (stateAfter lines).inPreformatted then 1 else 0) + (calls lines).countP startsInside -
        (calls lines).countP endsOutside := by
  have hfont : (stateAfter lines).font.weight Ledger.preformatted.weight = 0 := by
    cases (stateAfter lines).font <;> rfl
  have htally := tally_fragments Ledger.isKept_preformatted rfl rfl lines
  rw [Ledger.sum_due_preformatted, Ledger.total, hfont] at htally
  rw [written, surplus_tag (e := .pre) rfl rfl isClean_of_mem_fragments]
  refine htally.trans ?_
  simp only [Ledger.preformatted, State.outline]
  ring

theorem isTracked_iff : IsTracked lines ↔
    (calls lines).countP startsInside = (calls lines).countP endsOutside := by
  rw [IsTracked, surplus_preformatted]
  omega

/-- A line after which blocks are tracked as before it starts none in a block, and ends none outside
of one. -/
theorem IsTracked.of_concat (hbefore : IsTracked before) (hline : IsTracked (before ++ [line])) :
    ∀ x ∈ (callsOn line).map (stateAfter before, ·), ¬ startsInside x ∧ ¬ endsOutside x := by
  rw [isTracked_iff] at hbefore hline
  rw [calls_concat, List.countP_append, List.countP_append, hbefore] at hline
  have hone : ((callsOn line).map (stateAfter before, ·)).countP startsInside +
      ((callsOn line).map (stateAfter before, ·)).countP endsOutside ≤ 1 := by
    refine le_trans ?_ (countP_callsOn_le line)
    rw [List.countP_map, List.countP_map]
    induction callsOn line with
    | nil => exact Nat.le_refl 0
    | cons c cs ih =>
      have hcall : (if startsInside (stateAfter before, c) then 1 else 0) +
          (if endsOutside (stateAfter before, c) then 1 else 0) ≤
            if c.request != .it then 1 else 0 := by
        cases h : (stateAfter before).inPreformatted <;> cases hr : c.request <;>
          simp [startsInside, endsOutside, h, hr]
      simp only [List.countP_cons, Function.comp_apply] at ih ⊢
      omega
  intro x hx
  constructor
  · intro h
    have hpos := List.countP_pos_iff.mpr ⟨x, hx, h⟩
    omega
  · intro h
    have hpos := List.countP_pos_iff.mpr ⟨x, hx, h⟩
    omega

/-- **The open preformatted blocks of a page** are the one that the state says is open, with one
more for each block that starts inside another one, and one less for each end of a block outside of
blocks. So the state tells what is open if these are as many, and after every beginning of the page
exactly if there are none. -/
theorem preformatted_written (lines : List (List Char)) :
    (occurrences "<pre>" (written lines) : Int) - occurrences "</pre>" (written lines) =
        (if (stateAfter lines).inPreformatted then 1 else 0) + (calls lines).countP startsInside -
          (calls lines).countP endsOutside ∧
      (IsTracked lines ↔
        (calls lines).countP startsInside = (calls lines).countP endsOutside) ∧
      ((∀ shown, shown <+: lines → IsTracked shown) ↔
        ∀ x ∈ calls lines, ¬ startsInside x ∧ ¬ endsOutside x) := by
  refine ⟨surplus_preformatted lines, isTracked_iff, fun htracked x hx => ?_,
    fun hnone shown hprefix => ?_⟩
  · obtain ⟨before, line, hprefix, hmem⟩ := exists_line_of_mem_calls hx
    have hbefore := htracked before ((List.prefix_append before [line]).trans hprefix)
    exact hbefore.of_concat (htracked _ hprefix) x hmem
  · have hshown : ∀ x ∈ calls shown, ¬ startsInside x ∧ ¬ endsOutside x :=
      fun x hx => hnone x ((calls_mono hprefix).subset hx)
    rw [isTracked_iff, List.countP_eq_zero.mpr fun x hx => (hshown x hx).1,
      List.countP_eq_zero.mpr fun x hx => (hshown x hx).2]

/-- A block that starts inside another one is never closed. -/
theorem not_isTracked_block_in_block :
    (stateAfter [".nf".toList, ".nf".toList, ".fi".toList]).inPreformatted = false ∧
      ¬ IsTracked [".nf".toList, ".nf".toList, ".fi".toList] := by
  decide +kernel

end Page

end Manpage
