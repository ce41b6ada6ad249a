import Manpage.Proofs.Roff.Lines
import Manpage.Proofs.Markup.Rendered

/-!
# Items in items

An item makes the request that its argument names, and this can be an item again. Each item writes a
list around what its argument writes, and the lists of nested items stand one inside the other.
Items nest at most eight deep: the ninth writes its list but makes no request, so whatever else the
line holds, no more than nine lists are written and all of them are closed.

## Main definitions

* `itemsAround`: a request in nested items
* `State.innermost`: what the request in nested items does

## Main results

* `State.control_itemsAround`: nested items write their lists around the request in them
* `State.render_feed_itemsAround`: what a line with nested items writes and leaves
-/

namespace Manpage

open Markup

/-- The request `body` in `n` nested items. -/
def itemsAround (n : Nat) (body : List Char) : List Char :=
  (List.replicate n "It ".toList).flatten ++ body

/-- Whether the name on a control line is that of an item, whatever the case of its letters. -/
def IsItem (body : List Char) : Prop :=
  (splitRequest body).1.map Char.toLower = "it".toList

instance (body : List Char) : Decidable (IsItem body) :=
  inferInstanceAs (Decidable (_ = _))

theorem itemsAround_succ (n : Nat) (body : List Char) :
    itemsAround (n + 1) body = 'I' :: 't' :: ' ' :: itemsAround n body := by
  rw [itemsAround, List.replicate_succ, List.flatten_cons, List.append_assoc]
  rfl

/-- The argument of an item is what stands in it. -/
theorem splitRequest_item (body : List Char) :
    splitRequest ('I' :: 't' :: ' ' :: body) = (['I', 't'], body) := rfl

theorem ofName?_item : Request.ofName? ['I', 't'] = some .it := rfl

namespace State

variable {body : List Char}

/-- A request other than an item is performed in the same way at any depth. -/
theorem requestLine_congr (hbody : ¬ IsItem body)
    (nested nested' : List Char → State → State × List Fragment) (s : State) :
    requestLine nested body s = requestLine nested' body s := by
  unfold requestLine
  cases hr : Request.ofName? (splitRequest body).1 with
  | none => simp only [hr]
  | some r =>
    have hitem : r ≠ .it := by
      rintro rfl
      exact hbody (Request.name_of_ofName? hr).symm
    simp only [hr]
    cases r with
    | it => exact absurd rfl hitem
    | _ => rfl

theorem control_congr (hbody : ¬ IsItem body) (d e : Nat) (s : State) :
    control d body s = control e body s := by
  cases d <;> cases e <;> exact requestLine_congr hbody _ _ s

/-- An item writes a list around what its argument does. -/
theorem requestLine_item (nested : List Char → State → State × List Fragment) (s : State) :
    requestLine nested ('I' :: 't' :: ' ' :: body) s =
      ({ (nested body s).1 with lastRequest := some .it },
        Block.listStart ++ (nested body s).2 ++ Block.listEnd) := rfl

/-- What the request in `n` nested items does, where items nest at most `depth` deep: it is
performed if it is not too deep. -/
def innermost (depth n : Nat) (body : List Char) (s : State) : State × List Fragment :=
  if n ≤ depth then control maxNesting body s else (s, [])

/-- **Nested items** write their lists around what the request in them does, as many as are within
the depth and one more. -/
theorem control_itemsAround (hbody : ¬ IsItem body) (depth n : Nat) (s : State) :
    control depth (itemsAround (n + 1) body) s =
      ({ (innermost depth (n + 1) body s).1 with lastRequest := some .it },
        (List.replicate (min (n + 1) (depth + 1)) Block.listStart).flatten ++
          (innermost depth (n + 1) body s).2 ++
          (List.replicate (min (n + 1) (depth + 1)) Block.listEnd).flatten) := by
  induction depth generalizing n with
  | zero =>
    have hone : min (n + 1) (0 + 1) = 1 := by omega
    rw [itemsAround_succ, control, requestLine_item, innermost, if_neg (by omega), hone]
    simp
  | succ depth ih =>
    rw [itemsAround_succ, control, requestLine_item]
    cases n with
    | zero =>
      have hone : min (0 + 1) (depth + 1 + 1) = 1 := by omega
      have hbody' : itemsAround 0 body = body := rfl
      rw [hbody', control_congr hbody depth maxNesting, innermost, if_pos (by omega), hone]
      simp
    | succ n =>
      have hsucc : min (n + 1 + 1) (depth + 1 + 1) = min (n + 1) (depth + 1) + 1 := by omega
      have hinner : innermost (depth + 1) (n + 1 + 1) body s = innermost depth (n + 1) body s := by
        simp only [innermost, Nat.add_le_add_iff_right]
      rw [ih, hinner, hsucc, List.replicate_succ, List.flatten_cons, List.replicate_succ',
        List.flatten_concat]
      simp only [List.append_assoc]

/-- **A line with nested items** writes one list inside the other, nine at most, and closes them
all. Inside of up to eight items the request does what it does alone; in more of them it does
nothing. All that comes after is the countdown of indents, and the item is remembered as the last
request. -/
theorem render_feed_itemsAround {n : Nat} {body : List Char} (hn : 1 ≤ n) (hbody : ¬ IsItem body)
    (s : State) :
    render (s.feed ('.' :: itemsAround n body)).2 =
        (List.replicate (min n 9) "<dl><dd>".toList).flatten ++
          render (innermost 8 n body s).2 ++
          (List.replicate (min n 9) "</dd></dl>".toList).flatten ++
          render (Block.countdown (innermost 8 n body s).1).2 ∧
      (s.feed ('.' :: itemsAround n body)).1 =
        { (Block.countdown (innermost 8 n body s).1).1 with
          lastRequest := some .it, lastLine := some ('.' :: itemsAround n body) } := by
  obtain ⟨n, rfl⟩ := Nat.exists_eq_add_of_le' hn
  have hitem : Request.ofName? (splitRequest (itemsAround (n + 1) body)).1 = some .it := by
    rw [itemsAround_succ, splitRequest_item, ofName?_item]
  have hstart : render Block.listStart = "<dl><dd>".toList := rfl
  have hend : render Block.listEnd = "</dd></dl>".toList := rfl
  rw [feed_request hitem, control_itemsAround hbody, Block.countdown_withRequest]
  refine ⟨?_, rfl⟩
  rw [render_append, render_append, render_append, render_replicate, render_replicate, hstart, hend]
  rfl

/-- A request in two items can close an indent between their lists, and start one behind them. -/
theorem render_feed_itemsAround_hanging :
    render (({ indent := .body } : State).feed ".It It TP".toList).2 =
      "<dl><dd><dl><dd></dd></dl></dd></dl></dd></dl><dl><dt>".toList := by
  have hline := render_feed_itemsAround (show 1 ≤ 2 by decide) (show ¬ IsItem "TP".toList by decide)
    { indent := .body }
  refine hline.1.trans ?_
  decide +kernel

end State

end Manpage
