import Manpage.Roff.Line
import Mathlib.Logic.Basic

/-!
# Joining lines

Lines that are read without a failure are joined at their continuations from the first to the last,
with the line that goes on as all that is carried along. So lines can be joined in two parts if no
line goes on from the first part to the second. With failures, what comes before the first one is
joined the same way, so it does not matter whether lines are joined before the failure is looked for
or afterwards.

## Main definitions

* `Continuation.goingOn`: the line that goes on after some lines
* `Continuation.joined`: lines joined at their continuations

## Main results

* `joinedFrom_append`: lines are joined in parts
* `joined_eq_self`: lines that do not end in a backslash are joined with nothing
* `attempt_logicalLines`: the logical lines before the first failure, or that failure
-/

namespace Manpage.Continuation

variable {ε : Type} {before : Option (List Char)} {line : List Char} {lines : List (List Char)}

/-- A line joined to the part `before` that it continues, from the last character to the first. -/
def joinedTo (before : Option (List Char)) (line : List Char) : List Char :=
  line.reverse ++ before.getD []

/-- What goes on of a line that is given from its last character to its first. -/
def part? : List Char → Option (List Char)
  | '\\' :: part => some part
  | _ => none

/-- What goes on after some lines, from its last character to its first, where `before` goes on with
the first of them. -/
def goingOn : (before : Option (List Char)) → List (List Char) → Option (List Char)
  | before, [] => before
  | before, line :: lines => goingOn (part? (joinedTo before line)) lines

/-- Lines joined at their continuations, where `before` goes on with the first of them. -/
def joinedFrom : (before : Option (List Char)) → List (List Char) → List (List Char)
  | before, [] => before.toList.map List.reverse
  | before, line :: lines =>
    match part? (joinedTo before line) with
    | some part => joinedFrom (some part) lines
    | none => (joinedTo before line).reverse :: joinedFrom none lines

/-- **Lines joined at their continuations.** -/
def joined (lines : List (List Char)) : List (List Char) :=
  joinedFrom none lines

/-- Whether a line goes on after some lines: the last of them ends in a backslash, or what it is
joined to does and it is empty. -/
def GoesOn (lines : List (List Char)) : Prop :=
  goingOn none lines ≠ none

instance (lines : List (List Char)) : Decidable (GoesOn lines) :=
  inferInstanceAs (Decidable (goingOn none lines ≠ none))

/-- **Lines are joined in parts** if no line goes on from one part to the next. -/
theorem joinedFrom_append (h : goingOn before lines = none) (more : List (List Char)) :
    joinedFrom before (lines ++ more) = joinedFrom before lines ++ joinedFrom none more := by
  induction lines generalizing before with
  | nil =>
    obtain rfl : before = none := h
    rfl
  | cons line lines ih =>
    rw [goingOn] at h
    rw [List.cons_append, joinedFrom, joinedFrom]
    cases hpart : part? (joinedTo before line) with
    | some part => exact ih (hpart ▸ h)
    | none => exact congrArg _ (ih (hpart ▸ h))

theorem joined_append (h : ¬ GoesOn lines) (more : List (List Char)) :
    joined (lines ++ more) = joined lines ++ joined more :=
  joinedFrom_append (not_not.mp h) more

/-- A line that does not end in a backslash does not go on. -/
theorem part?_reverse_eq_none (h : line.getLast? ≠ some '\\') : part? line.reverse = none := by
  unfold part?
  split
  · next part heq =>
    rw [← List.head?_reverse, heq] at h
    exact absurd rfl h
  · rfl

/-- **Lines that do not end in a backslash** are joined with nothing. -/
theorem joined_eq_self (h : ∀ line ∈ lines, line.getLast? ≠ some '\\') :
    joined lines = lines ∧ ¬ GoesOn lines := by
  rw [GoesOn, not_not]
  induction lines with
  | nil => exact ⟨rfl, rfl⟩
  | cons line lines ih =>
    obtain ⟨hline, hlines⟩ := List.forall_mem_cons.mp h
    obtain ⟨hjoined, hgoing⟩ := ih hlines
    have hwhole : joinedTo none line = line.reverse := List.append_nil _
    have hpart : part? (joinedTo none line) = none := by rw [hwhole, part?_reverse_eq_none hline]
    constructor
    · rw [joined, joinedFrom, hpart, hwhole, List.reverse_reverse]
      exact congrArg _ hjoined
    · rw [goingOn, hpart, hgoing]

/-! ## Lines that are read -/

/-- A line that is read goes on or is delivered. -/
theorem logicalLinesFrom_cons_ok (items : List (Except ε (List Char))) :
    logicalLinesFrom before (.ok line :: items) =
      match part? (joinedTo before line) with
      | some part => logicalLinesFrom (some part) items
      | none => .ok (joinedTo before line).reverse :: logicalLinesFrom none items := by
  rw [logicalLinesFrom, ← joinedTo]
  generalize joinedTo before line = whole
  split
  · rfl
  · next hnot =>
    have hpart : part? whole = none := by
      unfold part?
      split
      · next part => exact absurd rfl (hnot part)
      · rfl
    rw [hpart]

theorem logicalLinesFrom_ok (before : Option (List Char)) (lines : List (List Char)) :
    logicalLinesFrom before (lines.map (.ok : List Char → Except ε (List Char))) =
      (joinedFrom before lines).map .ok := by
  induction lines generalizing before with
  | nil => cases before <;> rfl
  | cons line lines ih =>
    rw [List.map_cons, logicalLinesFrom_cons_ok, joinedFrom]
    cases part? (joinedTo before line) with
    | some part => exact ih (some part)
    | none => exact congrArg _ (ih none)

/-- **Joining lines before the first failure is looked for** gives what joining them afterwards
does. -/
theorem attempt_logicalLinesFrom (before : Option (List Char))
    (items : List (Except ε (List Char))) :
    attempt (logicalLinesFrom before items) = (attempt items).map (joinedFrom before) := by
  induction items generalizing before with
  | nil => cases before <;> rfl
  | cons item items ih =>
    cases item with
    | error e => rfl
    | ok line =>
      rw [logicalLinesFrom_cons_ok]
      have hrest : ((attempt items).map (line :: ·)).map (joinedFrom before) =
          (attempt items).map fun lines => joinedFrom before (line :: lines) := by
        cases attempt items <;> rfl
      rw [attempt, hrest]
      cases hpart : part? (joinedTo before line) with
      | some part => simp only [ih, joinedFrom, hpart]
      | none =>
        simp only [attempt, ih, joinedFrom, hpart]
        cases attempt items <;> rfl

theorem attempt_logicalLines (items : List (Except ε (List Char))) :
    attempt (logicalLines items) = (attempt items).map joined :=
  attempt_logicalLinesFrom none items

/-- Lines that are all read are attempted without a failure. -/
theorem attempt_ok (lines : List (List Char)) :
    attempt (lines.map (.ok : List Char → Except ε (List Char))) = .ok lines := by
  induction lines with
  | nil => rfl
  | cons line lines ih =>
    rw [List.map_cons, attempt, ih]
    rfl

/-- A failure among some lines makes the attempt fail, with it or with an earlier one. -/
theorem exists_attempt_eq_error {items : List (Except ε (List Char))} {e : ε}
    (h : .error e ∈ items) : ∃ first, attempt items = .error first := by
  induction items with
  | nil => exact absurd h List.not_mem_nil
  | cons item items ih =>
    cases item with
    | error first => exact ⟨first, rfl⟩
    | ok line =>
      obtain ⟨first, hfirst⟩ := ih (by simpa using h)
      exact ⟨first, by rw [attempt, hfirst]; rfl⟩

end Manpage.Continuation
