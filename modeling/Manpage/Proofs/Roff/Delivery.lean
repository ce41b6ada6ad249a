import Manpage.Proofs.Roff.Continuation
import Mathlib.Algebra.GroupWithZero.Nat
import Mathlib.Data.List.Induction

/-!
# What is delivered of the lines that are read

Lines and failures are read one after the other. All that is carried from one to the next is the
part of a line that goes on, so reading can be taken up anywhere, and a line may as well be read in
two pieces if the first of them ends in a backslash.

What is read falls into portions. Lines that are joined are delivered as one line, a failure is
delivered in the place of the lines that go on to it, and only the end of what is read cuts a line
off that would go on.

## Main definitions

* `Continuation.delivered`: what is delivered before more is read
* `Continuation.Joins`: lines that are read as one
* `Continuation.Contribute`: the text of lines, less the backslashes that are dropped
* `Continuation.Portion`: lines that are delivered as one, or a failure

## Main results

* `logicalLinesFrom_append`: reading is taken up where it was left
* `logicalLines_splice`: a line is read in two pieces
* `logicalLines_portions`: nothing is lost and nothing is delivered twice
-/

namespace Manpage.Continuation

variable {ε : Type} {before : Option (List Char)} {lines : List (List Char)} {text line : List Char}
  {n : Nat}

/-! ## One item after the other -/

/-- What goes on after an item, where `before` goes on with it. A failure ends every line. -/
def goesOnAfter (before : Option (List Char)) : Except ε (List Char) → Option (List Char)
  | .error _ => none
  | .ok line => part? (joinedTo before line)

/-- What an item delivers, where `before` goes on with it. -/
def delivers (before : Option (List Char)) : Except ε (List Char) → List (Except ε (List Char))
  | .error e => [.error e]
  | .ok line =>
    match part? (joinedTo before line) with
    | some _ => []
    | none => [.ok (joinedTo before line).reverse]

/-- What goes on after some items, where `before` goes on with the first of them. -/
def goingOnAfter (before : Option (List Char)) (items : List (Except ε (List Char))) :
    Option (List Char) :=
  items.foldl goesOnAfter before

/-- **What is delivered** of some items before more is read, where `before` goes on with the first
of them. -/
def delivered (before : Option (List Char)) :
    List (Except ε (List Char)) → List (Except ε (List Char))
  | [] => []
  | item :: items => delivers before item ++ delivered (goesOnAfter before item) items

theorem goingOnAfter_append (items more : List (Except ε (List Char))) :
    goingOnAfter before (items ++ more) = goingOnAfter (goingOnAfter before items) more :=
  List.foldl_append

theorem delivered_append (items more : List (Except ε (List Char))) :
    delivered before (items ++ more) =
      delivered before items ++ delivered (goingOnAfter before items) more := by
  induction items generalizing before with
  | nil => rfl
  | cons item items ih => rw [List.cons_append, delivered, delivered, ih, List.append_assoc]; rfl

/-- An item delivers what it does, and the rest is read where it leaves off. -/
theorem logicalLinesFrom_cons (item : Except ε (List Char)) (items : List (Except ε (List Char))) :
    logicalLinesFrom before (item :: items) =
      delivers before item ++ logicalLinesFrom (goesOnAfter before item) items := by
  cases item with
  | error e => rfl
  | ok line =>
    rw [logicalLinesFrom_cons_ok, delivers, goesOnAfter]
    cases part? (joinedTo before line) <;> rfl

/-- **Reading is taken up where it was left.** -/
theorem logicalLinesFrom_append (items more : List (Except ε (List Char))) :
    logicalLinesFrom before (items ++ more) =
      delivered before items ++ logicalLinesFrom (goingOnAfter before items) more := by
  induction items generalizing before with
  | nil => rfl
  | cons item items ih =>
    rw [List.cons_append, logicalLinesFrom_cons, delivered, ih, List.append_assoc]
    rfl

/-! ## Splicing -/

/-- A line that ends in a backslash goes on without it. -/
theorem part?_joinedTo_concat (before : Option (List Char)) (line : List Char) :
    part? (joinedTo before (line ++ ['\\'])) = some (joinedTo before line) := by
  rw [joinedTo, List.reverse_concat]
  rfl

/-- What is joined to a line that goes on is joined to what the line is joined to. -/
theorem joinedTo_some (before : Option (List Char)) (line next : List Char) :
    joinedTo (some (joinedTo before line)) next = joinedTo before (line ++ next) := by
  rw [joinedTo, joinedTo, joinedTo, List.reverse_append, List.append_assoc]
  rfl

/-- Two pieces of a line leave the same going on as the line does, and deliver the same. -/
theorem splice (before : Option (List Char)) (x y : List Char) :
    goingOnAfter before [(.ok (x ++ ['\\']) : Except ε (List Char)), .ok y] =
        goingOnAfter before [(.ok (x ++ y) : Except ε (List Char))] ∧
      delivered before [(.ok (x ++ ['\\']) : Except ε (List Char)), .ok y] =
        delivered before [.ok (x ++ y)] := by
  have hfirst : goesOnAfter before (.ok (x ++ ['\\']) : Except ε (List Char)) =
      some (joinedTo before x) := part?_joinedTo_concat before x
  have hnothing : delivers before (.ok (x ++ ['\\']) : Except ε (List Char)) = [] := by
    rw [delivers, part?_joinedTo_concat]
  -- the second piece is joined to the first as if both were one line
  have hgoing : goesOnAfter (some (joinedTo before x)) (.ok y : Except ε (List Char)) =
      goesOnAfter before (.ok (x ++ y) : Except ε (List Char)) := by
    rw [goesOnAfter, goesOnAfter, joinedTo_some]
  have hdelivers : delivers (some (joinedTo before x)) (.ok y : Except ε (List Char)) =
      delivers before (.ok (x ++ y)) := by
    rw [delivers, delivers, joinedTo_some]
  constructor
  · rw [goingOnAfter, List.foldl_cons, hfirst, List.foldl_cons, hgoing]
    rfl
  · rw [delivered, hfirst, hnothing, delivered, hdelivers]
    rfl

/-- **A line is read in two pieces** if the first ends in a backslash: the same is delivered,
whether more is still to be read or not. -/
theorem logicalLines_splice (earlier later : List (Except ε (List Char))) (x y : List Char) :
    delivered none (earlier ++ [.ok (x ++ ['\\']), .ok y] ++ later) =
        delivered none (earlier ++ [.ok (x ++ y)] ++ later) ∧
      logicalLines (earlier ++ [.ok (x ++ ['\\']), .ok y] ++ later) =
        logicalLines (earlier ++ [.ok (x ++ y)] ++ later) := by
  obtain ⟨hgoing, hdelivered⟩ := @splice ε (goingOnAfter none earlier) x y
  constructor
  · simp only [delivered_append, goingOnAfter_append, hgoing, hdelivered]
  · simp only [logicalLines, logicalLinesFrom_append, delivered_append, goingOnAfter_append, hgoing,
      hdelivered]

/-! ## Lines that are read as one -/

/-- **Lines that are read as one**, with the text that they come to: each line after the first takes
the place of the backslash that the lines before it end in. -/
inductive Joins : List (List Char) → List Char → Prop
  | single (line : List Char) : Joins [line] line
  | next {lines : List (List Char)} {text : List Char} (line : List Char) :
      Joins lines (text ++ ['\\']) → Joins (lines ++ [line]) (text ++ line)

/-- The text of some lines, in order, where each is given without some of the backslashes at its
end, `n` of them in all. -/
def Contribute (lines : List (List Char)) (text : List Char) (n : Nat) : Prop :=
  ∃ parts : List (List Char × Nat),
    lines = parts.map (fun part => part.1 ++ List.replicate part.2 '\\') ∧
      text = parts.flatMap Prod.fst ∧ n = (parts.map Prod.snd).sum

theorem Contribute.single (line : List Char) : Contribute [line] line 0 :=
  ⟨[(line, 0)], by simp, by simp, rfl⟩

theorem Contribute.concat (h : Contribute lines text n) (line : List Char) :
    Contribute (lines ++ [line]) (text ++ line) n := by
  obtain ⟨parts, rfl, rfl, rfl⟩ := h
  exact ⟨parts ++ [(line, 0)], by simp, by simp, by simp⟩

/-- The backslash at the end of the text is at the end of a line, with nothing but backslashes that
are dropped after it. -/
theorem Contribute.drop (h : Contribute lines (text ++ ['\\']) n) :
    Contribute lines text (n + 1) := by
  obtain ⟨parts, rfl, htext, rfl⟩ := h
  induction parts using List.reverseRecOn generalizing text with
  | nil => exact absurd htext (by simp)
  | append_singleton parts part ih =>
    obtain ⟨last, dropped⟩ := part
    rw [List.flatMap_append, List.flatMap_singleton] at htext
    rcases List.eq_nil_or_concat last with rfl | ⟨rest, c, rfl⟩
    · obtain ⟨parts', hlines, htext', hn⟩ := ih (by simpa using htext)
      refine ⟨parts' ++ [([], dropped)], ?_, ?_, ?_⟩
      · rw [List.map_append, List.map_append, hlines]
      · rw [List.flatMap_append, htext']
        simp
      · simp only [List.map_append, List.sum_append, List.map_cons, List.map_nil,
          List.sum_singleton] at hn ⊢
        omega
    · rw [List.concat_eq_append, ← List.append_assoc] at htext
      obtain ⟨rfl, hc⟩ := List.append_inj' htext rfl
      obtain rfl : '\\' = c := List.head_eq_of_cons_eq hc
      refine ⟨parts ++ [(rest, dropped + 1)], ?_, ?_, ?_⟩
      · simp [List.replicate_succ]
      · simp
      · simp only [List.map_append, List.sum_append, List.map_cons, List.map_nil,
          List.sum_singleton]
        omega

theorem Joins.lines_ne_nil (h : Joins lines text) : lines ≠ [] := by
  cases h <;> simp

/-- **Lines that are read as one** keep their texts: one backslash is dropped for each line that is
joined to the ones before it. -/
theorem Joins.contribute (h : Joins lines text) : Contribute lines text (lines.length - 1) := by
  induction h with
  | single line => exact .single line
  | @next lines text line hlines ih =>
    have hlength : (lines ++ [line]).length - 1 = lines.length - 1 + 1 := by
      have := List.length_pos_iff.mpr hlines.lines_ne_nil
      rw [List.length_append, List.length_singleton]
      omega
    rw [hlength]
    exact ih.drop.concat line

/-! ## Portions -/

/-- Lines that are read as one and end there. -/
structure Whole where
  lines : List (List Char)
  text : List Char
  joins : Joins lines text
  ends : text.getLast? ≠ some '\\'

/-- Lines that are read as one and go on, with their text less the backslash that they end in. -/
structure Unfinished where
  lines : List (List Char)
  text : List Char
  joins : Joins lines (text ++ ['\\'])

/-- **A portion** of what is read. -/
inductive Portion (ε : Type) where
  /-- Lines that are delivered as one. -/
  | line (whole : Whole)
  /-- A failure, with the lines that went on when it came. -/
  | failure (dropped : Option Unfinished) (e : ε)

/-- The lines that go on, if there are any. -/
def Unfinished.linesOf (open? : Option Unfinished) : List (List Char) :=
  open?.elim [] Unfinished.lines

/-- What is read in a portion. -/
def Portion.items : Portion ε → List (Except ε (List Char))
  | .line whole => whole.lines.map .ok
  | .failure dropped e => (Unfinished.linesOf dropped).map .ok ++ [.error e]

/-- What is delivered of a portion. -/
def Portion.delivered : Portion ε → Except ε (List Char)
  | .line whole => .ok whole.text
  | .failure _ e => .error e

/-- The failure that an item is. -/
def failure? : Except ε (List Char) → Option ε
  | .error e => some e
  | .ok _ => none

/-- A line that is read is joined to the lines that go on. -/
theorem Unfinished.joins_concat (open? : Option Unfinished) (line : List Char) :
    Joins (linesOf open? ++ [line]) ((open?.elim [] Unfinished.text) ++ line) := by
  cases open? with
  | none => exact .single line
  | some u => exact .next line u.joins

theorem Unfinished.joinedTo_text (open? : Option Unfinished) (line : List Char) :
    (joinedTo (open?.map (·.text.reverse)) line).reverse =
      open?.elim [] Unfinished.text ++ line := by
  cases open? <;> simp [joinedTo]

/-- What goes on of a text is the text less the backslash at its end. -/
theorem part?_eq_some_iff {whole part : List Char} :
    part? whole = some part ↔ whole.reverse = part.reverse ++ ['\\'] := by
  rw [← List.reverse_cons, List.reverse_inj]
  unfold part?
  split
  · simp
  · next hnot => exact ⟨fun h => absurd h (by simp), fun h => absurd h (hnot part)⟩

theorem getLast?_ne_of_part?_eq_none {whole : List Char} (h : part? whole = none) :
    whole.reverse.getLast? ≠ some '\\' := by
  intro hlast
  obtain ⟨part, hpart⟩ := List.getLast?_eq_some_iff.mp hlast
  have hsome : part? whole = some part.reverse :=
    part?_eq_some_iff.mpr (by rw [hpart, List.reverse_reverse])
  exact absurd (hsome.symm.trans h) (Option.some_ne_none _)

/-- What is read falls into portions, where the first of them begins with lines that go on. -/
theorem exists_portions (open? : Option Unfinished) (items : List (Except ε (List Char))) :
    ∃ (portions : List (Portion ε)) (cut : Option Unfinished),
      (Unfinished.linesOf open?).map .ok ++ items =
          portions.flatMap Portion.items ++ (Unfinished.linesOf cut).map .ok ∧
        logicalLinesFrom (open?.map (·.text.reverse)) items =
          portions.map Portion.delivered ++ cut.toList.map (.ok ·.text) := by
  induction items generalizing open? with
  | nil =>
    refine ⟨[], open?, by simp, ?_⟩
    cases open? <;> simp [logicalLinesFrom]
  | cons item items ih =>
    cases item with
    | error e =>
      obtain ⟨portions, cut, hitems, hdelivered⟩ := ih none
      refine ⟨.failure open? e :: portions, cut, ?_, ?_⟩
      · have hrest : items =
            portions.flatMap Portion.items ++ (Unfinished.linesOf cut).map .ok := hitems
        rw [hrest, List.flatMap_cons, Portion.items]
        simp
      · rw [logicalLinesFrom_cons]
        exact congrArg (.error e :: ·) hdelivered
    | ok line =>
      have hjoins := Unfinished.joins_concat open? line
      rw [← Unfinished.joinedTo_text] at hjoins
      rw [logicalLinesFrom_cons_ok]
      cases hpart : part? (joinedTo (open?.map (·.text.reverse)) line) with
      | some part =>
        rw [part?_eq_some_iff.mp hpart] at hjoins
        obtain ⟨portions, cut, hitems, hdelivered⟩ := ih (some ⟨_, part.reverse, hjoins⟩)
        refine ⟨portions, cut, ?_, ?_⟩
        · rw [← hitems]
          simp [Unfinished.linesOf]
        · rw [← hdelivered]
          simp
      | none =>
        obtain ⟨portions, cut, hitems, hdelivered⟩ := ih none
        refine ⟨.line ⟨_, _, hjoins, getLast?_ne_of_part?_eq_none hpart⟩ :: portions, cut, ?_, ?_⟩
        · have hrest : items =
              portions.flatMap Portion.items ++ (Unfinished.linesOf cut).map .ok := hitems
          rw [hrest, List.flatMap_cons, Portion.items]
          simp
        · exact congrArg (_ :: ·) hdelivered

theorem filterMap_failure?_ok (lines : List (List Char)) :
    (lines.map (.ok : List Char → Except ε (List Char))).filterMap failure? = [] := by
  induction lines with
  | nil => rfl
  | cons line lines ih => exact ih

/-- A portion has the failures that are delivered of it. -/
theorem Portion.filterMap_failure?_items (portion : Portion ε) :
    portion.items.filterMap failure? = [portion.delivered].filterMap failure? := by
  cases portion with
  | line whole => exact filterMap_failure?_ok _
  | failure dropped e =>
    rw [Portion.items, List.filterMap_append, filterMap_failure?_ok]
    rfl

/-- Portions have the failures that are delivered of them, in order. -/
theorem Portion.filterMap_failure?_flatMap (portions : List (Portion ε)) :
    (portions.flatMap Portion.items).filterMap failure? =
      (portions.map Portion.delivered).filterMap failure? := by
  induction portions with
  | nil => rfl
  | cons portion portions ih =>
    rw [List.flatMap_cons, List.filterMap_append, portion.filterMap_failure?_items, ih,
      List.map_cons, ← List.filterMap_append, List.singleton_append]

/-- **Nothing is lost and nothing is delivered twice.** Each failure is delivered, in order. What is
read falls into portions, each of which is delivered as one line or as a failure, but for lines at
its end that would go on. The lines of a portion keep their texts, less one backslash for each line
that is joined to them, and do not end in a backslash then; only in front of a failure they are
dropped, and only at the end they may be left with a backslash. -/
theorem logicalLines_portions (items : List (Except ε (List Char))) :
    (logicalLines items).filterMap failure? = items.filterMap failure? ∧
      ∃ (portions : List (Portion ε)) (cut : Option Unfinished),
        items = portions.flatMap Portion.items ++ (Unfinished.linesOf cut).map .ok ∧
          logicalLines items = portions.map Portion.delivered ++ cut.toList.map (.ok ·.text) ∧
          (∀ whole, .line whole ∈ portions →
            Contribute whole.lines whole.text (whole.lines.length - 1) ∧
              whole.text.getLast? ≠ some '\\') ∧
          ∀ u ∈ cut, Contribute u.lines u.text u.lines.length := by
  obtain ⟨portions, cut, hitems, hdelivered⟩ := exists_portions none items
  change items = _ at hitems
  change logicalLines items = _ at hdelivered
  refine ⟨?_, portions, cut, hitems, hdelivered, fun whole _ => ?_, fun u _ => ?_⟩
  · have hcut : (cut.toList.map (.ok ·.text : Unfinished → Except ε (List Char))).filterMap
        failure? = [] := by cases cut <;> rfl
    rw [hdelivered, hitems, List.filterMap_append, List.filterMap_append, hcut,
      filterMap_failure?_ok, Portion.filterMap_failure?_flatMap]
  · exact ⟨whole.joins.contribute, whole.ends⟩
  · have hlength : u.lines.length - 1 + 1 = u.lines.length :=
      Nat.sub_add_cancel (List.length_pos_iff.mpr u.joins.lines_ne_nil)
    exact hlength ▸ u.joins.contribute.drop

end Manpage.Continuation
