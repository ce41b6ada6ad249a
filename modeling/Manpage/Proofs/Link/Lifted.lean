import Manpage.Proofs.Link.Nesting

/-!
# The elements of a document with added anchors

Where the elements of a document are once some of them have been put into anchors, and where the
added anchors are. Each element keeps its tag, its attributes and its text, and lies in what it lay
in before; an element that was put into an anchor lies directly in it. There is nothing else.

## Main definitions

* `lift`: the path to an element in the document with added anchors
* `lifted`: the paths that an element gives there, that of its anchor included
* `IsBold`, `valueAt`: what a path leads to

## Main results

* `paths_results`: the elements of a document with added anchors, in document order
* `paths_linkOptions`: the elements of a document with its option links
-/

namespace Manpage.Link

open Html (Node Tag Attribute attribute?)

/-- Whether a path leads to bold text. -/
def IsBold : Path → Prop
  | [] => False
  | level :: _ => level.tag = .b

/-- The value of the attribute called `name` of the element that a path leads to. -/
def valueAt (name : String) : Path → Option (List Char)
  | [] => none
  | level :: _ => (attribute? name level.attributes).map String.toList

section Choice

variable (choose : Path → Option (List Attribute))

/-- The children of the element that a path leads to, with anchors around the chosen elements. -/
def innerNodes : Path → List Node
  | [] => []
  | level :: above => Linked.results (anchorAmong choose (level :: above) 0 level.children)

/-- **The path to an element** in the document with anchors around the chosen elements. -/
def lift : Path → Path
  | [] => []
  | level :: above =>
    let inner := innerNodes choose (level :: above)
    match choose (level :: above) with
    | none => ⟨level.index, level.tag, level.attributes, inner⟩ :: lift above
    | some attributes =>
      ⟨0, level.tag, level.attributes, inner⟩ ::
        ⟨level.index, .a, attributes, [.element level.tag level.attributes inner]⟩ :: lift above

/-- The paths that an element gives in the document with added anchors: the path to its anchor, if
it has been put into one, and its own. -/
def lifted (p : Path) : List Path :=
  match choose p with
  | none => [lift choose p]
  | some _ => [(lift choose p).tail, lift choose p]

mutual

theorem pathsIn_result (above : Path) (index : Nat) :
    ∀ node : Node, pathsIn (lift choose above) index (anchorIn choose above index node).result =
      (pathsIn above index node).flatMap (lifted choose)
  | .text _ => rfl
  | .element tag attributes children => by
    have ih := pathsAmong_results (⟨index, tag, attributes, children⟩ :: above) 0 children
    rw [anchorIn, pathsIn, List.flatMap_cons, ← ih, lifted, lift]
    cases choose (⟨index, tag, attributes, children⟩ :: above) with
    | none => rfl
    | some chosen =>
      simp only [Linked.result, pathsIn, pathsAmong, List.append_nil]
      rfl

/-- **The elements of a document with added anchors**, in document order. -/
theorem pathsAmong_results (above : Path) (index : Nat) :
    ∀ nodes : List Node,
      pathsAmong (lift choose above) index
          (Linked.results (anchorAmong choose above index nodes)) =
        (pathsAmong above index nodes).flatMap (lifted choose)
  | [] => rfl
  | node :: nodes => by
    rw [anchorAmong, Linked.results, pathsAmong, pathsAmong, List.flatMap_append,
      pathsIn_result above index node, pathsAmong_results above (index + 1) nodes]

end

variable {choose}

/-- What leads somewhere in the document with added anchors leads to an element of the document or
to the anchor around one. -/
theorem mem_lifted_iff {p q : Path} :
    q ∈ lifted choose p ↔
      q = lift choose p ∨ (choose p).isSome ∧ q = (lift choose p).tail := by
  rw [lifted]
  cases choose p with
  | none => simp
  | some attributes => simp [or_comm]

/-! ## What an element keeps -/

/-- An element keeps its tag and its attributes. -/
theorem exists_lift_cons (choose : Path → Option (List Attribute)) (level : Level)
    (above : Path) :
    ∃ index rest, lift choose (level :: above) =
      ⟨index, level.tag, level.attributes, innerNodes choose (level :: above)⟩ :: rest := by
  rw [lift]
  cases choose (level :: above) with
  | none => exact ⟨_, _, rfl⟩
  | some attributes => exact ⟨_, _, rfl⟩

/-- An element that has been put into an anchor lies directly in it. -/
theorem lift_of_choose {level : Level} {above : Path} {attributes : List Attribute}
    (h : choose (level :: above) = some attributes) :
    lift choose (level :: above) =
      ⟨0, level.tag, level.attributes, innerNodes choose (level :: above)⟩ ::
        ⟨level.index, .a, attributes,
          [.element level.tag level.attributes (innerNodes choose (level :: above))]⟩ ::
        lift choose above := by
  rw [lift, h]

theorem lift_of_choose_eq_none {level : Level} {above : Path}
    (h : choose (level :: above) = none) :
    lift choose (level :: above) =
      ⟨level.index, level.tag, level.attributes, innerNodes choose (level :: above)⟩ ::
        lift choose above := by
  rw [lift, h]

theorem isAnchor_lift_iff {p : Path} : IsAnchor (lift choose p) ↔ IsAnchor p := by
  cases p with
  | nil => exact Iff.rfl
  | cons level above =>
    obtain ⟨index, rest, hlift⟩ := exists_lift_cons choose level above
    rw [hlift]
    exact Iff.rfl

theorem isBold_lift_iff {p : Path} : IsBold (lift choose p) ↔ IsBold p := by
  cases p with
  | nil => exact Iff.rfl
  | cons level above =>
    obtain ⟨index, rest, hlift⟩ := exists_lift_cons choose level above
    rw [hlift]
    exact Iff.rfl

theorem valueAt_lift (name : String) (p : Path) :
    valueAt name (lift choose p) = valueAt name p := by
  cases p with
  | nil => rfl
  | cons level above =>
    obtain ⟨index, rest, hlift⟩ := exists_lift_cons choose level above
    rw [hlift]
    rfl

/-- An element keeps its text. -/
theorem textAt_lift (p : Path) : textAt (lift choose p) = textAt p := by
  cases p with
  | nil => rfl
  | cons level above =>
    obtain ⟨index, rest, hlift⟩ := exists_lift_cons choose level above
    rw [hlift]
    exact trimmedText_anchorAmong choose _ _ _

/-- The anchor around an element says what the element says. -/
theorem textAt_tail_lift {p : Path} (h : (choose p).isSome) :
    textAt (lift choose p).tail = textAt p := by
  cases p with
  | nil => rfl
  | cons level above =>
    obtain ⟨attributes, hchosen⟩ := Option.isSome_iff_exists.mp h
    rw [lift_of_choose hchosen]
    exact trimmedText_anchorAmong choose _ _ _

/-- An element lies in what it lay in before. -/
theorem lift_suffix {p q : Path} (h : q <:+ p) : lift choose q <:+ lift choose p := by
  induction p with
  | nil => rw [List.suffix_nil.mp h]
  | cons level above ih =>
    rcases List.suffix_cons_iff.mp h with rfl | h
    · exact List.suffix_rfl
    · refine (ih h).trans ?_
      cases hchosen : choose (level :: above) with
      | none =>
        rw [lift_of_choose_eq_none hchosen]
        exact List.suffix_cons _ _
      | some attributes =>
        rw [lift_of_choose hchosen]
        exact (List.suffix_cons _ _).trans (List.suffix_cons _ _)

end Choice

/-! ## Documents with their option links -/

/-- The path to an element of a document in the document with its option links. -/
abbrev liftLinked (nodes : List Node) : Path → Path :=
  lift (chosenAnchor (definitions nodes).reverse)

/-- **The elements of a document with its option links.** -/
theorem paths_linkOptions (nodes : List Node) :
    paths (linkOptions nodes) =
      (paths nodes).flatMap (lifted (chosenAnchor (definitions nodes).reverse)) := by
  rw [← results_linkedNodes, linkedNodes, paths, paths]
  exact pathsAmong_results _ [] 0 nodes

theorem mem_paths_linkOptions_iff {nodes : List Node} {q : Path} :
    q ∈ paths (linkOptions nodes) ↔ ∃ p ∈ paths nodes,
      q = liftLinked nodes p ∨ GetsAnchor nodes p ∧ q = (liftLinked nodes p).tail := by
  rw [paths_linkOptions, List.mem_flatMap]
  simp only [mem_lifted_iff, chosenAnchor_isSome_iff]

end Manpage.Link
