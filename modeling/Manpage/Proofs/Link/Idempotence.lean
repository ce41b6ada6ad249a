import Manpage.Proofs.Link.Mentions
import Manpage.Proofs.Link.Wrapping

/-!
# Linking options twice

A document with its option links defines no option any more: what was a definition lies in an anchor
now, and an element that was none before has not become one, for nothing but anchors has been added
around bold text, and terms and lists are where they were. Without definitions there is nothing to
mention, so the links of such a document are those that it has.

## Main results

* `isTerm_lift_iff`: the terms of a document with added anchors
* `definitions_linkOptions`: a document with its option links defines no option
* `linkOptions_of_definitions_eq_nil`: a document that defines no option stays as it is
* `linkOptions_linkOptions`: linking options a second time changes nothing
-/

namespace Manpage.Link

open Html (Node Tag Attribute)

section Choice

variable {choose : Path → Option (List Attribute)}

/-- An element that is not bold is not put into an anchor, so it lies where it lay. -/
theorem lift_of_tag_ne (hchoose : ∀ p, (choose p).isSome → IsBold p) {level : Level}
    {above : Path} (htag : level.tag ≠ .b) :
    lift choose (level :: above) =
      ⟨level.index, level.tag, level.attributes, innerNodes choose (level :: above)⟩ ::
        lift choose above := by
  apply lift_of_choose_eq_none
  rw [← Option.not_isSome_iff_eq_none]
  intro hsome
  exact htag (hchoose _ hsome)

/-- What leads to an element that is not bold led to it before, with what the element lies in. -/
theorem exists_of_lift_eq_cons (hchoose : ∀ p, (choose p).isSome → IsBold p) {p rest : Path}
    {level : Level} (h : lift choose p = level :: rest) (htag : level.tag ≠ .b) :
    ∃ below above, p = below :: above ∧ below.tag = level.tag ∧ rest = lift choose above := by
  cases p with
  | nil => exact absurd h (List.cons_ne_nil _ _).symm
  | cons below above =>
    obtain ⟨index, rest', hlift⟩ := exists_lift_cons choose below above
    have htags : below.tag = level.tag := by
      rw [hlift] at h
      rw [← (List.cons.inj h).1]
    rw [lift_of_tag_ne hchoose (htags ▸ htag)] at h
    exact ⟨below, above, rfl, htags, (List.cons.inj h).2.symm⟩

/-- **The terms of a document with added anchors** are those that have not been put into an
anchor. -/
theorem isTerm_lift_iff (hchoose : ∀ p, (choose p).isSome → IsBold p) {p : Path} :
    IsTerm (lift choose p) ↔ IsTerm p ∧ choose p = none := by
  cases p with
  | nil => simp [lift, IsTerm]
  | cons bold above =>
    cases hchosen : choose (bold :: above) with
    | some attributes =>
      rw [lift_of_choose hchosen, isTerm_cons_iff]
      simp
    | none =>
      rw [lift_of_choose_eq_none hchosen, isTerm_cons_iff, isTerm_cons_iff, and_iff_left rfl]
      refine and_congr_right fun _ => ?_
      constructor
      · rintro ⟨term, list, up, habove, hterm, hlist⟩
        obtain ⟨term', above', rfl, hterm', hrest⟩ :=
          exists_of_lift_eq_cons hchoose habove (by rw [hterm]; decide)
        obtain ⟨list', up', rfl, hlist', -⟩ :=
          exists_of_lift_eq_cons hchoose hrest.symm (by rw [hlist]; decide)
        exact ⟨term', list', up', rfl, hterm'.trans hterm, hlist'.trans hlist⟩
      · rintro ⟨term, list, up, rfl, hterm, hlist⟩
        rw [lift_of_tag_ne hchoose (by rw [hterm]; decide),
          lift_of_tag_ne hchoose (by rw [hlist]; decide)]
        exact ⟨_, _, _, rfl, hterm, hlist⟩

end Choice

variable {nodes : List Node}

/-- An anchor is added around bold text only. -/
theorem isBold_of_getsAnchor {p : Path} (h : GetsAnchor nodes p) : IsBold p := by
  cases p with
  | nil =>
    rcases h with ⟨hterm, -⟩ | ⟨hmention, -⟩
    · exact hterm
    · exact hmention
  | cons level above =>
    rcases h with ⟨hterm, -⟩ | ⟨hmention, -⟩
    · exact (isTerm_cons_iff.mp hterm).1
    · exact hmention.1

/-- **A document with its option links defines no option.** -/
theorem definitions_linkOptions (nodes : List Node) : definitions (linkOptions nodes) = [] := by
  have hbold : ∀ p, (chosenAnchor (definitions nodes).reverse p).isSome → IsBold p :=
    fun p h => isBold_of_getsAnchor (chosenAnchor_isSome_iff.mp h)
  rw [definitions_eq, List.filterMap_eq_nil_iff]
  intro q hq
  rw [Option.map_eq_none_iff, ← Option.not_isSome_iff_eq_none, definedAt?_isSome_iff]
  rintro ⟨hterm, hoption⟩
  obtain ⟨p, -, rfl | ⟨hgets, rfl⟩⟩ := mem_paths_linkOptions_iff.mp hq
  · obtain ⟨htermBefore, hnone⟩ := (isTerm_lift_iff hbold).mp hterm
    rw [textAt_lift] at hoption
    have hgets : GetsAnchor nodes p := Or.inl ⟨htermBefore, hoption⟩
    rw [← chosenAnchor_isSome_iff, hnone] at hgets
    exact Bool.false_ne_true hgets
  · obtain ⟨attributes, hchosen⟩ :=
      Option.isSome_iff_exists.mp (chosenAnchor_isSome_iff.mpr hgets)
    cases p with
    | nil => exact hterm
    | cons level above =>
      rw [liftLinked, lift_of_choose hchosen, List.tail_cons] at hterm
      exact absurd (isTerm_cons_iff.mp hterm).1 (by simp)

/-- No element of a document that defines no option gets an anchor. -/
theorem chosenAnchor_of_definitions_eq_nil (h : definitions nodes = []) {p : Path}
    (hp : p ∈ paths nodes) : chosenAnchor (definitions nodes).reverse p = none := by
  rw [← Option.not_isSome_iff_eq_none, chosenAnchor_isSome_iff]
  intro hgets
  have hmem := (isMention_iff.mp (isMention_of_getsAnchor hp hgets)).2
  obtain ⟨d, hd, hdefinition, -⟩ := hmem
  have hdefined := (position_mem_definitions_iff hd).mpr (definedAt?_isSome_iff.mpr hdefinition)
  rw [h] at hdefined
  exact absurd hdefined List.not_mem_nil

/-- The links of a document that defines no option are none. -/
theorem linkedNodes_of_definitions_eq_nil (h : definitions nodes = []) :
    linkedNodes nodes = unlinked nodes :=
  anchorAmong_congr fun _ hp => chosenAnchor_of_definitions_eq_nil h hp

/-- **A document that defines no option** stays as it is. -/
theorem linkOptions_of_definitions_eq_nil (h : definitions nodes = []) :
    linkOptions nodes = nodes := by
  rw [← results_linkedNodes, linkedNodes_of_definitions_eq_nil h]
  exact results_anchorAmong_none [] 0 nodes

/-- **Linking options a second time changes nothing.** In a document with its option links no option
is counted, no anchor is added, be it all at once or one after the other, and the document is what
it was. -/
theorem linkOptions_linkOptions (nodes : List Node) :
    optionCount (linkOptions nodes) = 0 ∧
      addedAnchors (linkOptions nodes) = [] ∧
      linkedStepwise (linkOptions nodes) = unlinked (linkOptions nodes) ∧
      linkOptions (linkOptions nodes) = linkOptions nodes := by
  have hnone := definitions_linkOptions nodes
  refine ⟨?_, ?_, ?_, linkOptions_of_definitions_eq_nil hnone⟩
  · rw [optionCount, definedOptions, hnone]
    rfl
  · rw [addedAnchors_eq, List.filterMap_eq_nil_iff]
    intro p hp
    cases p with
    | nil => rfl
    | cons level above => rw [added?, chosenAnchor_of_definitions_eq_nil hnone hp, Option.map_none]
  · rw [linkedStepwise_eq, linkedNodes_of_definitions_eq_nil hnone]

end Manpage.Link
