import Manpage.Proofs.Link.Lifted

/-!
# The mentions of options

Every mention of an option is linked: bold text that says an option of the document lies in an
anchor once the option links have been added, whether it was a definition, lay in one or in an
anchor, or got an anchor of its own. No other element gets one.

## Main results

* `isMention_iff`: what is a mention of an option
* `exists_anchor_of_isMention`: a mention lies in an anchor
* `mentions_linkOptions`: which elements are linked
-/

namespace Manpage.Link

open Html (Node Tag Attribute)

variable {nodes : List Node}

/-- **A mention** is bold text that says what a definition of the document says. -/
theorem isMention_iff {p : Path} :
    IsMention nodes p ↔ IsBold p ∧ ∃ d ∈ paths nodes, IsDefinition d ∧ textAt d = textAt p := by
  cases p with
  | nil => simp [IsMention, IsBold]
  | cons level above =>
    rw [IsMention, IsBold, mem_definedOptions_iff_isTerm]
    refine and_congr_right fun _ => ?_
    constructor
    · rintro ⟨hoption, d, hd, hterm, htext⟩
      exact ⟨d, hd, ⟨hterm, htext ▸ hoption⟩, htext⟩
    · rintro ⟨d, hd, ⟨hterm, hoption⟩, htext⟩
      exact ⟨htext ▸ hoption, d, hd, hterm, htext⟩

/-- An added anchor is around a mention. -/
theorem isMention_of_getsAnchor {p : Path} (hp : p ∈ paths nodes) (h : GetsAnchor nodes p) :
    IsMention nodes p := by
  rcases h with hdefinition | ⟨hmention, -⟩
  · cases p with
    | nil => exact absurd hdefinition.1 id
    | cons level above =>
      exact isMention_iff.mpr ⟨(isTerm_cons_iff.mp hdefinition.1).1, _, hp, hdefinition, rfl⟩
  · exact hmention

/-- What lies in an anchor or in a definition lies in an anchor once there are option links. -/
theorem exists_anchor_lift {q p : Path} (hq : q <:+ p) (h : IsAnchor q ∨ IsDefinition q) :
    ∃ a, a <:+ liftLinked nodes p ∧ IsAnchor a := by
  rcases h with hanchor | hdefinition
  · exact ⟨liftLinked nodes q, lift_suffix hq, isAnchor_lift_iff.mpr hanchor⟩
  · obtain ⟨attributes, hchosen⟩ :=
      Option.isSome_iff_exists.mp
        (chosenAnchor_isSome_iff.mpr (Or.inl hdefinition : GetsAnchor nodes q))
    cases q with
    | nil => exact absurd hdefinition.1 id
    | cons level above =>
      refine ⟨(liftLinked nodes (level :: above)).tail,
        (List.tail_suffix _).trans (lift_suffix hq), ?_⟩
      rw [liftLinked, lift_of_choose hchosen]
      rfl

/-- **A mention lies in an anchor** once there are option links. -/
theorem exists_anchor_of_isMention {p : Path} (h : IsMention nodes p) :
    ∃ a, LiesIn (liftLinked nodes p) a ∧ IsAnchor a := by
  cases p with
  | nil => exact absurd h id
  | cons level above =>
    cases hchosen : chosenAnchor (definitions nodes).reverse (level :: above) with
    | some attributes =>
      rw [liftLinked, lift_of_choose hchosen]
      exact ⟨_, liesIn_cons_iff.mpr List.suffix_rfl, rfl⟩
    | none =>
      have hgets : ¬ GetsAnchor nodes (level :: above) := by
        rw [← chosenAnchor_isSome_iff, hchosen]
        exact Bool.false_ne_true
      have hsheltered : ∃ q, LiesIn (level :: above) q ∧ (IsAnchor q ∨ IsDefinition q) := by
        by_contra hfree
        apply hgets
        refine Or.inr ⟨h, fun q hq => ⟨fun hanchor => ?_, fun hdefinition => ?_⟩⟩
        · exact hfree ⟨q, hq, Or.inl hanchor⟩
        · exact hfree ⟨q, hq, Or.inr hdefinition⟩
      obtain ⟨q, hq, hshelter⟩ := hsheltered
      obtain ⟨a, ha, hanchor⟩ := exists_anchor_lift (liesIn_cons_iff.mp hq) hshelter
      rw [liftLinked, lift_of_choose_eq_none hchosen]
      exact ⟨a, liesIn_cons_iff.mpr ha, hanchor⟩

/-- **Which elements are linked.** In a document with its option links every bold text that says a
defined option lies in an anchor. The links are the document with added anchors, and every added
anchor is around bold text that says a defined option. -/
theorem mentions_linkOptions (nodes : List Node) :
    (∀ p ∈ paths (linkOptions nodes), IsBold p →
      (∃ d ∈ paths nodes, IsDefinition d ∧ textAt d = textAt p) →
        ∃ a, LiesIn p a ∧ IsAnchor a) ∧
    Linked.results (linkedNodes nodes) = linkOptions nodes ∧
    Linked.originals (linkedNodes nodes) = nodes ∧
    ∀ x ∈ Linked.addedAmong [] 0 (linkedNodes nodes), ∃ p ∈ paths nodes,
      x.origin = position p ∧ IsBold p ∧
        ∃ d ∈ paths nodes, IsDefinition d ∧ textAt d = textAt p := by
  refine ⟨fun q hq hbold hsays => ?_, results_linkedNodes nodes, originals_linkedNodes nodes,
    fun x hx => ?_⟩
  · obtain ⟨p, hp, rfl | ⟨hgets, rfl⟩⟩ := mem_paths_linkOptions_iff.mp hq
    · rw [textAt_lift] at hsays
      exact exists_anchor_of_isMention (isMention_iff.mpr ⟨isBold_lift_iff.mp hbold, hsays⟩)
    · obtain ⟨attributes, hchosen⟩ :=
        Option.isSome_iff_exists.mp (chosenAnchor_isSome_iff.mpr hgets)
      cases p with
      | nil => exact absurd hbold id
      | cons level above =>
        rw [liftLinked, lift_of_choose hchosen] at hbold
        exact absurd hbold (by simp [IsBold])
  · obtain ⟨level, above, attributes, hp, hchosen, rfl⟩ := mem_addedAnchors_iff.mp hx
    have hgets : GetsAnchor nodes (level :: above) :=
      chosenAnchor_isSome_iff.mp (Option.isSome_of_eq_some hchosen)
    exact ⟨_, hp, rfl, isMention_iff.mp (isMention_of_getsAnchor hp hgets)⟩

end Manpage.Link
