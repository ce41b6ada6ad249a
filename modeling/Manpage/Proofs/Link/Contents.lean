import Manpage.Link.Contents
import Manpage.Proofs.Link.Lifted
import Manpage.Proofs.Text.Order

/-!
# The links inside a document

The links of a document with its option links are those that it had before and its options. No text
or target of an anchor changes when bold text in it or around it is put into an anchor, and the
anchor of an option points to what it says.

## Main results

* `mem_links_iff`: what is a link inside a document
* `mem_anchorsAmong_linkOptions_iff`: the anchors of a document with its option links
* `links_linkOptions`: its links
-/

namespace Manpage.Link

open Html (Node Tag Attribute attribute?)

/-! ## Links -/

theorem occursIn_iff {part cs : List Char} : occursIn part cs ↔ part <:+: cs := by
  induction cs with
  | nil => rw [occursIn, List.isEmpty_iff, List.infix_nil]
  | cons c cs ih =>
    rw [occursIn, Bool.or_eq_true, ih, List.isPrefixOf_iff_prefix, List.infix_cons_iff]

/-- A text with a `#` in front occurs in a target. -/
theorem pointsInside_iff {href text : List Char} :
    pointsInside href text ↔ text ≠ [] ∧ '#' :: text <:+: href := by
  rw [pointsInside, Bool.and_eq_true, decide_eq_true_eq, occursIn_iff]

/-- **What is a link inside a document**: the text of an anchor, if it is not blank and occurs in
the target of the anchor, behind a `#`. -/
theorem mem_links_iff {nodes : List Node} {text : List Char} :
    text ∈ links nodes ↔
      text ≠ [] ∧ ∃ href, (href, text) ∈ anchorsAmong nodes ∧ '#' :: text <:+: href := by
  rw [links, Text.mem_sortedSet, List.mem_map]
  constructor
  · rintro ⟨⟨href, said⟩, hmem, rfl⟩
    obtain ⟨hanchor, hinside⟩ := List.mem_filter.mp hmem
    obtain ⟨hne, hoccurs⟩ := pointsInside_iff.mp hinside
    exact ⟨hne, href, hanchor, hoccurs⟩
  · rintro ⟨hne, href, hanchor, hoccurs⟩
    exact ⟨(href, text), List.mem_filter.mpr ⟨hanchor, pointsInside_iff.mpr ⟨hne, hoccurs⟩⟩, rfl⟩

/-! ## The anchors of a document -/

/-- The target and the text of the anchor that a path leads to. -/
def anchorAt? : Path → Option (List Char × List Char)
  | [] => none
  | level :: _ =>
    if level.tag = .a then
      (attribute? "href" level.attributes).map fun href =>
        (href.toList, trimmedText level.children)
    else none

mutual

theorem anchorsIn_eq (above : Path) (index : Nat) :
    ∀ node : Node, anchorsIn node = (pathsIn above index node).filterMap anchorAt?
  | .text _ => rfl
  | .element tag attributes children => by
    rw [anchorsIn, pathsIn, List.filterMap_cons,
      anchorsAmong_eq (⟨index, tag, attributes, children⟩ :: above) 0 children, anchorAt?]
    by_cases htag : tag = .a
    · rw [if_pos htag, if_pos htag]
      cases attribute? "href" attributes <;> rfl
    · rw [if_neg htag, if_neg htag]
      rfl

/-- The anchors of a document are those that paths lead to. -/
theorem anchorsAmong_eq (above : Path) (index : Nat) :
    ∀ nodes : List Node, anchorsAmong nodes = (pathsAmong above index nodes).filterMap anchorAt?
  | [] => rfl
  | node :: nodes => by
    rw [anchorsAmong, pathsAmong, List.filterMap_append, anchorsIn_eq above index node,
      anchorsAmong_eq above (index + 1) nodes]

end

theorem mem_anchorsAmong_iff {nodes : List Node} {href text : List Char} :
    (href, text) ∈ anchorsAmong nodes ↔
      ∃ p ∈ paths nodes, IsAnchor p ∧ valueAt "href" p = some href ∧ textAt p = text := by
  rw [anchorsAmong_eq [] 0, List.mem_filterMap]
  refine exists_congr fun p => and_congr_right fun _ => ?_
  cases p with
  | nil => simp [anchorAt?, IsAnchor]
  | cons level above =>
    cases hhref : attribute? "href" level.attributes <;>
      simp [anchorAt?, IsAnchor, valueAt, textAt, hhref]

/-- **The anchors of a document with its option links** are those that it had before, with their
targets and texts, and one or more for each option. -/
theorem mem_anchorsAmong_linkOptions_iff {nodes : List Node} {href text : List Char} :
    (href, text) ∈ anchorsAmong (linkOptions nodes) ↔
      (href, text) ∈ anchorsAmong nodes ∨ text ∈ definedOptions nodes ∧ href = '#' :: text := by
  simp only [mem_anchorsAmong_iff, mem_paths_linkOptions_iff]
  constructor
  · rintro ⟨q, ⟨p, hp, rfl | ⟨hgets, rfl⟩⟩, hanchor, hhref, htext⟩
    · rw [isAnchor_lift_iff] at hanchor
      rw [valueAt_lift] at hhref
      rw [textAt_lift] at htext
      exact Or.inl ⟨p, hp, hanchor, hhref, htext⟩
    · obtain ⟨attributes, hchosen⟩ :=
        Option.isSome_iff_exists.mp (chosenAnchor_isSome_iff.mpr hgets)
      rw [textAt_tail_lift (chosenAnchor_isSome_iff.mpr hgets)] at htext
      cases p with
      | nil => exact absurd hchosen (Option.some_ne_none _).symm
      | cons level above =>
        obtain ⟨option, isTarget, rfl, hoption, -, hsays, -⟩ := exists_of_chosenAnchor hp hchosen
        obtain rfl : option = text := hsays.symm.trans htext
        rw [liftLinked, lift_of_choose hchosen, List.tail_cons, valueAt, href_anchorAttributes,
          Option.map_some, String.toList_ofList, Option.some.injEq] at hhref
        exact Or.inr ⟨hoption, hhref.symm⟩
  · rintro (⟨p, hp, hanchor, hhref, htext⟩ | ⟨hoption, rfl⟩)
    · refine ⟨liftLinked nodes p, ⟨p, hp, Or.inl rfl⟩, ?_, ?_, ?_⟩
      · exact isAnchor_lift_iff.mpr hanchor
      · rw [valueAt_lift, hhref]
      · rw [textAt_lift, htext]
    · obtain ⟨p, hp, hdefined⟩ := mem_definedOptions_iff.mp hoption
      have hgets : GetsAnchor nodes p :=
        Or.inl (definedAt?_isSome_iff.mp (Option.isSome_of_eq_some hdefined))
      refine ⟨(liftLinked nodes p).tail, ⟨p, hp, Or.inr ⟨hgets, rfl⟩⟩, ?_⟩
      cases p with
      | nil => exact absurd hdefined (Option.some_ne_none _).symm
      | cons level above =>
        have hchosen : ∃ isTarget, chosenAnchor (definitions nodes).reverse (level :: above) =
            some (anchorAttributes text isTarget) := by
          rw [chosenAnchor, hdefined]
          exact ⟨_, rfl⟩
        obtain ⟨isTarget, hchosen⟩ := hchosen
        refine ⟨?_, ?_, ?_⟩
        · rw [liftLinked, lift_of_choose hchosen]
          rfl
        · rw [liftLinked, lift_of_choose hchosen, List.tail_cons, valueAt, href_anchorAttributes,
            Option.map_some, String.toList_ofList]
        · rw [textAt_tail_lift (chosenAnchor_isSome_iff.mpr hgets)]
          exact (definedAt?_eq_some_iff.mp hdefined).2.1

/-- An option is not empty. -/
theorem ne_nil_of_mem_definedOptions {nodes : List Node} {option : List Char}
    (h : option ∈ definedOptions nodes) : option ≠ [] := by
  obtain ⟨p, -, hdefined⟩ := mem_definedOptions_iff.mp h
  obtain ⟨-, -, cs, -, -, rfl | rfl⟩ := definedAt?_eq_some_iff.mp hdefined
  · exact List.cons_ne_nil _ _
  · exact List.cons_ne_nil _ _

theorem mem_links_linkOptions_iff {nodes : List Node} {text : List Char} :
    text ∈ links (linkOptions nodes) ↔ text ∈ links nodes ∨ text ∈ definedOptions nodes := by
  simp only [mem_links_iff, mem_anchorsAmong_linkOptions_iff]
  constructor
  · rintro ⟨hne, href, hanchor | ⟨hoption, -⟩, hoccurs⟩
    · exact Or.inl ⟨hne, href, hanchor, hoccurs⟩
    · exact Or.inr hoption
  · rintro (⟨hne, href, hanchor, hoccurs⟩ | hoption)
    · exact ⟨hne, href, Or.inl hanchor, hoccurs⟩
    · exact ⟨ne_nil_of_mem_definedOptions hoption, '#' :: text, Or.inr ⟨hoption, rfl⟩,
        List.infix_rfl⟩

/-- **Option links add the options to the links of a document**, and nothing else. The options are
the texts of bold terms that have the form of an option, and each is counted once. -/
theorem links_linkOptions (nodes : List Node) :
    links (linkOptions nodes) = Text.sortedSet (links nodes ++ definedOptions nodes) ∧
      (links (linkOptions nodes)).toFinset =
        (links nodes).toFinset ∪ (definedOptions nodes).toFinset ∧
      optionCount nodes = (definedOptions nodes).toFinset.card ∧
      ∀ text, text ∈ definedOptions nodes ↔
        IsOptionText text ∧ ∃ p ∈ paths nodes, IsTerm p ∧ textAt p = text := by
  refine ⟨?_, ?_, optionCount_eq_card nodes, fun _ => mem_definedOptions_iff_isTerm⟩
  · rw [links]
    apply Text.sortedSet_congr
    intro text
    rw [← Text.mem_sortedSet, List.mem_append]
    exact mem_links_linkOptions_iff
  · ext text
    rw [Finset.mem_union, List.mem_toFinset, List.mem_toFinset, List.mem_toFinset]
    exact mem_links_linkOptions_iff

end Manpage.Link
