import Manpage.Html.Document
import Manpage.Proofs.Html.Elements
import Manpage.Proofs.Link.Contents
import Manpage.Proofs.Text.Trim

/-!
# The targets inside a document

The places of a document that links can point to are the elements with an `id`. Option links add the
options to them, as they add the options to the links.

## Main definitions

* `ids`: the values of the `id` attributes in a document

## Main results

* `mem_ids_linkOptions_iff`: the targets of a document with its option links
* `trim_of_mem_links`: links have no blanks at their ends
-/

namespace Manpage.Link

open Html (Node Tag Attribute attribute? elementsIn elementsAmong)

/-! ## Elements and the paths to them -/

/-- The element that a path leads to. -/
def elementAt? : Path → Option Node
  | [] => none
  | level :: _ => some (.element level.tag level.attributes level.children)

mutual

theorem elementsIn_eq (above : Path) (index : Nat) :
    ∀ node : Node, elementsIn node = (pathsIn above index node).filterMap elementAt?
  | .text _ => rfl
  | .element tag attributes children => by
    rw [elementsIn, pathsIn, List.filterMap_cons,
      elementsAmong_eq (⟨index, tag, attributes, children⟩ :: above) 0 children]
    rfl

/-- The elements of a document are those that paths lead to. -/
theorem elementsAmong_eq (above : Path) (index : Nat) :
    ∀ nodes : List Node, elementsAmong nodes = (pathsAmong above index nodes).filterMap elementAt?
  | [] => rfl
  | node :: nodes => by
    rw [elementsAmong, pathsAmong, List.filterMap_append, elementsIn_eq above index node,
      elementsAmong_eq above (index + 1) nodes]

end

variable {nodes : List Node}

theorem mem_elementsAmong_iff_paths {tag : Tag} {attributes : List Attribute}
    {children : List Node} :
    .element tag attributes children ∈ elementsAmong nodes ↔
      ∃ index above, ⟨index, tag, attributes, children⟩ :: above ∈ paths nodes := by
  rw [elementsAmong_eq [] 0, List.mem_filterMap]
  constructor
  · rintro ⟨p, hp, hat⟩
    cases p with
    | nil => exact absurd hat (Option.some_ne_none _).symm
    | cons level above =>
      obtain ⟨rfl, rfl, rfl⟩ := Node.element.inj (Option.some.inj hat)
      exact ⟨level.index, above, hp⟩
  · rintro ⟨index, above, hp⟩
    exact ⟨_, hp, rfl⟩

/-- The elements of a document with its option links are those of the document, with other children,
and the anchors around them. -/
theorem tag_of_mem_elementsAmong_linkOptions {tag : Tag} {attributes : List Attribute}
    {children : List Node}
    (h : .element tag attributes children ∈ elementsAmong (linkOptions nodes)) :
    tag = .a ∨ ∃ inner, .element tag attributes inner ∈ elementsAmong nodes := by
  obtain ⟨index, above, hq⟩ := mem_elementsAmong_iff_paths.mp h
  rw [paths_linkOptions, List.mem_flatMap] at hq
  obtain ⟨p, hp, hq⟩ := hq
  rcases p with - | ⟨level, outer⟩
  · rcases mem_lifted_iff.mp hq with hq | ⟨-, hq⟩
    · exact absurd hq (List.cons_ne_nil _ _)
    · exact absurd hq (List.cons_ne_nil _ _)
  · rcases mem_lifted_iff.mp hq with hq | ⟨hchosen, hq⟩
    · obtain ⟨i, rest, hlift⟩ := exists_lift_cons (chosenAnchor (definitions nodes).reverse)
        level outer
      rw [hlift] at hq
      obtain ⟨⟨-, rfl, rfl, -⟩, -⟩ := by simpa using hq
      exact Or.inr ⟨_, mem_elementsAmong_iff_paths.mpr ⟨_, _, hp⟩⟩
    · obtain ⟨anchor, hanchor⟩ := Option.isSome_iff_exists.mp hchosen
      rw [lift_of_choose hanchor, List.tail_cons] at hq
      obtain ⟨⟨-, rfl, -⟩, -⟩ := by simpa using hq
      exact Or.inl rfl

/-! ## Targets -/

/-- **The targets inside a document**: the values of the `id` attributes, in document order. -/
def ids (nodes : List Node) : List (List Char) :=
  (paths nodes).filterMap (valueAt "id")

theorem mem_ids_iff {id : List Char} :
    id ∈ ids nodes ↔ ∃ p ∈ paths nodes, valueAt "id" p = some id :=
  List.mem_filterMap

/-- The targets are read off the elements. -/
theorem mem_ids_iff_elements {id : List Char} :
    id ∈ ids nodes ↔ ∃ tag attributes children,
      .element tag attributes children ∈ elementsAmong nodes ∧
        (attribute? "id" attributes).map String.toList = some id := by
  rw [mem_ids_iff]
  constructor
  · rintro ⟨p, hp, hvalue⟩
    cases p with
    | nil => exact absurd hvalue (Option.some_ne_none _).symm
    | cons level above =>
      exact ⟨_, _, _, mem_elementsAmong_iff_paths.mpr ⟨level.index, above, hp⟩, hvalue⟩
  · rintro ⟨tag, attributes, children, hmem, hvalue⟩
    obtain ⟨index, above, hp⟩ := mem_elementsAmong_iff_paths.mp hmem
    exact ⟨_, hp, hvalue⟩

theorem mem_ids_cons {id : List Char} {tag : Tag} {attributes : List Attribute}
    {children : List Node} :
    id ∈ ids (.element tag attributes children :: nodes) ↔
      (attribute? "id" attributes).map String.toList = some id ∨ id ∈ ids children ∨
        id ∈ ids nodes := by
  simp only [mem_ids_iff_elements, elementsAmong, elementsIn, List.mem_append, List.mem_cons,
    Node.element.injEq, or_and_right, exists_or]
  constructor
  · rintro ((⟨_, _, _, ⟨rfl, rfl, rfl⟩, hvalue⟩ | hchildren) | hnodes)
    · exact Or.inl hvalue
    · exact Or.inr (Or.inl hchildren)
    · exact Or.inr (Or.inr hnodes)
  · rintro (hvalue | hchildren | hnodes)
    · exact Or.inl (Or.inl ⟨_, _, _, ⟨rfl, rfl, rfl⟩, hvalue⟩)
    · exact Or.inl (Or.inr hchildren)
    · exact Or.inr hnodes

/-- A document whose root and body have no attributes has the targets of its body. -/
theorem mem_ids_root_iff {d : Html.Document} (hroot : d.rootAttributes = [])
    (hbody : d.bodyAttributes = []) {id : List Char} : id ∈ ids [d.root] ↔ id ∈ ids d.body := by
  have hnil : id ∉ ids [] := List.not_mem_nil
  have hnone : ((attribute? "id" []).map String.toList) ≠ some id := (Option.some_ne_none _).symm
  rw [Html.Document.root, mem_ids_cons, mem_ids_cons, mem_ids_cons, hroot, hbody]
  simp [hnil, hnone]

/-- **Option links add the options to the targets** of a document. -/
theorem mem_ids_linkOptions_iff {id : List Char} :
    id ∈ ids (linkOptions nodes) ↔ id ∈ ids nodes ∨ id ∈ definedOptions nodes := by
  simp only [mem_ids_iff, mem_paths_linkOptions_iff]
  constructor
  · rintro ⟨q, ⟨p, hp, rfl | ⟨hgets, rfl⟩⟩, hvalue⟩
    · rw [valueAt_lift] at hvalue
      exact Or.inl ⟨p, hp, hvalue⟩
    · obtain ⟨attributes, hchosen⟩ :=
        Option.isSome_iff_exists.mp (chosenAnchor_isSome_iff.mpr hgets)
      cases p with
      | nil => exact absurd hchosen (Option.some_ne_none _).symm
      | cons level above =>
        obtain ⟨option, isTarget, rfl, hoption, -⟩ := exists_of_chosenAnchor hp hchosen
        rw [liftLinked, lift_of_choose hchosen, List.tail_cons, valueAt,
          id_anchorAttributes] at hvalue
        cases isTarget with
        | false => exact absurd hvalue (by simp)
        | true =>
          obtain rfl : option = id := by simpa using hvalue
          exact Or.inr hoption
  · rintro (⟨p, hp, hvalue⟩ | hoption)
    · refine ⟨liftLinked nodes p, ⟨p, hp, Or.inl rfl⟩, ?_⟩
      rw [valueAt_lift, hvalue]
    · obtain ⟨before, p, after, hpaths, hdefined, hlast⟩ := exists_last_definition hoption
      have hp : p ∈ paths nodes := hpaths ▸ List.mem_append_right _ List.mem_cons_self
      have hgets : GetsAnchor nodes p :=
        Or.inl (definedAt?_isSome_iff.mp (Option.isSome_of_eq_some hdefined))
      refine ⟨(liftLinked nodes p).tail, ⟨p, hp, Or.inr ⟨hgets, rfl⟩⟩, ?_⟩
      have htarget := target?_eq_some hpaths hdefined hlast
      cases p with
      | nil => exact absurd hdefined (Option.some_ne_none _).symm
      | cons level above =>
        have hchosen : chosenAnchor (definitions nodes).reverse (level :: above) =
            some (anchorAttributes id true) := by
          rw [chosenAnchor, hdefined]
          simp [htarget]
        rw [liftLinked, lift_of_choose hchosen, List.tail_cons, valueAt, id_anchorAttributes]
        simp

/-! ## Links -/

theorem mem_anchorsAmong_iff_elements {href text : List Char} :
    (href, text) ∈ anchorsAmong nodes ↔ ∃ attributes children,
      .element .a attributes children ∈ elementsAmong nodes ∧
        (attribute? "href" attributes).map String.toList = some href ∧
          trimmedText children = text := by
  rw [mem_anchorsAmong_iff]
  constructor
  · rintro ⟨p, hp, hanchor, hhref, htext⟩
    cases p with
    | nil => exact absurd hanchor id
    | cons level above =>
      obtain ⟨index, tag, attributes, children⟩ := level
      obtain rfl : tag = .a := hanchor
      exact ⟨_, _, mem_elementsAmong_iff_paths.mpr ⟨index, above, hp⟩, hhref, htext⟩
  · rintro ⟨attributes, children, hmem, hhref, htext⟩
    obtain ⟨index, above, hp⟩ := mem_elementsAmong_iff_paths.mp hmem
    exact ⟨_, hp, rfl, hhref, htext⟩

/-- Links have no blanks at their ends. -/
theorem trim_of_mem_links {text : List Char} (h : text ∈ links nodes) :
    Text.trim text = text := by
  obtain ⟨-, href, hanchor, -⟩ := mem_links_iff.mp h
  obtain ⟨attributes, children, -, -, rfl⟩ := mem_anchorsAmong_iff_elements.mp hanchor
  exact Text.trim_trim _

end Manpage.Link
