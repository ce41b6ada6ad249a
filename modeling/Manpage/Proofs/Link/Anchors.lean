import Manpage.Proofs.Link.Linked
import Mathlib.Data.Finset.Card
import Mathlib.Data.List.Dedup

/-!
# The anchors of options

The anchors that link options, as a choice of elements: every definition gets one, and so does every
mention of a defined option that lies in no anchor and in no definition. Of the definitions of an
option only the last one carries the `id` that the others point to.

## Main definitions

* `chosenAnchor`: the elements that get an anchor
* `linkedNodes`: a document with its option links as added anchors
* `IsLinked`: what the option links of a document have to be

## Main results

* `results_linkedNodes`: the document with its option links
* `target?_eq_some`: the target of an option is its last definition
* `isLinked_linkedNodes`: the option links of every document are what they have to be
-/

namespace Manpage.Link

open Html (Node Tag Attribute attribute?)

/-! ## The chosen elements -/

/-- Whether one of the elements of a path is an anchor or a definition. -/
def sheltered : Path → Bool
  | [] => false
  | level :: above =>
    (definedAt? (level :: above)).isSome || (sheltered above || level.tag == .a)

/-- The attributes of the anchor around the element that a path leads to, if it gets one; `defs` are
the definitions, the last one first. -/
def chosenAnchor (defs : List (Position × List Char)) : Path → Option (List Attribute)
  | [] => none
  | level :: above =>
    match definedAt? (level :: above) with
    | some option =>
      some (anchorAttributes option (target? defs option == some (position (level :: above))))
    | none =>
      if sheltered above then none
      else (mentionedOption? defs level.tag level.children).map (anchorAttributes · false)

/-- A document with its option links as added anchors. -/
def linkedNodes (nodes : List Node) : List Linked :=
  anchorAmong (chosenAnchor (definitions nodes).reverse) [] 0 nodes

/-- The anchors that link the options of a document, in document order. -/
def addedAnchors (nodes : List Node) : List Added :=
  Linked.addedAmong [] 0 (linkedNodes nodes)

mutual

theorem result_anchorIn (defs : List (Position × List Char)) (above : Path) (index : Nat) :
    ∀ node : Node, (anchorIn (chosenAnchor defs) above index node).result =
      linkIn defs (placeBelow above) (sheltered above) (index :: position above) node
  | .text _ => rfl
  | .element tag attributes children => by
    have ih := results_anchorAmong defs (⟨index, tag, attributes, children⟩ :: above) 0 children
    rw [anchorIn, linkIn]
    cases hdefined : definedOption? (placeBelow above) tag children with
    | some option =>
      simp only [sheltered, definedAt?, hdefined, Option.isSome_some, Bool.true_or] at ih
      simp only [chosenAnchor, definedAt?, hdefined, Linked.result, ih]
      rfl
    | none =>
      simp only [sheltered, definedAt?, hdefined, Option.isSome_none, Bool.false_or] at ih
      simp only [chosenAnchor, definedAt?, hdefined]
      cases hmention : mentionedOption? defs tag children <;>
        cases hsheltered : sheltered above <;>
        simp [Linked.result, ih, placeBelow, position, anchor, hsheltered]

theorem results_anchorAmong (defs : List (Position × List Char)) (above : Path) (index : Nat) :
    ∀ nodes : List Node, Linked.results (anchorAmong (chosenAnchor defs) above index nodes) =
      linkAmong defs (placeBelow above) (sheltered above) (position above) index nodes
  | [] => rfl
  | node :: nodes => by
    rw [anchorAmong, Linked.results, linkAmong, result_anchorIn defs above index node,
      results_anchorAmong defs above (index + 1) nodes]

end

/-- **The document with its option links** has the added anchors of the chosen elements. -/
theorem results_linkedNodes (nodes : List Node) :
    Linked.results (linkedNodes nodes) = linkOptions nodes :=
  results_anchorAmong _ [] 0 nodes

theorem originals_linkedNodes (nodes : List Node) :
    Linked.originals (linkedNodes nodes) = nodes :=
  originals_anchorAmong _ [] 0 nodes

theorem addedAnchors_eq (nodes : List Node) :
    addedAnchors nodes =
      (paths nodes).filterMap (added? (chosenAnchor (definitions nodes).reverse)) :=
  addedAmong_anchorAmong _ [] 0 nodes

/-! ## What an anchor says -/

section Attributes

variable (option : List Char) (isTarget : Bool)

theorem href_anchorAttributes :
    attribute? "href" (anchorAttributes option isTarget) = some (String.ofList ('#' :: option)) :=
  rfl

theorem class_anchorAttributes :
    attribute? "class" (anchorAttributes option isTarget) = some "in-doc" := by
  cases isTarget <;> simp [attribute?, anchorAttributes, anchorClass]

theorem id_anchorAttributes :
    attribute? "id" (anchorAttributes option isTarget) =
      if isTarget then some (String.ofList option) else none := by
  cases isTarget <;> simp [attribute?, anchorAttributes]

end Attributes

theorem any_reverse_definitions {nodes : List Node} {text : List Char} :
    (definitions nodes).reverse.any (·.2 == text) ↔ text ∈ definedOptions nodes := by
  simp [definedOptions, List.any_eq_true]

theorem mentionedOption?_eq_some_iff {nodes : List Node} {tag : Tag} {children : List Node}
    {option : List Char} :
    mentionedOption? (definitions nodes).reverse tag children = some option ↔
      tag = .b ∧ trimmedText children = option ∧ option ∈ definedOptions nodes := by
  rw [mentionedOption?]
  by_cases htag : tag = .b
  · rw [if_pos htag, Option.filter_eq_some_iff, Option.some.injEq, any_reverse_definitions,
      and_iff_right htag]
  · rw [if_neg htag]
    constructor
    · intro h
      exact absurd h (Option.some_ne_none _).symm
    · rintro ⟨h, -⟩
      exact absurd h htag

/-- **What gets an anchor** is bold text that says a defined option, and the anchor is the target
only around the definition that is looked up. -/
theorem exists_of_chosenAnchor {nodes : List Node} {level : Level} {above : Path}
    {attributes : List Attribute} (hpath : level :: above ∈ paths nodes)
    (h : chosenAnchor (definitions nodes).reverse (level :: above) = some attributes) :
    ∃ option isTarget, attributes = anchorAttributes option isTarget ∧
      option ∈ definedOptions nodes ∧ level.tag = .b ∧ trimmedText level.children = option ∧
      (isTarget = true → definedAt? (level :: above) = some option ∧
        target? (definitions nodes).reverse option = some (position (level :: above))) := by
  rw [chosenAnchor] at h
  split at h
  · next option hdefined =>
    obtain rfl := Option.some.inj h
    have hterm := definedAt?_eq_some_iff.mp hdefined
    obtain ⟨htag, -⟩ := isTerm_cons_iff.mp hterm.1
    refine ⟨option, _, rfl, mem_definedOptions_iff.mpr ⟨_, hpath, hdefined⟩, htag, hterm.2.1, ?_⟩
    intro htarget
    exact ⟨hdefined, beq_iff_eq.mp htarget⟩
  · split at h
    · exact absurd h (Option.some_ne_none _).symm
    · obtain ⟨option, hmention, rfl⟩ := Option.map_eq_some_iff.mp h
      obtain ⟨htag, htext, hmem⟩ := mentionedOption?_eq_some_iff.mp hmention
      exact ⟨option, false, rfl, hmem, htag, htext, fun h => absurd h Bool.false_ne_true⟩

/-! ## The target of an option -/

/-- **The target of an option** is its last definition. -/
theorem target?_eq_some {nodes : List Node} {option : List Char} {before after : List Path}
    {p : Path} (hpaths : paths nodes = before ++ p :: after) (hp : definedAt? p = some option)
    (hlast : ∀ q ∈ after, definedAt? q ≠ some option) :
    target? (definitions nodes).reverse option = some (position p) := by
  have hafter : (after.filterMap fun q => (definedAt? q).map (position q, ·)).reverse.find?
      (·.2 == option) = none := by
    rw [List.find?_eq_none]
    intro d hd
    obtain ⟨q, hq, hdefined⟩ := List.mem_filterMap.mp (List.mem_reverse.mp hd)
    obtain ⟨text, htext, rfl⟩ := Option.map_eq_some_iff.mp hdefined
    intro h
    exact hlast q hq (htext.trans (congrArg some (beq_iff_eq.mp h)))
  rw [target?, definitions_eq, hpaths, List.filterMap_append, List.filterMap_cons, hp,
    Option.map_some, List.reverse_append, List.reverse_cons, List.append_assoc, List.find?_append,
    hafter, Option.none_or, List.singleton_append]
  simp

/-- An option that is defined has a last definition. -/
theorem exists_last_definition {nodes : List Node} {option : List Char}
    (h : option ∈ definedOptions nodes) :
    ∃ before p after, paths nodes = before ++ p :: after ∧ definedAt? p = some option ∧
      ∀ q ∈ after, definedAt? q ≠ some option := by
  obtain ⟨p, hp, hdefined⟩ := mem_definedOptions_iff.mp h
  have hfind : ((paths nodes).reverse.find? (definedAt? · == some option)).isSome :=
    List.find?_isSome.mpr ⟨p, List.mem_reverse.mpr hp, beq_iff_eq.mpr hdefined⟩
  obtain ⟨q, hq⟩ := Option.isSome_iff_exists.mp hfind
  obtain ⟨hqdefined, later, earlier, hsplit, hlater⟩ := List.find?_eq_some_iff_append.mp hq
  refine ⟨earlier.reverse, q, later.reverse, ?_, beq_iff_eq.mp hqdefined, ?_⟩
  · rw [← List.reverse_reverse (paths nodes), hsplit]
    simp
  · intro r hr hrdefined
    have hnot := hlater r (List.mem_reverse.mp hr)
    rw [hrdefined, beq_self_eq_true] at hnot
    exact absurd hnot Bool.false_ne_true

/-! ## The number of options -/

theorem nodup_eraseDups (texts : List (List Char)) : texts.eraseDups.Nodup := by
  induction h : texts.length using Nat.strongRecOn generalizing texts with
  | ind n ih =>
    cases texts with
    | nil => exact List.nodup_nil
    | cons text texts =>
      rw [List.eraseDups_cons, List.nodup_cons]
      refine ⟨fun hmem => ?_, ih _ ?_ _ rfl⟩
      · have hne := (List.mem_filter.mp (List.mem_eraseDups.mp hmem)).2
        simp at hne
      · have := List.length_filter_le (fun other => !other == text) texts
        rw [List.length_cons] at h
        omega

/-- The number of options counts each option once. -/
theorem optionCount_eq_card (nodes : List Node) :
    optionCount nodes = (definedOptions nodes).toFinset.card := by
  have hsame : (definedOptions nodes).eraseDups.toFinset = (definedOptions nodes).toFinset := by
    ext text
    rw [List.mem_toFinset, List.mem_toFinset, List.mem_eraseDups]
  rw [optionCount, ← hsame, List.toFinset_card_of_nodup (nodup_eraseDups _)]

/-! ## The anchors of a document -/

/-- What the option links of a document have to be: `linked` is the document with the added
anchors, and `options` are the options that it defines. -/
structure IsLinked (nodes : List Node) (linked : List Linked) (options : Finset (List Char)) :
    Prop where
  /-- Without the added anchors it is the same document. -/
  original : Linked.originals linked = nodes
  /-- The options are the texts of bold terms that have the form of an option. -/
  mem_options : ∀ text, text ∈ options ↔
    IsOptionText text ∧ ∃ p ∈ paths nodes, IsTerm p ∧ textAt p = text
  /-- One anchor has the `id` of an option, and it is around the last term with that text. -/
  target : ∀ text ∈ options, ∃ before p after, paths nodes = before ++ p :: after ∧
    IsTerm p ∧ textAt p = text ∧ (∀ q ∈ after, IsTerm q → textAt q ≠ text) ∧
    ((Linked.addedAmong [] 0 linked).filter fun x =>
      attribute? "id" x.attributes == some (String.ofList text)).map (·.origin) = [position p]
  /-- Every anchor points to an option, has no `id` but that of the option, and is around one bold
  text that says the option. -/
  anchors : ∀ x ∈ Linked.addedAmong [] 0 linked, ∃ text ∈ options,
    attribute? "href" x.attributes = some (String.ofList ('#' :: text)) ∧
    attribute? "class" x.attributes = some "in-doc" ∧
    (attribute? "id" x.attributes = none ∨
      attribute? "id" x.attributes = some (String.ofList text)) ∧
    ∃ attributes children, x.children = [.element .b attributes children] ∧
      trimmedText children = text

/-- The added anchors are around different elements. -/
theorem nodup_origin_filterMap (choose : Path → Option (List Attribute)) {ps : List Path}
    (h : (ps.map position).Nodup) :
    ((ps.filterMap (added? choose)).map (·.origin)).Nodup := by
  refine h.sublist (map_filterMap_sublist (fun p x hadded => ?_) ps)
  cases p with
  | nil => exact absurd hadded (Option.some_ne_none _).symm
  | cons level above =>
    obtain ⟨attributes, -, rfl⟩ := Option.map_eq_some_iff.mp hadded
    rfl

/-- An added anchor is that of a chosen element. -/
theorem mem_addedAnchors_iff {nodes : List Node} {x : Added} :
    x ∈ addedAnchors nodes ↔
      ∃ level above attributes, level :: above ∈ paths nodes ∧
        chosenAnchor (definitions nodes).reverse (level :: above) = some attributes ∧
        x = ⟨position (level :: above), attributes, [.element level.tag level.attributes
          (Linked.results (anchorAmong (chosenAnchor (definitions nodes).reverse)
            (level :: above) 0 level.children))]⟩ := by
  rw [addedAnchors_eq, List.mem_filterMap]
  constructor
  · rintro ⟨p, hp, hadded⟩
    cases p with
    | nil => exact absurd hadded (Option.some_ne_none _).symm
    | cons level above =>
      obtain ⟨attributes, hchosen, rfl⟩ := Option.map_eq_some_iff.mp hadded
      exact ⟨level, above, attributes, hp, hchosen, rfl⟩
  · rintro ⟨level, above, attributes, hp, hchosen, rfl⟩
    exact ⟨_, hp, by rw [added?, hchosen, Option.map_some]⟩

/-- The anchor with the `id` of an option is around the last definition. -/
theorem origin_of_id {nodes : List Node} {text : List Char} {before after : List Path} {p : Path}
    (hpaths : paths nodes = before ++ p :: after) (hp : definedAt? p = some text)
    (hlast : ∀ q ∈ after, definedAt? q ≠ some text) :
    ((addedAnchors nodes).filter fun x =>
      attribute? "id" x.attributes == some (String.ofList text)).map (·.origin) = [position p] := by
  have htarget := target?_eq_some hpaths hp hlast
  have hnodup : (((addedAnchors nodes).filter fun x =>
      attribute? "id" x.attributes == some (String.ofList text)).map (·.origin)).Nodup := by
    refine List.Nodup.sublist (List.filter_sublist.map _) ?_
    rw [addedAnchors_eq]
    exact nodup_origin_filterMap _ (nodup_position_paths nodes)
  refine List.perm_singleton.mp
    ((List.perm_ext_iff_of_nodup hnodup (List.nodup_singleton _)).mpr fun origin => ?_)
  rw [List.mem_singleton, List.mem_map]
  constructor
  · rintro ⟨x, hx, rfl⟩
    obtain ⟨hadded, hid⟩ := List.mem_filter.mp hx
    obtain ⟨level, above, attributes, hpath, hchosen, rfl⟩ := mem_addedAnchors_iff.mp hadded
    obtain ⟨option, isTarget, rfl, -, -, -, hlookup⟩ := exists_of_chosenAnchor hpath hchosen
    rw [beq_iff_eq, id_anchorAttributes] at hid
    split at hid
    · next h =>
      obtain rfl := String.ofList_inj.mp (Option.some.inj hid)
      exact Option.some.inj ((hlookup h).2.symm.trans htarget)
    · exact absurd hid (Option.some_ne_none _).symm
  · rintro rfl
    have hpath : p ∈ paths nodes := hpaths ▸ List.mem_append_right _ List.mem_cons_self
    cases p with
    | nil => exact absurd hp (Option.some_ne_none _).symm
    | cons level above =>
      have hchosen : chosenAnchor (definitions nodes).reverse (level :: above) =
          some (anchorAttributes text true) := by
        rw [chosenAnchor, hp]
        simp [htarget]
      refine ⟨_, List.mem_filter.mpr
        ⟨mem_addedAnchors_iff.mpr ⟨level, above, _, hpath, hchosen, rfl⟩, ?_⟩, rfl⟩
      rw [beq_iff_eq, id_anchorAttributes, if_pos rfl]

/-- **The integrity of option links.** In every document the number of options is the number of
different texts of bold terms that have the form of an option. Each of these texts is the `id` of
one added anchor, which is around the last such term; every added anchor points to one of them and
is around one bold text that says it. -/
theorem isLinked_linkedNodes (nodes : List Node) :
    Linked.results (linkedNodes nodes) = linkOptions nodes ∧
      optionCount nodes = (definedOptions nodes).toFinset.card ∧
      IsLinked nodes (linkedNodes nodes) (definedOptions nodes).toFinset := by
  refine ⟨results_linkedNodes nodes, optionCount_eq_card nodes, originals_linkedNodes nodes,
    fun text => ?_, fun text htext => ?_, fun x hx => ?_⟩
  · rw [List.mem_toFinset, mem_definedOptions_iff]
    constructor
    · rintro ⟨p, hp, hdefined⟩
      obtain ⟨hterm, htext, hoption⟩ := definedAt?_eq_some_iff.mp hdefined
      exact ⟨hoption, p, hp, hterm, htext⟩
    · rintro ⟨hoption, p, hp, hterm, htext⟩
      exact ⟨p, hp, definedAt?_eq_some_iff.mpr ⟨hterm, htext, hoption⟩⟩
  · obtain ⟨before, p, after, hpaths, hp, hlast⟩ :=
      exists_last_definition (List.mem_toFinset.mp htext)
    obtain ⟨hterm, hsays, hoption⟩ := definedAt?_eq_some_iff.mp hp
    refine ⟨before, p, after, hpaths, hterm, hsays, fun q hq hqterm hqsays => ?_,
      origin_of_id hpaths hp hlast⟩
    exact hlast q hq (definedAt?_eq_some_iff.mpr ⟨hqterm, hqsays, hoption⟩)
  · obtain ⟨level, above, attributes, hpath, hchosen, rfl⟩ := mem_addedAnchors_iff.mp hx
    obtain ⟨option, isTarget, rfl, hmem, htag, hsays, -⟩ := exists_of_chosenAnchor hpath hchosen
    refine ⟨option, List.mem_toFinset.mpr hmem, href_anchorAttributes _ _,
      class_anchorAttributes _ _, ?_, level.attributes, _, by rw [htag], ?_⟩
    · rw [id_anchorAttributes]
      cases isTarget
      · exact Or.inl rfl
      · exact Or.inr rfl
    · rw [trimmedText_anchorAmong, hsays]

end Manpage.Link
