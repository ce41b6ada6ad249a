import Manpage.Proofs.Link.Anchors

/-!
# Wrapping one element after the other

The option links of a document, added one at a time. First each definition is put into an anchor.
Then the bold text is looked at in the document as it has become, and what mentions an option there
is put into an anchor as well. An element that is yet to be wrapped can lie in one that has been
wrapped, or around it. No step changes anything else, and all of them together give the document
with its option links.

## Main definitions

* `Linked.wrapAmong`: a document in which one more element is put into an anchor
* `Linked.nodesAmong`: the nodes of a document with added anchors that are not added anchors
* `definitionWraps`, `mentionWraps`: what is put into anchors
* `linkedStepwise`: a document to which option links have been added one at a time

## Main results

* `Linked.originals_wrapAll`: nothing is lost, moved or doubled
* `wrapAll_anchorAmong`: elements that are wrapped one after the other are chosen all at once
* `linkedStepwise_eq`: the order does not matter
* `linkedStepwise_only_wraps`: without the added anchors it is the document that it was
-/

namespace Manpage.Link

open Html (Node Tag Attribute)

/-- The position of an element, and the attributes of the anchor that it is put into. -/
abbrev Wrap := Position × List Attribute

namespace Linked

/-! ## One step -/

mutual

/-- A node in which the element at one position is put into an anchor, if it lies in the node. -/
def wrapIn (wrap : Wrap) (here : Position) : Linked → Linked
  | .text content => .text content
  | .element tag attributes children =>
    if here = wrap.1 then .anchor wrap.2 (.element tag attributes children)
    else .element tag attributes (wrapAmong wrap here 0 children)
  | .anchor attributes child => .anchor attributes (wrapIn wrap here child)

/-- The children of an element from a given index on, in which the element at one position is put
into an anchor. -/
def wrapAmong (wrap : Wrap) (parent : Position) (index : Nat) : List Linked → List Linked
  | [] => []
  | node :: nodes => wrapIn wrap (index :: parent) node :: wrapAmong wrap parent (index + 1) nodes

end

/-- A document in which elements are put into anchors, one after the other. -/
def wrapAll (wraps : List Wrap) (nodes : List Linked) : List Linked :=
  wraps.foldl (fun nodes wrap => wrapAmong wrap [] 0 nodes) nodes

mutual

theorem original_wrapIn (wrap : Wrap) :
    ∀ (here : Position) (node : Linked), (wrapIn wrap here node).original = node.original
  | _, .text _ => rfl
  | here, .element tag attributes children => by
    rw [wrapIn]
    split
    · rfl
    · rw [original, original, originals_wrapAmong wrap here 0 children]
  | here, .anchor _ child => by
    rw [wrapIn, original, original, original_wrapIn wrap here child]

/-- A step changes nothing but that it adds an anchor. -/
theorem originals_wrapAmong (wrap : Wrap) :
    ∀ (parent : Position) (index : Nat) (nodes : List Linked),
      originals (wrapAmong wrap parent index nodes) = originals nodes
  | _, _, [] => rfl
  | parent, index, node :: nodes => by
    rw [wrapAmong, originals, originals, original_wrapIn wrap _ node,
      originals_wrapAmong wrap parent (index + 1) nodes]

end

/-- **Nothing is lost, moved or doubled**, whatever is put into anchors. -/
theorem originals_wrapAll (wraps : List Wrap) (nodes : List Linked) :
    originals (wrapAll wraps nodes) = originals nodes := by
  induction wraps generalizing nodes with
  | nil => rfl
  | cons wrap wraps ih => exact (ih _).trans (originals_wrapAmong wrap [] 0 nodes)

/-! ## The nodes of a document -/

mutual

/-- The nodes in a node that are no added anchors, in document order. -/
def nodesIn : Linked → List Linked
  | .text content => [.text content]
  | .element tag attributes children => .element tag attributes children :: nodesAmong children
  | .anchor _ child => nodesIn child

/-- The nodes in nodes that are no added anchors, in document order. -/
def nodesAmong : List Linked → List Linked
  | [] => []
  | node :: nodes => nodesIn node ++ nodesAmong nodes

end

end Linked

mutual

/-- The nodes in a node, in document order. -/
def nodesIn : Node → List Node
  | .text content => [.text content]
  | .element tag attributes children => .element tag attributes children :: nodesAmong children

/-- The nodes in nodes, in document order. -/
def nodesAmong : List Node → List Node
  | [] => []
  | node :: nodes => nodesIn node ++ nodesAmong nodes

end

namespace Linked

mutual

theorem map_original_nodesIn :
    ∀ node : Linked, (nodesIn node).map original = Link.nodesIn node.original
  | .text _ => rfl
  | .element tag attributes children => by
    rw [nodesIn, original, Link.nodesIn, List.map_cons, map_original_nodesAmong children, original]
  | .anchor _ child => map_original_nodesIn child

/-- The nodes of a document stay in their order. -/
theorem map_original_nodesAmong :
    ∀ nodes : List Linked, (nodesAmong nodes).map original = Link.nodesAmong (originals nodes)
  | [] => rfl
  | node :: nodes => by
    rw [nodesAmong, originals, Link.nodesAmong, List.map_append, map_original_nodesIn node,
      map_original_nodesAmong nodes]

end

end Linked

/-! ## All steps -/

theorem lookup_eq_none_iff_notMem {wraps : List Wrap} {here : Position} :
    wraps.lookup here = none ↔ here ∉ wraps.map (·.1) := by
  rw [List.lookup_eq_none_iff, List.mem_map, not_exists]
  refine forall_congr' fun wrap => ?_
  rw [bne_iff_ne, not_and, ne_comm]

section Choice

variable {choose : Path → Option (List Attribute)}

mutual

theorem anchorIn_congr {choose' : Path → Option (List Attribute)} :
    ∀ {above : Path} {index : Nat} {node : Node},
      (∀ p ∈ pathsIn above index node, choose p = choose' p) →
        anchorIn choose above index node = anchorIn choose' above index node
  | _, _, .text _, _ => rfl
  | above, index, .element tag attributes children, h => by
    obtain ⟨hself, hchildren⟩ := List.forall_mem_cons.mp h
    rw [anchorIn, anchorIn, hself, anchorAmong_congr hchildren]

/-- Only the choice among the elements of the document matters. -/
theorem anchorAmong_congr {choose' : Path → Option (List Attribute)} :
    ∀ {above : Path} {index : Nat} {nodes : List Node},
      (∀ p ∈ pathsAmong above index nodes, choose p = choose' p) →
        anchorAmong choose above index nodes = anchorAmong choose' above index nodes
  | _, _, [], _ => rfl
  | above, index, node :: nodes, h => by
    obtain ⟨hnode, hnodes⟩ := List.forall_mem_append.mp h
    rw [anchorAmong, anchorAmong, anchorIn_congr hnode, anchorAmong_congr hnodes]

end

/-- A choice of elements, with one more element. -/
def chooseAlso (wrap : Wrap) (choose : Path → Option (List Attribute)) (p : Path) :
    Option (List Attribute) :=
  if position p = wrap.1 then some wrap.2 else choose p

mutual

theorem wrapIn_anchorIn (wrap : Wrap) :
    ∀ {above : Path} {index : Nat} {node : Node},
      (∀ p ∈ pathsIn above index node, position p = wrap.1 → choose p = none) →
        Linked.wrapIn wrap (index :: position above) (anchorIn choose above index node) =
          anchorIn (chooseAlso wrap choose) above index node
  | _, _, .text _, _ => rfl
  | above, index, .element tag attributes children, h => by
    obtain ⟨hself, hchildren⟩ := List.forall_mem_cons.mp h
    have ih := wrapAmong_anchorAmong wrap hchildren
    rw [anchorIn, anchorIn, chooseAlso]
    by_cases hhere : position (⟨index, tag, attributes, children⟩ :: above) = wrap.1
    · have hbelow : anchorAmong choose (⟨index, tag, attributes, children⟩ :: above) 0 children =
          anchorAmong (chooseAlso wrap choose) (⟨index, tag, attributes, children⟩ :: above) 0
            children := by
        refine anchorAmong_congr fun p hp => (if_neg fun hposition => ?_).symm
        obtain ⟨i, -, hsuffix⟩ := suffix_of_mem_pathsAmong hp
        have hlength := hsuffix.length_le
        rw [hposition, hhere, List.length_cons] at hlength
        omega
      rw [hself hhere, if_pos hhere, ← hbelow]
      exact if_pos hhere
    · rw [if_neg hhere]
      cases choose (⟨index, tag, attributes, children⟩ :: above) with
      | none => exact (if_neg hhere).trans (congrArg (Linked.element tag attributes) ih)
      | some chosen =>
        exact congrArg (Linked.anchor chosen)
          ((if_neg hhere).trans (congrArg (Linked.element tag attributes) ih))

/-- One step chooses one more element. -/
theorem wrapAmong_anchorAmong (wrap : Wrap) :
    ∀ {above : Path} {index : Nat} {nodes : List Node},
      (∀ p ∈ pathsAmong above index nodes, position p = wrap.1 → choose p = none) →
        Linked.wrapAmong wrap (position above) index (anchorAmong choose above index nodes) =
          anchorAmong (chooseAlso wrap choose) above index nodes
  | _, _, [], _ => rfl
  | above, index, node :: nodes, h => by
    obtain ⟨hnode, hnodes⟩ := List.forall_mem_append.mp h
    rw [anchorAmong, Linked.wrapAmong, anchorAmong, wrapIn_anchorIn wrap hnode,
      wrapAmong_anchorAmong wrap hnodes]

end

/-- **Elements that are wrapped one after the other** are chosen all at once, if they are told apart
and none of them has an added anchor already. -/
theorem wrapAll_anchorAmong {wraps : List Wrap} {nodes : List Node}
    (hnodup : (wraps.map (·.1)).Nodup)
    (hfresh : ∀ p ∈ paths nodes, position p ∈ wraps.map (·.1) → choose p = none) :
    Linked.wrapAll wraps (anchorAmong choose [] 0 nodes) =
      anchorAmong (fun p => (wraps.lookup (position p)).or (choose p)) [] 0 nodes := by
  induction wraps generalizing choose with
  | nil => rfl
  | cons wrap wraps ih =>
    rw [List.map_cons, List.nodup_cons] at hnodup
    have hstep : Linked.wrapAmong wrap [] 0 (anchorAmong choose [] 0 nodes) =
        anchorAmong (chooseAlso wrap choose) [] 0 nodes :=
      wrapAmong_anchorAmong wrap fun p hp hposition => hfresh p hp (hposition ▸ List.mem_cons_self)
    have hrest : ∀ p ∈ paths nodes, position p ∈ wraps.map (·.1) →
        chooseAlso wrap choose p = none := by
      intro p hp hmem
      have hne : position p ≠ wrap.1 := fun h => hnodup.1 (h ▸ hmem)
      rw [chooseAlso, if_neg hne]
      exact hfresh p hp (List.mem_cons_of_mem _ hmem)
    rw [Linked.wrapAll, List.foldl_cons, hstep]
    refine (ih hnodup.2 hrest).trans (anchorAmong_congr fun p _ => ?_)
    rw [chooseAlso, List.lookup_cons]
    by_cases hposition : position p = wrap.1
    · have hlookup : wraps.lookup (position p) = none :=
        lookup_eq_none_iff_notMem.mpr (hposition ▸ hnodup.1)
      rw [if_pos hposition, hlookup, hposition, beq_self_eq_true]
      rfl
    · rw [if_neg hposition, beq_false_of_ne hposition]

end Choice

/-! ## Steps for chosen elements -/

section Chosen

variable (chosen : Path → Option (List Attribute))

/-- The steps that put the chosen elements into anchors. -/
def wrapsOf (ps : List Path) : List Wrap :=
  ps.filterMap fun p => (chosen p).map (position p, ·)

theorem map_fst_wrapsOf_sublist (ps : List Path) :
    ((wrapsOf chosen ps).map (·.1)).Sublist (ps.map position) := by
  refine map_filterMap_sublist (fun p wrap hwrap => ?_) ps
  obtain ⟨attributes, -, rfl⟩ := Option.map_eq_some_iff.mp hwrap
  rfl

theorem lookup_wrapsOf_cons (p q : Path) (ps : List Path) :
    (wrapsOf chosen (q :: ps)).lookup (position p) =
      if position p = position q then (chosen q).or ((wrapsOf chosen ps).lookup (position p))
      else (wrapsOf chosen ps).lookup (position p) := by
  rw [wrapsOf, List.filterMap_cons]
  cases chosen q with
  | none => split_ifs <;> rfl
  | some attributes =>
    rw [Option.map_some, List.lookup_cons]
    split_ifs with h
    · rw [h, beq_self_eq_true]
      rfl
    · rw [beq_false_of_ne h]
      rfl

/-- The step for an element is looked up by its position. -/
theorem lookup_wrapsOf {ps : List Path} (hnodup : (ps.map position).Nodup) {p : Path}
    (hp : p ∈ ps) : (wrapsOf chosen ps).lookup (position p) = chosen p := by
  induction ps with
  | nil => exact absurd hp List.not_mem_nil
  | cons q ps ih =>
    obtain ⟨hq, hps⟩ := List.nodup_cons.mp hnodup
    rw [lookup_wrapsOf_cons]
    rcases List.mem_cons.mp hp with rfl | hp
    · have hnone : (wrapsOf chosen ps).lookup (position p) = none :=
        lookup_eq_none_iff_notMem.mpr fun h => hq ((map_fst_wrapsOf_sublist chosen ps).mem h)
      rw [if_pos rfl, hnone, Option.or_none]
    · have hne : position p ≠ position q := fun h => hq (h ▸ List.mem_map_of_mem hp)
      rw [if_neg hne, ih hps hp]

/-- Elements that are chosen in the end can be wrapped one after the other. -/
theorem wrapAll_wrapsOf {choose : Path → Option (List Attribute)} {nodes : List Node}
    (hfresh : ∀ p ∈ paths nodes, (chosen p).isSome → choose p = none) :
    Linked.wrapAll (wrapsOf chosen (paths nodes)) (anchorAmong choose [] 0 nodes) =
      anchorAmong (fun p => (chosen p).or (choose p)) [] 0 nodes := by
  have hlookup : ∀ p ∈ paths nodes,
      (wrapsOf chosen (paths nodes)).lookup (position p) = chosen p :=
    fun p hp => lookup_wrapsOf chosen (nodup_position_paths nodes) hp
  have hnodup : ((wrapsOf chosen (paths nodes)).map (·.1)).Nodup :=
    (nodup_position_paths nodes).sublist (map_fst_wrapsOf_sublist chosen _)
  rw [wrapAll_anchorAmong hnodup]
  · exact anchorAmong_congr fun p hp => by rw [hlookup p hp]
  · intro p hp hmem
    refine hfresh p hp ?_
    rw [← hlookup p hp, Option.isSome_iff_ne_none, Ne, lookup_eq_none_iff_notMem]
    exact not_not_intro hmem

end Chosen

/-! ## The bold text of a document -/

/-- Bold text in a document with added anchors: the position of the element, whether it lies in an
anchor, added or not, and what it says. -/
structure Bold where
  origin : Position
  inAnchor : Bool
  text : List Char

namespace Linked

mutual

/-- The bold text in a node, in document order. -/
def boldIn (inAnchor : Bool) (here : Position) : Linked → List Bold
  | .text _ => []
  | .element tag _ children =>
    (if tag = .b then [⟨here, inAnchor, trimmedText (results children)⟩] else []) ++
      boldAmong (inAnchor || tag == .a) here 0 children
  | .anchor _ child => boldIn true here child

/-- The bold text in the children of an element from a given index on. -/
def boldAmong (inAnchor : Bool) (parent : Position) (index : Nat) : List Linked → List Bold
  | [] => []
  | node :: nodes =>
    boldIn inAnchor (index :: parent) node ++ boldAmong inAnchor parent (index + 1) nodes

end

end Linked

/-- The bold text that a path leads to, once the definitions have been put into anchors. -/
def boldAt? : Path → Option Bold
  | [] => none
  | level :: above =>
    if level.tag = .b then
      some ⟨position (level :: above), (definedAt? (level :: above)).isSome || sheltered above,
        textAt (level :: above)⟩
    else none

section Choice

variable {choose : Path → Option (List Attribute)}

mutual

theorem boldIn_anchorIn (hchoose : ∀ p, (choose p).isSome = (definedAt? p).isSome) (above : Path)
    (index : Nat) :
    ∀ node : Node,
      Linked.boldIn (sheltered above) (index :: position above) (anchorIn choose above index node) =
        (pathsIn above index node).filterMap boldAt?
  | .text _ => rfl
  | .element tag attributes children => by
    have ih := boldAmong_anchorAmong hchoose (⟨index, tag, attributes, children⟩ :: above) 0
      children
    have hself := hchoose (⟨index, tag, attributes, children⟩ :: above)
    rw [sheltered, ← hself] at ih
    rw [anchorIn, pathsIn, List.filterMap_cons, ← ih, boldAt?, ← hself]
    cases choose (⟨index, tag, attributes, children⟩ :: above) with
    | none =>
      by_cases htag : tag = .b <;>
        simp [Linked.boldIn, htag, trimmedText_anchorAmong, textAt, position]
    | some chosen =>
      by_cases htag : tag = .b <;>
        simp [Linked.boldIn, htag, trimmedText_anchorAmong, textAt, position]

/-- The bold text of a document in which the definitions have been put into anchors. -/
theorem boldAmong_anchorAmong (hchoose : ∀ p, (choose p).isSome = (definedAt? p).isSome)
    (above : Path) (index : Nat) :
    ∀ nodes : List Node,
      Linked.boldAmong (sheltered above) (position above) index
          (anchorAmong choose above index nodes) =
        (pathsAmong above index nodes).filterMap boldAt?
  | [] => rfl
  | node :: nodes => by
    rw [anchorAmong, Linked.boldAmong, pathsAmong, List.filterMap_append,
      boldIn_anchorIn hchoose above index node,
      boldAmong_anchorAmong hchoose above (index + 1) nodes]

end

end Choice

/-! ## Option links, one at a time -/

/-- The steps that put the definitions into anchors, in document order. -/
def definitionWraps (nodes : List Node) : List Wrap :=
  (definitions nodes).map fun d =>
    (d.1, anchorAttributes d.2 (target? (definitions nodes).reverse d.2 == some d.1))

/-- The steps that put the mentions of options into anchors, in document order: the bold text of
`linked` that is no definition, lies in no anchor and says an option. -/
def mentionWraps (nodes : List Node) (linked : List Linked) : List Wrap :=
  ((Linked.boldAmong false [] 0 linked).filter fun bold =>
    bold.origin ∉ (definitions nodes).map (·.1) ∧ ¬ bold.inAnchor ∧
      bold.text ∈ definedOptions nodes).map
    fun bold => (bold.origin, anchorAttributes bold.text false)

/-- A document without added anchors. -/
def unlinked (nodes : List Node) : List Linked :=
  anchorAmong (fun _ => none) [] 0 nodes

/-- A document in which the definitions have been put into anchors, one after the other. -/
def definedStepwise (nodes : List Node) : List Linked :=
  Linked.wrapAll (definitionWraps nodes) (unlinked nodes)

/-- **A document to which option links have been added one at a time**: the definitions first, then
what mentions an option in the document as it is by then. -/
def linkedStepwise (nodes : List Node) : List Linked :=
  Linked.wrapAll (mentionWraps nodes (definedStepwise nodes)) (definedStepwise nodes)

/-- The attributes of the anchor around a definition. -/
def definitionAnchor (defs : List (Position × List Char)) (p : Path) : Option (List Attribute) :=
  (definedAt? p).map fun option =>
    anchorAttributes option (target? defs option == some (position p))

/-- The attributes of the anchor around a mention. -/
def mentionAnchor (defs : List (Position × List Char)) : Path → Option (List Attribute)
  | [] => none
  | level :: above =>
    if (definedAt? (level :: above)).isSome || sheltered above then none
    else (mentionedOption? defs level.tag level.children).map (anchorAttributes · false)

theorem isSome_definitionAnchor (defs : List (Position × List Char)) (p : Path) :
    (definitionAnchor defs p).isSome = (definedAt? p).isSome :=
  Option.isSome_map

/-- What gets an anchor is a mention or a definition. -/
theorem mentionAnchor_or_definitionAnchor (defs : List (Position × List Char)) (p : Path) :
    (mentionAnchor defs p).or (definitionAnchor defs p) = chosenAnchor defs p := by
  cases p with
  | nil => rfl
  | cons level above =>
    rw [mentionAnchor, definitionAnchor, chosenAnchor]
    cases definedAt? (level :: above) <;> cases sheltered above <;> simp

theorem definitionWraps_eq (nodes : List Node) :
    definitionWraps nodes =
      wrapsOf (definitionAnchor (definitions nodes).reverse) (paths nodes) := by
  rw [definitionWraps, wrapsOf]
  generalize (definitions nodes).reverse = defs
  rw [definitions_eq, List.map_filterMap]
  refine List.filterMap_congr fun p _ => ?_
  rw [definitionAnchor, Option.map_map, Option.map_map]
  rfl

theorem definedStepwise_eq (nodes : List Node) :
    definedStepwise nodes =
      anchorAmong (definitionAnchor (definitions nodes).reverse) [] 0 nodes := by
  rw [definedStepwise, definitionWraps_eq, unlinked, wrapAll_wrapsOf _ fun _ _ _ => rfl]
  exact anchorAmong_congr fun p _ => Option.or_none

theorem position_mem_definitions_iff {nodes : List Node} {p : Path} (hp : p ∈ paths nodes) :
    position p ∈ (definitions nodes).map (·.1) ↔ (definedAt? p).isSome := by
  simp only [definitions_eq, List.mem_map, List.mem_filterMap, Option.map_eq_some_iff]
  constructor
  · rintro ⟨_, ⟨q, hq, option, hdefined, rfl⟩, hposition⟩
    obtain rfl := List.inj_on_of_nodup_map (nodup_position_paths nodes) hq hp hposition
    exact Option.isSome_of_eq_some hdefined
  · intro h
    obtain ⟨option, hdefined⟩ := Option.isSome_iff_exists.mp h
    exact ⟨_, ⟨p, hp, option, hdefined, rfl⟩, rfl⟩

theorem mentionWraps_eq (nodes : List Node) :
    mentionWraps nodes (definedStepwise nodes) =
      wrapsOf (mentionAnchor (definitions nodes).reverse) (paths nodes) := by
  have hbold : Linked.boldAmong false [] 0 (definedStepwise nodes) =
      (paths nodes).filterMap boldAt? := by
    rw [definedStepwise_eq]
    exact boldAmong_anchorAmong (isSome_definitionAnchor _) [] 0 nodes
  rw [mentionWraps, hbold, List.filter_filterMap, List.map_filterMap]
  refine List.filterMap_congr fun p hp => ?_
  cases p with
  | nil => rfl
  | cons level above =>
    have hdefinition := position_mem_definitions_iff hp
    have hmention : mentionedOption? (definitions nodes).reverse .b level.children =
        if trimmedText level.children ∈ definedOptions nodes then some (trimmedText level.children)
        else none := by
      rw [mentionedOption?, if_pos rfl, Option.filter_some]
      simp only [any_reverse_definitions]
    rw [boldAt?, mentionAnchor]
    by_cases htag : level.tag = .b
    · rw [if_pos htag, htag, hmention]
      cases hdefined : (definedAt? (level :: above)).isSome <;> cases sheltered above <;>
        by_cases hoption : trimmedText level.children ∈ definedOptions nodes <;>
        simp [Option.filter_some, hdefinition, hdefined, hoption, textAt]
    · rw [if_neg htag, mentionedOption?, if_neg htag]
      split_ifs <;> rfl

/-- **The order does not matter**: the links that are added one at a time are those of the document
with its option links. -/
theorem linkedStepwise_eq (nodes : List Node) : linkedStepwise nodes = linkedNodes nodes := by
  rw [linkedStepwise, mentionWraps_eq, definedStepwise_eq, wrapAll_wrapsOf]
  · exact anchorAmong_congr fun p _ => mentionAnchor_or_definitionAnchor _ p
  · intro p _ hmention
    rw [← Option.not_isSome_iff_eq_none, isSome_definitionAnchor]
    intro hdefined
    cases p with
    | nil => exact absurd hdefined Bool.false_ne_true
    | cons level above =>
      rw [mentionAnchor, hdefined] at hmention
      exact absurd hmention Bool.false_ne_true

/-- **Option links only wrap.** The anchors are added one at a time, to a document that changes, and
without them the document is what it was. It has the same nodes in the same order, and each of these
has kept its text. -/
theorem linkedStepwise_only_wraps (nodes : List Node) :
    Linked.results (linkedStepwise nodes) = linkOptions nodes ∧
      Linked.originals (linkedStepwise nodes) = nodes ∧
      (Linked.nodesAmong (linkedStepwise nodes)).map Linked.original = nodesAmong nodes ∧
      ∀ node ∈ Linked.nodesAmong (linkedStepwise nodes),
        Node.textContents [node.result] = Node.textContents [node.original] := by
  have hresults : Linked.results (linkedStepwise nodes) = linkOptions nodes := by
    rw [linkedStepwise_eq, results_linkedNodes]
  have horiginals : Linked.originals (linkedStepwise nodes) = nodes := by
    rw [linkedStepwise, Linked.originals_wrapAll, definedStepwise, Linked.originals_wrapAll,
      unlinked, originals_anchorAmong]
  refine ⟨hresults, horiginals, ?_, fun node _ => Linked.textsBefore_results [node] []⟩
  rw [Linked.map_original_nodesAmong, horiginals]

end Manpage.Link
