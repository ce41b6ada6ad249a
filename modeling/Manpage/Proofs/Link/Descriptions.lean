import Manpage.Proofs.Html.Printing
import Manpage.Proofs.Link.Lifted
import Manpage.Proofs.Text.Trim

/-!
# Descriptions of options

A description of an option is a definition list with the option as its term and a text that can say
options in bold. In a sequence of descriptions every term is a definition, and the last one of an
option is its target. So the option links of the descriptions are known: the term is put into an
anchor, and so is what the text says in bold if it is one of the options.

## Main definitions

* `Span`, `Description`: the description of an option
* `linkedDescriptions`: descriptions with their option links
* `AreLinked`: what the links of descriptions have to be

## Main results

* `linkAmong_descriptions`: the option links of descriptions
* `allFit_linkedDescriptions`: descriptions with them are read as they are printed
* `areLinked_linkedDescriptions`: they are what they have to be
-/

namespace Manpage.Link

open Html (Node Tag Attribute attribute? textNodes)

/-! ## Descriptions -/

/-- An option in bold. -/
def boldNode (option : List Char) : Node :=
  .element .b [] (textNodes option)

/-- A piece of the text of a description: a text, or an option in bold. -/
inductive Span where
  | text (content : String)
  | bold (option : List Char) (isOption : IsOptionText option)

namespace Span

/-- A piece of text as a node. -/
def node : Span → Node
  | text content => .text content
  | bold option _ => boldNode option

/-- The option that a piece of text says in bold. -/
def option? : Span → Option (List Char)
  | text _ => none
  | bold option _ => some option

/-- A piece of text with its option link, where `options` are those that have definitions. -/
def linked (options : List (List Char)) : Span → Node
  | text content => .text content
  | bold option _ =>
    if option ∈ options then anchor option false (boldNode option) else boldNode option

end Span

/-- **The description of an option** in a document. -/
structure Description where
  option : List Char
  isOption : IsOptionText option
  spans : List Span

namespace Description

/-- The options that the text of a description says in bold. -/
def mentions (d : Description) : List (List Char) :=
  d.spans.filterMap Span.option?

/-- A description as a node: a list with the option as its term. -/
def node (d : Description) : Node :=
  .element .dl [] [.element .dt [] [.text " ", boldNode d.option],
    .element .dd [] (d.spans.map Span.node)]

/-- The term of a description with its option link. -/
def linkedTerm (isTarget : Bool) (d : Description) : Node :=
  .element .dt [] [.text " ", anchor d.option isTarget (boldNode d.option)]

/-- A description with its option links. -/
def linked (options : List (List Char)) (isTarget : Bool) (d : Description) : Node :=
  .element .dl [] [d.linkedTerm isTarget, .element .dd [] (d.spans.map (Span.linked options))]

end Description

/-- **Descriptions with their option links.** The target of an option is its last description. -/
def linkedDescriptions (options : List (List Char)) : List Description → List Node
  | [] => []
  | d :: ds =>
    d.linked options (d.option ∉ ds.map Description.option) :: linkedDescriptions options ds

/-- The definitions in descriptions from a given index on, in document order. -/
def definitionsFrom (parent : Position) (index : Nat) :
    List Description → List (Position × List Char)
  | [] => []
  | d :: ds => (1 :: 0 :: index :: parent, d.option) :: definitionsFrom parent (index + 1) ds

section Linking

variable {options : List (List Char)} {option : List Char}
  {defs : List (Position × List Char)} {parent : Position} {index : Nat}

theorem trim_of_isOptionText (h : IsOptionText option) : Text.trim option = option :=
  Text.trim_of_forall fun c hc => isBlank_of_isOptionChar (isOptionChar_of_mem h c hc)

theorem trimmedText_textNodes (h : IsOptionText option) :
    trimmedText (textNodes option) = option := by
  rw [trimmedText, Html.textContents_textNodes, trim_of_isOptionText h]

theorem definitionsAmong_textNodes (place : Place) (text : List Char) :
    definitionsAmong place parent index (textNodes text) = [] := by
  unfold textNodes
  split_ifs <;> rfl

theorem linkAmong_textNodes (place : Place) (inAnchor : Bool) (text : List Char) :
    linkAmong defs place inAnchor parent index (textNodes text) = textNodes text := by
  unfold textNodes
  split_ifs <;> rfl

/-! ### Definitions -/

theorem definitionsAmong_spans (spans : List Span) (index : Nat) :
    definitionsAmong .elsewhere parent index (spans.map Span.node) = [] := by
  induction spans generalizing index with
  | nil => rfl
  | cons span spans ih =>
    rw [List.map_cons, definitionsAmong, ih, List.append_nil]
    cases span with
    | text content => rfl
    | bold option _ => exact definitionsAmong_textNodes _ _

/-- An option in bold is a definition in a term. -/
theorem definedOption?_inTerm (h : IsOptionText option) :
    definedOption? .inTerm .b (textNodes option) = some option := by
  rw [definedOption?, if_pos ⟨rfl, rfl⟩, trimmedText_textNodes h, Option.filter_eq_some_iff]
  exact ⟨rfl, isOption_iff.mpr h⟩

theorem definedOption?_of_ne {place : Place} {tag : Tag} {children : List Node}
    (h : place ≠ .inTerm ∨ tag ≠ .b) : definedOption? place tag children = none :=
  if_neg fun ⟨hplace, htag⟩ => h.elim (absurd hplace) (absurd htag)

/-- The definition in a description is its term. -/
theorem definitionsIn_node (d : Description) :
    definitionsIn .elsewhere (index :: parent) d.node =
      [(1 :: 0 :: index :: parent, d.option)] := by
  simp [Description.node, boldNode, definitionsIn, definitionsAmong, Place.inside,
    definitionsAmong_spans, definitionsAmong_textNodes, definedOption?_inTerm d.isOption,
    definedOption?_of_ne]

/-- **The definitions in descriptions** are their terms. -/
theorem definitionsAmong_descriptions (ds : List Description) (index : Nat) :
    definitionsAmong .elsewhere parent index (ds.map Description.node) =
      definitionsFrom parent index ds := by
  induction ds generalizing index with
  | nil => rfl
  | cons d ds ih =>
    rw [List.map_cons, definitionsAmong, definitionsIn_node, ih, definitionsFrom,
      List.singleton_append]

theorem map_snd_definitionsFrom (parent : Position) (ds : List Description) (index : Nat) :
    (definitionsFrom parent index ds).map (·.2) = ds.map Description.option := by
  induction ds generalizing index with
  | nil => rfl
  | cons d ds ih => rw [definitionsFrom, List.map_cons, List.map_cons, ih]

/-- Definitions from an index on do not stand before it. -/
theorem ne_of_mem_definitionsFrom {ds : List Description} {later : Nat} (hlater : index < later)
    {x : Position × List Char} (hx : x ∈ definitionsFrom parent later ds) :
    x.1 ≠ 1 :: 0 :: index :: parent := by
  induction ds generalizing later with
  | nil => exact absurd hx List.not_mem_nil
  | cons d ds ih =>
    rcases List.mem_cons.mp hx with rfl | hx
    · simp only [ne_eq, List.cons.injEq, true_and, and_true]
      omega
    · exact ih (by omega) hx

/-- **A definition is the target** exactly if no later one has its option. -/
theorem target?_definitionsFrom (earlier : List (Position × List Char)) (d : Description)
    (ds : List Description) :
    (target? (earlier ++ definitionsFrom parent index (d :: ds)).reverse d.option ==
        some (1 :: 0 :: index :: parent)) =
      decide (d.option ∉ ds.map Description.option) := by
  have hlist : (earlier ++ definitionsFrom parent index (d :: ds)).reverse =
      (definitionsFrom parent (index + 1) ds).reverse ++
        (1 :: 0 :: index :: parent, d.option) :: earlier.reverse := by
    simp [definitionsFrom]
  rw [Bool.eq_iff_iff, beq_iff_eq, decide_eq_true_eq, hlist, target?, List.find?_append]
  cases hfind : (definitionsFrom parent (index + 1) ds).reverse.find? (·.2 == d.option) with
  | none =>
    refine iff_of_true (by simp) fun hmem => ?_
    rw [← map_snd_definitionsFrom parent ds (index + 1)] at hmem
    obtain ⟨x, hx, hoption⟩ := List.mem_map.mp hmem
    exact List.find?_eq_none.mp hfind x (List.mem_reverse.mpr hx) (beq_iff_eq.mpr hoption)
  | some x =>
    have hx : x ∈ definitionsFrom parent (index + 1) ds :=
      List.mem_reverse.mp (List.mem_of_find?_eq_some hfind)
    have hoption : x.2 = d.option := by simpa using List.find?_some hfind
    refine iff_of_false (fun htarget => ?_) fun hnot => hnot ?_
    · exact ne_of_mem_definitionsFrom (Nat.lt_succ_self index) hx (Option.some.inj htarget)
    · rw [← hoption, ← map_snd_definitionsFrom parent ds (index + 1)]
      exact List.mem_map_of_mem hx

/-! ### Links -/

theorem mentionedOption?_textNodes (hdefs : ∀ text, defs.any (·.2 == text) ↔ text ∈ options)
    (h : IsOptionText option) :
    mentionedOption? defs .b (textNodes option) =
      if option ∈ options then some option else none := by
  rw [mentionedOption?, if_pos rfl, trimmedText_textNodes h]
  split_ifs with hmem
  · rw [Option.filter_eq_some_iff]
    exact ⟨rfl, (hdefs option).mpr hmem⟩
  · rw [Option.filter_eq_none_iff]
    intro text htext
    obtain rfl := Option.some.inj htext
    rwa [hdefs]

theorem linkAmong_spans (hdefs : ∀ text, defs.any (·.2 == text) ↔ text ∈ options)
    (spans : List Span) (index : Nat) :
    linkAmong defs .elsewhere false parent index (spans.map Span.node) =
      spans.map (Span.linked options) := by
  induction spans generalizing index with
  | nil => rfl
  | cons span spans ih =>
    rw [List.map_cons, linkAmong, ih, List.map_cons]
    congr 1
    cases span with
    | text content => rfl
    | bold option h =>
      have hnone : definedOption? .elsewhere .b (textNodes option) = none :=
        definedOption?_of_ne (Or.inl Place.noConfusion)
      simp only [Span.node, boldNode, linkIn, hnone, mentionedOption?_textNodes hdefs h,
        linkAmong_textNodes, Span.linked]
      by_cases hmem : option ∈ options
      · rw [if_pos hmem, if_pos hmem]
        rfl
      · rw [if_neg hmem, if_neg hmem]

/-- A description gets an anchor around its term. -/
theorem linkIn_node (hdefs : ∀ text, defs.any (·.2 == text) ↔ text ∈ options) (d : Description) :
    linkIn defs .elsewhere false (index :: parent) d.node =
      d.linked options (target? defs d.option == some (1 :: 0 :: index :: parent)) := by
  have hmention : ∀ tag children, tag ≠ .b → mentionedOption? defs tag children = none :=
    fun tag children htag => if_neg htag
  simp [Description.node, Description.linked, Description.linkedTerm, boldNode, linkIn, linkAmong,
    Place.inside, definedOption?_inTerm d.isOption, definedOption?_of_ne, hmention,
    linkAmong_textNodes]
  exact linkAmong_spans hdefs d.spans 0

/-- **The option links of descriptions**, where `earlier` are the definitions before them. -/
theorem linkAmong_descriptions (earlier : List (Position × List Char)) (ds : List Description)
    (hdefs : ∀ text, (earlier ++ definitionsFrom parent index ds).reverse.any (·.2 == text) ↔
      text ∈ options) :
    linkAmong (earlier ++ definitionsFrom parent index ds).reverse .elsewhere false parent index
        (ds.map Description.node) =
      linkedDescriptions options ds := by
  induction ds generalizing index earlier with
  | nil => rfl
  | cons d ds ih =>
    have hlist : earlier ++ definitionsFrom parent index (d :: ds) =
        (earlier ++ [(1 :: 0 :: index :: parent, d.option)]) ++
          definitionsFrom parent (index + 1) ds := by
      simp [definitionsFrom]
    rw [List.map_cons, linkAmong, linkIn_node hdefs, target?_definitionsFrom, linkedDescriptions]
    rw [hlist] at hdefs ⊢
    rw [ih _ hdefs]

end Linking

/-! ## Reading them again -/

section Printing

open Html (IsReadable AreReadable)

variable {outer : List Tag} {options : List (List Char)} {option : List Char}

/-- Options are read as they are printed, in texts and in attributes. -/
theorem isReadable_of_isOptionText (h : IsOptionText option) :
    ∀ c ∈ option, IsReadable c ∧ c ≠ '"' := by
  intro c hc
  have hchar := isOptionChar_of_mem h c hc
  exact ⟨⟨ne_of_isOptionChar hchar (by decide), ne_of_isOptionChar hchar (by decide)⟩,
    ne_of_isOptionChar hchar (by decide)⟩

theorem areReadable_anchorAttributes (h : IsOptionText option) (isTarget : Bool) :
    AreReadable (anchorAttributes option isTarget) := by
  have hvalue := isReadable_of_isOptionText h
  have hlink : ∀ c ∈ '#' :: option, IsReadable c ∧ c ≠ '"' :=
    List.forall_mem_cons.mpr ⟨by decide, hvalue⟩
  have hhref : Attribute.IsReadable ⟨"href", String.ofList ('#' :: option)⟩ :=
    Attribute.isReadable_mk (by simp) (by rwa [String.toList_ofList])
  have hclass : Attribute.IsReadable ⟨"class", anchorClass⟩ :=
    Attribute.isReadable_mk (by simp) (List.all_iff_forall_prop.mp (by decide))
  have hid : Attribute.IsReadable ⟨"id", String.ofList option⟩ :=
    Attribute.isReadable_mk (by simp) (by rwa [String.toList_ofList])
  have hnames : (anchorAttributes option isTarget).map Attribute.name =
      if isTarget then ["href", "class", "id"] else ["href", "class"] := by
    cases isTarget <;> rfl
  refine ⟨fun a ha => ?_, ?_⟩
  · cases isTarget with
    | false =>
      rcases List.mem_pair.mp ha with rfl | rfl
      · exact hhref
      · exact hclass
    | true =>
      rcases List.mem_cons.mp ha with rfl | ha
      · exact hhref
      · rcases List.mem_pair.mp ha with rfl | rfl
        · exact hclass
        · exact hid
  · rw [hnames]
    split_ifs <;> decide

theorem fits_space : Node.Fits outer (.text " ") :=
  ⟨by decide, List.all_iff_forall_prop.mp (by decide)⟩

theorem fits_boldNode (h : IsOptionText option) (hbold : .b ∉ outer) :
    (boldNode option).Fits outer :=
  Node.fits_element hbold .nil rfl
    (Node.allFit_textNodes fun c hc => (isReadable_of_isOptionText h c hc).1)

theorem fits_anchor (h : IsOptionText option) (isTarget : Bool) (hanchor : .a ∉ outer)
    (hbold : .b ∉ outer) : (anchor option isTarget (boldNode option)).Fits outer :=
  Node.fits_element hanchor (areReadable_anchorAttributes h isTarget) rfl
    (Node.allFit_singleton.mpr (fits_boldNode h (by simpa using hbold)))

/-- A text that can be read again can be so with its links. -/
theorem allFit_linkedSpans (hanchor : .a ∉ outer) (hbold : .b ∉ outer) {spans : List Span}
    (h : Node.AllFit outer (spans.map Span.node)) :
    Node.AllFit outer (spans.map (Span.linked options)) := by
  have hkind : ∀ span : Span, (span.linked options).IsText ↔ span.node.IsText := by
    intro span
    cases span with
    | text content => exact Iff.rfl
    | bold option _ =>
      rw [Span.linked]
      split_ifs <;> exact Iff.rfl
  induction spans with
  | nil => trivial
  | cons span spans ih =>
    obtain ⟨hspan, hapart, hspans⟩ := h
    refine ⟨?_, ?_, ih hspans⟩
    · cases span with
      | text content => exact hspan
      | bold option hoption =>
        rw [Span.linked]
        split_ifs
        · exact fits_anchor hoption false hanchor hbold
        · exact fits_boldNode hoption hbold
    · cases spans with
      | nil => exact Node.isApart_nil _
      | cons next spans => simpa [Node.IsApart, hkind] using hapart

/-- Whether the text of a description is one that reading can give, where `outer` are the elements
around the description. -/
def Description.Fits (outer : List Tag) (d : Description) : Prop :=
  Node.AllFit (.dd :: .dl :: outer) (d.spans.map Span.node)

/-- **Descriptions with their links** can be read again where descriptions can. -/
theorem allFit_linkedDescriptions (hparagraph : .p ∉ outer) (hanchor : .a ∉ outer)
    (hbold : .b ∉ outer) {ds : List Description} (h : ∀ d ∈ ds, d.Fits outer) :
    Node.AllFit outer (linkedDescriptions options ds) := by
  induction ds with
  | nil => trivial
  | cons d ds ih =>
    obtain ⟨hd, hds⟩ := List.forall_mem_cons.mp h
    have hlink : ∀ isTarget, Node.Fits (.dt :: .dl :: outer)
        (anchor d.option isTarget (boldNode d.option)) :=
      fun isTarget => fits_anchor d.isOption isTarget (by simp [hanchor]) (by simp [hbold])
    have hterm : ∀ isTarget, Node.Fits (.dl :: outer) (d.linkedTerm isTarget) :=
      fun isTarget => Node.fits_element ⟨by simp [hparagraph], rfl⟩ .nil rfl
        ⟨fits_space, by simp [Node.IsApart, Node.IsText, anchor],
          Node.allFit_singleton.mpr (hlink isTarget)⟩
    have htext : Node.AllFit (.dd :: .dl :: outer) (d.spans.map (Span.linked options)) :=
      allFit_linkedSpans (by simp [hanchor]) (by simp [hbold]) hd
    have hbody : Node.Fits (.dl :: outer)
        (.element .dd [] (d.spans.map (Span.linked options))) :=
      Node.fits_element ⟨by simp [hparagraph], rfl⟩ .nil rfl htext
    exact Node.allFit_element_cons.mpr ⟨Node.fits_element hparagraph .nil rfl
      (Node.allFit_element_cons.mpr ⟨hterm _, Node.allFit_singleton.mpr hbody⟩), ih hds⟩

end Printing

/-! ## What the links have to be -/

/-- Whether a path leads to an element with the given tag. -/
def hasTag (tag : Tag) : Path → Bool
  | [] => false
  | level :: _ => level.tag = tag

/-- Whether the element that a path leads to is alone in an anchor that links what it says; the
anchor is one of the elements `ps`, and it has no `id` but what it links. -/
def IsWrapped (ps : List Path) (p : Path) : Prop :=
  ∃ level anchor up, p = level :: anchor :: up ∧ anchor :: up ∈ ps ∧
    anchor.tag = .a ∧ anchor.children.length = 1 ∧
    valueAt "href" (anchor :: up) = some ('#' :: textAt p) ∧
    (valueAt "id" (anchor :: up) = none ∨ valueAt "id" (anchor :: up) = some (textAt p))

/-- **What the elements of descriptions have to be**: `options` are those that get links, `terms`
what the descriptions are about, and `said` what they say in bold. -/
structure AreLinked (options terms said : List (List Char)) (ps : List Path) : Prop where
  /-- What is said in bold, in document order. -/
  said : (ps.filter (hasTag .b)).map textAt = said
  /-- The terms of definition lists, in document order. -/
  terms : (ps.filter (hasTag .dt)).map textAt = terms
  /-- An option in bold that gets a link is alone in an anchor. -/
  linked : ∀ p ∈ ps, hasTag .b p → textAt p ∈ options → IsWrapped ps p
  /-- All other bold text lies in no anchor. -/
  unlinked : ∀ p ∈ ps, hasTag .b p → textAt p ∉ options → ∀ q, LiesIn p q → ¬ IsAnchor q

theorem IsWrapped.mono {ps qs : List Path} {p : Path} (h : IsWrapped ps p) (hsub : ps ⊆ qs) :
    IsWrapped qs p := by
  obtain ⟨level, anchor, up, heq, hmem, hanchor⟩ := h
  exact ⟨level, anchor, up, heq, hsub hmem, hanchor⟩

namespace AreLinked

variable {options terms said terms' said' : List (List Char)} {ps qs : List Path}

theorem nil : AreLinked options [] [] [] :=
  ⟨rfl, rfl, fun _ hp => absurd hp List.not_mem_nil, fun _ hp => absurd hp List.not_mem_nil⟩

theorem append (hps : AreLinked options terms said ps) (hqs : AreLinked options terms' said' qs) :
    AreLinked options (terms ++ terms') (said ++ said') (ps ++ qs) where
  said := by rw [List.filter_append, List.map_append, hps.said, hqs.said]
  terms := by rw [List.filter_append, List.map_append, hps.terms, hqs.terms]
  linked p hp hbold hmem := by
    rcases List.mem_append.mp hp with hp | hp
    · exact (hps.linked p hp hbold hmem).mono (List.subset_append_left ps qs)
    · exact (hqs.linked p hp hbold hmem).mono (List.subset_append_right ps qs)
  unlinked p hp := by
    rcases List.mem_append.mp hp with hp | hp
    · exact hps.unlinked p hp
    · exact hqs.unlinked p hp

/-- Elements that are neither bold nor terms. -/
theorem of_forall (h : ∀ p ∈ ps, hasTag .b p = false ∧ hasTag .dt p = false) :
    AreLinked options [] [] ps where
  said := by
    rw [List.filter_eq_nil_iff.mpr fun p hp => by simp [(h p hp).1], List.map_nil]
  terms := by
    rw [List.filter_eq_nil_iff.mpr fun p hp => by simp [(h p hp).2], List.map_nil]
  linked p hp hbold := by
    rw [(h p hp).1] at hbold
    exact absurd hbold Bool.false_ne_true
  unlinked p hp hbold := by
    rw [(h p hp).1] at hbold
    exact absurd hbold Bool.false_ne_true

end AreLinked

/-! ## The elements of descriptions -/

section Elements

variable {options : List (List Char)} {option : List Char} {above : Path} {index : Nat}

theorem pathsAmong_textNodes (text : List Char) :
    pathsAmong above index (textNodes text) = [] := by
  unfold textNodes
  split_ifs <;> rfl

/-- The path to the anchor of an option. -/
def anchorPath (option : List Char) (isTarget : Bool) (above : Path) (index : Nat) : Path :=
  ⟨index, .a, anchorAttributes option isTarget, [boldNode option]⟩ :: above

theorem pathsIn_anchor (isTarget : Bool) :
    pathsIn above index (anchor option isTarget (boldNode option)) =
      [anchorPath option isTarget above index,
        ⟨0, .b, [], textNodes option⟩ :: anchorPath option isTarget above index] := by
  simp [anchor, anchorPath, boldNode, pathsIn, pathsAmong, pathsAmong_textNodes]

theorem pathsIn_boldNode :
    pathsIn above index (boldNode option) = [⟨index, .b, [], textNodes option⟩ :: above] := by
  simp [boldNode, pathsIn, pathsAmong_textNodes]

theorem textAt_bold (h : IsOptionText option) {index : Nat} {attributes : List Attribute} :
    textAt (⟨index, .b, attributes, textNodes option⟩ :: above) = option :=
  trimmedText_textNodes h

/-- The anchor of an option has the `id` of the option if it is the target. -/
theorem valueAt_id_anchorPath (option : List Char) (isTarget : Bool) :
    valueAt "id" (anchorPath option isTarget above index) =
      if isTarget then some option else none := by
  rw [anchorPath, valueAt, id_anchorAttributes]
  cases isTarget with
  | false => rfl
  | true => simp

/-- An option that gets a link is alone in its anchor. -/
theorem areLinked_anchor (h : IsOptionText option) (isTarget : Bool) (hmem : option ∈ options) :
    AreLinked options [] [option]
      (pathsIn above index (anchor option isTarget (boldNode option))) := by
  rw [pathsIn_anchor]
  constructor
  · simp [anchorPath, hasTag, textAt_bold h]
  · simp [anchorPath, hasTag]
  · intro p hp hbold _
    rcases List.mem_pair.mp hp with rfl | rfl
    · exact absurd hbold (by simp [anchorPath, hasTag])
    · refine ⟨_, _, _, rfl, List.mem_cons_self, rfl, rfl, ?_, ?_⟩
      · rw [textAt_bold h, valueAt, href_anchorAttributes, Option.map_some, String.toList_ofList]
      · rw [textAt_bold h]
        change valueAt "id" (anchorPath option isTarget above index) = none ∨
          valueAt "id" (anchorPath option isTarget above index) = some option
        rw [valueAt_id_anchorPath]
        cases isTarget with
        | false => exact Or.inl rfl
        | true => exact Or.inr rfl
  · intro p hp hbold hnot
    rcases List.mem_pair.mp hp with rfl | rfl
    · exact absurd hbold (by simp [anchorPath, hasTag])
    · rw [textAt_bold h] at hnot
      exact absurd hmem hnot

theorem not_isAnchor_of_suffix (habove : ∀ level ∈ above, level.tag ≠ .a) {q : Path}
    (hq : q <:+ above) : ¬ IsAnchor q := by
  cases q with
  | nil => exact id
  | cons level up => exact habove level (hq.subset List.mem_cons_self)

/-- An option that gets no link lies in no anchor. -/
theorem areLinked_boldNode (h : IsOptionText option) (hmem : option ∉ options)
    (habove : ∀ level ∈ above, level.tag ≠ .a) :
    AreLinked options [] [option] (pathsIn above index (boldNode option)) := by
  rw [pathsIn_boldNode]
  constructor
  · simp [hasTag, textAt_bold h]
  · simp [hasTag]
  · intro p hp _ hlinked
    obtain rfl := List.mem_singleton.mp hp
    rw [textAt_bold h] at hlinked
    exact absurd hlinked hmem
  · intro p hp _ _ q hq
    obtain rfl := List.mem_singleton.mp hp
    exact not_isAnchor_of_suffix habove (liesIn_cons_iff.mp hq)

/-- The text of a description. -/
theorem areLinked_spans (habove : ∀ level ∈ above, level.tag ≠ .a) (spans : List Span)
    (index : Nat) :
    AreLinked options [] (spans.filterMap Span.option?)
      (pathsAmong above index (spans.map (Span.linked options))) := by
  induction spans generalizing index with
  | nil => exact .nil
  | cons span spans ih =>
    rw [List.map_cons, pathsAmong]
    cases span with
    | text content => exact ih (index + 1)
    | bold option h =>
      by_cases hmem : option ∈ options
      · rw [Span.linked, if_pos hmem]
        exact (areLinked_anchor h false hmem).append (ih (index + 1))
      · rw [Span.linked, if_neg hmem]
        exact (areLinked_boldNode h hmem habove).append (ih (index + 1))

namespace Description

variable (d : Description) (isTarget : Bool)

/-- The path to the list of a description. -/
def listPath (options : List (List Char)) (above : Path) (index : Nat) : Path :=
  ⟨index, .dl, [], [d.linkedTerm isTarget, .element .dd [] (d.spans.map (Span.linked options))]⟩ ::
    above

/-- The path to the term of a description. -/
def termPath (options : List (List Char)) (above : Path) (index : Nat) : Path :=
  ⟨0, .dt, [], [.text " ", anchor d.option isTarget (boldNode d.option)]⟩ ::
    d.listPath isTarget options above index

/-- The path to the text of a description. -/
def bodyPath (options : List (List Char)) (above : Path) (index : Nat) : Path :=
  ⟨1, .dd, [], d.spans.map (Span.linked options)⟩ :: d.listPath isTarget options above index

/-- The elements of a description: the list, the term with the option, and the text. -/
theorem pathsIn_linked :
    pathsIn above index (d.linked options isTarget) =
      [d.listPath isTarget options above index] ++ [d.termPath isTarget options above index] ++
        pathsIn (d.termPath isTarget options above index) 1
          (anchor d.option isTarget (boldNode d.option)) ++
        [d.bodyPath isTarget options above index] ++
        pathsAmong (d.bodyPath isTarget options above index) 0
          (d.spans.map (Span.linked options)) := by
  simp [linked, linkedTerm, listPath, termPath, bodyPath, pathsIn, pathsAmong]

theorem textAt_termPath : textAt (d.termPath isTarget options above index) = d.option := by
  have htext : Node.textContents [.text " ", anchor d.option isTarget (boldNode d.option)] =
      ' ' :: d.option := by
    have hbold := Html.textContents_textNodes d.option
    rw [Node.textContents] at hbold
    simp [Node.textContents, Node.textsBefore, Node.textBefore, anchor, boldNode, hbold]
  rw [termPath, textAt, trimmedText, htext, Text.trim_cons_of_isBlank rfl,
    trim_of_isOptionText d.isOption]

/-- **The elements of a description** are what they have to be. -/
theorem areLinked_linked (hmem : d.option ∈ options) (habove : ∀ level ∈ above, level.tag ≠ .a) :
    AreLinked options [d.option] (d.option :: d.mentions)
      (pathsIn above index (d.linked options isTarget)) := by
  have hlist : AreLinked options [] [] [d.listPath isTarget options above index] :=
    .of_forall (by simp [listPath, hasTag])
  have hterm : AreLinked options [d.option] [] [d.termPath isTarget options above index] := by
    constructor
    · simp [termPath, hasTag]
    · have htag : hasTag .dt (d.termPath isTarget options above index) := by
        simp [termPath, hasTag]
      rw [List.filter_cons_of_pos htag, List.filter_nil, List.map_singleton, textAt_termPath]
    · intro p hp hbold
      obtain rfl := List.mem_singleton.mp hp
      exact absurd hbold (by simp [termPath, hasTag])
    · intro p hp hbold
      obtain rfl := List.mem_singleton.mp hp
      exact absurd hbold (by simp [termPath, hasTag])
  have hbody : AreLinked options [] [] [d.bodyPath isTarget options above index] :=
    .of_forall (by simp [bodyPath, hasTag])
  have htext : ∀ level ∈ d.bodyPath isTarget options above index, level.tag ≠ .a :=
    List.forall_mem_cons.mpr ⟨Tag.noConfusion, List.forall_mem_cons.mpr ⟨Tag.noConfusion, habove⟩⟩
  rw [pathsIn_linked]
  exact (((hlist.append hterm).append (areLinked_anchor d.isOption isTarget hmem)).append
    hbody).append (areLinked_spans htext d.spans 0)

end Description

/-- **The elements of descriptions** are what they have to be. -/
theorem areLinked_descriptions (habove : ∀ level ∈ above, level.tag ≠ .a)
    {ds : List Description} (hmem : ∀ d ∈ ds, d.option ∈ options) (index : Nat) :
    AreLinked options (ds.map Description.option) (ds.flatMap fun d => d.option :: d.mentions)
      (pathsAmong above index (linkedDescriptions options ds)) := by
  induction ds generalizing index with
  | nil => exact .nil
  | cons d ds ih =>
    obtain ⟨hfirst, hrest⟩ := List.forall_mem_cons.mp hmem
    rw [linkedDescriptions, pathsAmong]
    exact (d.areLinked_linked _ hfirst habove).append (ih hrest (index + 1))

/-! ### Targets -/

/-- An element without attributes is no target. -/
theorem valueAt_nil (name : String) (index : Nat) (tag : Tag) (children : List Node) :
    valueAt name (⟨index, tag, [], children⟩ :: above) = none :=
  rfl

/-- The text of a description has no targets. -/
theorem filter_id_spans (spans : List Span) (index : Nat) :
    (pathsAmong above index (spans.map (Span.linked options))).filter
      (valueAt "id" · == some option) = [] := by
  induction spans generalizing index with
  | nil => rfl
  | cons span spans ih =>
    rw [List.map_cons, pathsAmong, List.filter_append, ih, List.append_nil]
    cases span with
    | text content => rfl
    | bold text _ =>
      rw [Span.linked]
      split_ifs
      · rw [pathsIn_anchor]
        simp [valueAt_id_anchorPath, valueAt_nil]
      · rw [pathsIn_boldNode]
        simp [valueAt_nil]

/-- The only target in a description is the anchor of its term. -/
theorem Description.filter_id_linked (d : Description) (isTarget : Bool) :
    (pathsIn above index (d.linked options isTarget)).filter (valueAt "id" · == some option) =
      if isTarget ∧ d.option = option then
        [anchorPath d.option isTarget (d.termPath isTarget options above index) 1]
      else [] := by
  rw [pathsIn_linked, pathsIn_anchor]
  simp only [List.filter_append, filter_id_spans, listPath, termPath, bodyPath, List.filter_cons,
    List.filter_nil, valueAt_nil, valueAt_id_anchorPath]
  cases isTarget with
  | false => simp
  | true => simp

/-- Its only term is the one with the option. -/
theorem Description.filter_term_linked (d : Description) (isTarget : Bool)
    (hmem : d.option ∈ options) (habove : ∀ level ∈ above, level.tag ≠ .a) :
    (pathsIn above index (d.linked options isTarget)).filter (hasTag .dt) =
      [d.termPath isTarget options above index] := by
  have hlinked : AreLinked options [d.option] (d.option :: d.mentions)
      (pathsIn above index (d.linked options isTarget)) :=
    d.areLinked_linked isTarget hmem habove
  obtain ⟨p, hp, -⟩ := List.map_eq_singleton_iff.mp hlinked.terms
  have hterm : d.termPath isTarget options above index ∈
      (pathsIn above index (d.linked options isTarget)).filter (hasTag .dt) := by
    rw [pathsIn_linked, List.mem_filter]
    exact ⟨by simp, by simp [termPath, hasTag]⟩
  rw [hp, List.mem_singleton] at hterm
  rw [hp, hterm]

/-- **The target of an option** is in the last one of the terms that say it. -/
theorem exists_target (habove : ∀ level ∈ above, level.tag ≠ .a) {ds : List Description}
    (hmem : ∀ d ∈ ds, d.option ∈ options) (option : List Char) (index : Nat) :
    (option ∉ ds.map Description.option →
      (pathsAmong above index (linkedDescriptions options ds)).filter
        (valueAt "id" · == some option) = []) ∧
    (option ∈ ds.map Description.option → ∃ term,
      (pathsAmong above index (linkedDescriptions options ds)).filter
          (valueAt "id" · == some option) = [anchorPath option true term 1] ∧
        (((pathsAmong above index (linkedDescriptions options ds)).filter (hasTag .dt)).filter
          (textAt · == option)).getLast? = some term) := by
  induction ds generalizing index with
  | nil => exact ⟨fun _ => rfl, fun h => absurd h List.not_mem_nil⟩
  | cons d ds ih =>
    obtain ⟨hfirst, hrest⟩ := List.forall_mem_cons.mp hmem
    obtain ⟨hnone, hlast⟩ := ih hrest (index + 1)
    have hterms := (areLinked_descriptions habove hrest (index + 1)).terms
    rw [linkedDescriptions, pathsAmong, List.filter_append, List.filter_append,
      d.filter_id_linked, d.filter_term_linked _ hfirst habove, List.filter_append, List.map_cons,
      List.mem_cons]
    by_cases hlater : option ∈ ds.map Description.option
    · obtain ⟨term, hids, hterm⟩ := hlast hlater
      refine ⟨fun h => absurd (Or.inr hlater) h, fun _ => ⟨term, ?_, ?_⟩⟩
      · rw [hids, if_neg, List.nil_append]
        rintro ⟨htarget, rfl⟩
        exact absurd hlater (of_decide_eq_true htarget)
      · rw [List.getLast?_append, hterm, Option.some_or]
    · rw [hnone hlater, List.append_nil]
      have hnoTerms : ((pathsAmong above (index + 1) (linkedDescriptions options ds)).filter
          (hasTag .dt)).filter (textAt · == option) = [] := by
        refine List.filter_eq_nil_iff.mpr fun p hp hequal => hlater ?_
        rw [← hterms, ← beq_iff_eq.mp hequal]
        exact List.mem_map_of_mem hp
      rw [hnoTerms, List.append_nil]
      constructor
      · intro hnot
        exact if_neg fun h => hnot (Or.inl h.2.symm)
      · rintro (rfl | h)
        · have htarget : decide (d.option ∉ ds.map Description.option) = true :=
            decide_eq_true hlater
          rw [htarget]
          refine ⟨d.termPath true options above index, if_pos ⟨rfl, rfl⟩, ?_⟩
          simp [d.textAt_termPath]
        · exact absurd h hlater

end Elements

/-! ## Documents with descriptions -/

/-- **What the option links of a document have to be**: `options` are those that its terms say, and
`said` is what it says in bold. -/
structure OptionsAreLinked (options said : List (List Char)) (ps : List Path) : Prop
    extends AreLinked options options said ps where
  /-- One element has the `id` of an option. It is an anchor of the option directly in the last term
  that says the option, and no other bold text that says the option is in an anchor with an `id`. -/
  target : ∀ option ∈ options, ∃ anchor term,
    ps.filter (valueAt "id" · == some option) = [anchor :: term] ∧
    ((ps.filter (hasTag .dt)).filter (textAt · == option)).getLast? = some term ∧
    anchor.tag = .a ∧ anchor.children = [boldNode option] ∧
    valueAt "href" (anchor :: term) = some ('#' :: option) ∧
    ∀ p ∈ ps, hasTag .b p → textAt p = option →
      p.tail = anchor :: term ∨ valueAt "id" p.tail = none

/-- **The links of descriptions**, after elements that are neither bold nor terms nor targets of
options. -/
theorem optionsAreLinked_append {before : List Path} {above : Path}
    (htags : ∀ p ∈ before, hasTag .b p = false ∧ hasTag .dt p = false)
    (hids : ∀ p ∈ before, ∀ option, IsOptionText option → valueAt "id" p ≠ some option)
    (habove : ∀ level ∈ above, level.tag ≠ .a) (ds : List Description) (index : Nat) :
    OptionsAreLinked (ds.map Description.option) (ds.flatMap fun d => d.option :: d.mentions)
      (before ++
        pathsAmong above index (linkedDescriptions (ds.map Description.option) ds)) := by
  have hmem : ∀ d ∈ ds, d.option ∈ ds.map Description.option := fun d hd => List.mem_map_of_mem hd
  have hlinked := (AreLinked.of_forall htags).append (areLinked_descriptions habove hmem index)
  refine ⟨hlinked, fun option hoption => ?_⟩
  obtain ⟨term, hids', hterm⟩ := (exists_target habove hmem option index).2 hoption
  have htext : IsOptionText option := by
    obtain ⟨d, -, rfl⟩ := List.mem_map.mp hoption
    exact d.isOption
  have hbefore : before.filter (valueAt "id" · == some option) = [] :=
    List.filter_eq_nil_iff.mpr fun p hp hid => hids p hp option htext (beq_iff_eq.mp hid)
  have hnoTerms : before.filter (hasTag .dt) = [] :=
    List.filter_eq_nil_iff.mpr fun p hp => by simp [(htags p hp).2]
  have htarget : (before ++ pathsAmong above index
      (linkedDescriptions (ds.map Description.option) ds)).filter (valueAt "id" · == some option) =
        [anchorPath option true term 1] := by
    rw [List.filter_append, hbefore, List.nil_append, hids']
  refine ⟨_, term, htarget, ?_, rfl, rfl, ?_, fun p hp hbold hequal => ?_⟩
  · rw [List.filter_append, hnoTerms, List.nil_append, hterm]
  · rw [valueAt, href_anchorAttributes, Option.map_some, String.toList_ofList]
  · obtain ⟨level, anchor, up, rfl, hanchor, -, -, -, hid⟩ :=
      hlinked.linked p hp hbold (hequal ▸ hoption)
    rw [hequal] at hid
    refine hid.symm.imp (fun hid => ?_) id
    exact List.mem_singleton.mp (htarget ▸ List.mem_filter.mpr ⟨hanchor, by simpa using hid⟩)

end Manpage.Link
