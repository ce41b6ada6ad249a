import Manpage.Proofs.Html.Rebuilding
import Manpage.Proofs.Link.Descriptions
import Manpage.Proofs.Page.Reading
import Manpage.Proofs.Page.Targets
import Manpage.Proofs.Roff.OptionLines

/-!
# Pages that describe options

A page that describes options in hanging paragraphs is read as one section with a list for each
description: the list of a description is closed where the next one starts, and the last one where
the page ends. So the option links of the page are those of its descriptions, and the page that is
printed is read as the document with these links.

## Main definitions

* `Page.optionDocument`: the document of a page that describes options
* `Page.HaveRead`: what has been read between two descriptions

## Main results

* `Page.exists_descriptions`: how a page that describes options is read
* `Page.linkOptions_optionDocument`: its option links
* `Page.isReadable_linkedDescriptions`: with them, it is read as it is printed
* `Page.optionsAreLinked_html`: options are linked from end to end
-/

namespace Manpage.Page

open Markup
open Html (AreReadable Attribute Tag Token Node Document Builder OpenElement Piece Spine
  textNodes)
open Link (Span Description)

/-! ## The lines of a page -/

theorem getLast?_boldSource (option : List Char) : (boldSource option).getLast? = some 'R' := by
  have happend : boldSource option = ('\\' :: 'f' :: 'B' :: (option ++ ['\\', 'f'])) ++ ['R'] := by
    simp [boldSource]
  rw [happend, List.getLast?_concat]

theorem getLast?_source (piece : TextPiece) : piece.source.getLast? ≠ some '\\' := by
  cases piece with
  | letter c hc => simpa [TextPiece.source] using ne_of_isLetter hc '\\' (by simp)
  | space => decide
  | bold option _ =>
    rw [TextPiece.source, getLast?_boldSource]
    decide

/-- No line of a page that describes options goes on in the next one. -/
theorem getLast?_optionLines (entries : List OptionEntry) :
    ∀ line ∈ optionLines entries, line.getLast? ≠ some '\\' := by
  have htext : ∀ line : List TextPiece, (line.flatMap TextPiece.source).getLast? ≠ some '\\' := by
    intro line
    induction line with
    | nil => simp
    | cons piece line ih =>
      rw [List.flatMap_cons, List.getLast?_append]
      cases hlast : (line.flatMap TextPiece.source).getLast? with
      | none => exact getLast?_source piece
      | some c =>
        rw [hlast] at ih
        exact ih
  simp only [optionLines, List.forall_mem_cons, List.mem_flatMap, OptionEntry.lines]
  refine ⟨by decide, ?_⟩
  rintro line ⟨e, -, hline⟩
  simp only [List.mem_cons, List.not_mem_nil, or_false] at hline
  rcases hline with rfl | rfl | rfl
  · decide
  · rw [getLast?_boldSource]
    decide
  · exact htext e.line

/-! ## Reading the descriptions -/

/-- Running text is read as a text with the same options in bold. -/
theorem exists_spans {ps : List Piece}
    (h : ∀ t ∈ ps.filterMap Piece.boldText?, Link.IsOptionText t) (before : List Span) :
    ∃ spans : List Span,
      ps.foldl Piece.addTo (before.map Span.node).reverse = (spans.map Span.node).reverse ∧
      spans.filterMap Span.option? =
        before.filterMap Span.option? ++ ps.filterMap Piece.boldText? := by
  induction ps generalizing before with
  | nil => exact ⟨before, rfl, (List.append_nil _).symm⟩
  | cons p ps ih =>
    rw [List.foldl_cons]
    -- the spans before `ps` are those of the pieces that have been read
    cases p with
    | char c hc =>
      have hone : ∃ mid : List Span,
          Spine.addChar c (before.map Span.node).reverse = (mid.map Span.node).reverse ∧
          mid.filterMap Span.option? = before.filterMap Span.option? := by
        rcases List.eq_nil_or_concat before with rfl | ⟨init, last, rfl⟩
        · exact ⟨[.text (String.singleton c)], rfl, rfl⟩
        · cases last with
          | text content =>
            exact ⟨init ++ [.text (content.push c)], by simp [Span.node, Spine.addChar],
              by simp [List.filterMap_cons, Span.option?]⟩
          | bold option hoption =>
            exact ⟨init ++ [.bold option hoption, .text (String.singleton c)],
              by simp [Span.node, Link.boldNode, Spine.addChar],
              by simp [List.filterMap_cons, Span.option?]⟩
      obtain ⟨mid, hmid, hsame⟩ := hone
      rw [Piece.addTo, hmid, ← hsame]
      exact ih h mid
    | bold text htext =>
      have hoption : Link.IsOptionText text := h text List.mem_cons_self
      have hnext : Piece.addTo (before.map Span.node).reverse (.bold text htext) =
          ((before ++ [Span.bold text hoption]).map Span.node).reverse := by
        simp [Piece.addTo, Span.node, Link.boldNode]
      obtain ⟨spans, hspans, hbold⟩ :=
        ih (fun t ht => h t (List.mem_cons_of_mem _ ht)) (before ++ [.bold text hoption])
      refine ⟨spans, by rw [hnext, hspans], ?_⟩
      rw [hbold, List.filterMap_append, List.append_assoc]
      rfl

/-- The heading of the section of options. -/
def optionHeading : Node :=
  .element .h2 [] [selfLink (wording "OPTIONS")]

/-- The section of options, where `lists` are the descriptions. -/
def optionSection (lists : List Node) : Node :=
  .element .div (sectionKind (wording "OPTIONS")).2 (optionHeading :: lists)

/-- **The document of a page that describes options**: a section with a list for each
description. -/
def optionDocument (ds : List Description) : Document where
  rootAttributes := []
  bodyAttributes := []
  body := [optionSection (ds.map Description.node)]

/-- The section of options while it is open. -/
def openSection (ds : List Description) : OpenElement where
  id := 0
  tag := .div
  attributes := (sectionKind (wording "OPTIONS")).2
  children := (ds.map Description.node).reverse ++ [optionHeading]

/-- The list of a description while it is open. -/
def openList (option : List Char) (n : Nat) : OpenElement where
  id := n
  tag := .dl
  attributes := []
  children := [.element .dt [] [.text " ", Link.boldNode option]]

/-- The text of a description while it is open; `children` are its nodes, the last one first. -/
def openText (children : List Node) (n : Nat) : OpenElement where
  id := n
  tag := .dd
  attributes := []
  children := children

/-- The body while it is read, between two descriptions. -/
def betweenLists (ds : List Description) (n : Nat) : Builder where
  spine := ⟨[], [openSection ds]⟩
  nextId := n

/-- The body while it is read, in the text of a description. -/
def inList (ds : List Description) (option : List Char) (children : List Node) (n₁ n₂ n : Nat) :
    Builder where
  spine := ⟨[], [openText children n₁, openList option n₂, openSection ds]⟩
  nextId := n

/-- The start of the section is read. -/
theorem foldl_token_heading :
    (tokens (Block.sectionFrame (wording "OPTIONS"))).foldl Builder.token {} =
      betweenLists [] 3 := by
  have hname : IsInline false (wording "OPTIONS") := isInline_wording (by decide)
  obtain ⟨hchars, hnull⟩ := tokens_eq_map_char hname (by decide)
  have htokens : tokens (Block.sectionFrame (wording "OPTIONS")) =
      [sectionToken (wording "OPTIONS"), .startTag .h2 []] ++
        (anchorToken (.char '#' :: wording "OPTIONS") ::
          ((textOf (wording "OPTIONS")).map Token.char ++ [.endTag .a])) ++ [.endTag .h2] := by
    rw [← List.append_nil (Block.sectionFrame _), tokens_sectionFrame hname, hchars]
    simp [tokens, tokensFrom]
  rw [htokens, List.foldl_append, List.foldl_append,
    anchorToken, Builder.foldl_token_formatted (Or.inl rfl) hnull]
  rfl

/-- The lines of a description are read, as far as the text goes. -/
theorem exists_foldl_token_entry (ds : List Description) {option : List Char}
    (hoption : '\x00' ∉ option) (ps : List Piece) (n : Nat) :
    ∃ n₁ n₂ next, (entryTokens option ps).foldl Builder.token (betweenLists ds n) =
      inList ds option (ps.foldl Piece.addTo [.text " "]) n₁ n₂ next := by
  have hspace : Html.IsReadable ' ' := by decide
  have htokens : entryTokens option ps =
      [.startTag .dl [], .startTag .dt []] ++
        [Piece.char ' ' hspace, .bold option hoption].flatMap Piece.tokens ++
        [.endTag .dt, .startTag .dd []] ++
        (Piece.char ' ' hspace :: ps).flatMap Piece.tokens := by
    simp [entryTokens, boldTokens, Piece.tokens]
  let openTerm : Builder :=
    { spine := ⟨[], [⟨n + 1, .dt, [], []⟩, ⟨n, .dl, [], []⟩, openSection ds]⟩, nextId := n + 2 }
  have hstart : [.startTag .dl [], .startTag .dt []].foldl Builder.token (betweenLists ds n) =
      openTerm := rfl
  obtain ⟨m, hterm⟩ := Builder.foldl_token_pieces (b := openTerm) rfl rfl rfl
    [Piece.char ' ' hspace, .bold option hoption]
  have hbody : [.endTag .dt, .startTag .dd []].foldl Builder.token
      { openTerm with
        spine := ⟨[], [⟨n + 1, .dt, [], [Piece.char ' ' hspace, .bold option hoption].foldl
          Piece.addTo []⟩, ⟨n, .dl, [], []⟩, openSection ds]⟩
        nextId := m } = inList ds option [] m n (m + 1) := rfl
  obtain ⟨next, htext⟩ := Builder.foldl_token_pieces (b := inList ds option [] m n (m + 1))
    rfl rfl rfl (Piece.char ' ' hspace :: ps)
  refine ⟨m, n, next, ?_⟩
  rw [htokens, List.foldl_append, List.foldl_append, List.foldl_append, hstart, hterm]
  rw [hbody, htext]
  rfl

/-- The end of a description is read. -/
theorem foldl_token_listEnd (ds : List Description) (d : Description) (n₁ n₂ n : Nat) :
    [.endTag .dd, .endTag .dl].foldl Builder.token
        (inList ds d.option (d.spans.map Span.node).reverse n₁ n₂ n) =
      betweenLists (ds ++ [d]) n := by
  have hsection : openSection (ds ++ [d]) =
      { openSection ds with children := d.node :: (openSection ds).children } := by
    simp [openSection]
  have hnode : d.node = .element .dl [] [.element .dt [] [.text " ", Link.boldNode d.option],
      .element .dd [] ((d.spans.map Span.node).reverse).reverse] := by
    rw [List.reverse_reverse]
    rfl
  rw [betweenLists, hsection, hnode]
  rfl

/-! ## Reading the page -/

/-- **What has been read** between two descriptions: the end of the list that is open, if there is
one, leads to the section with the descriptions. -/
structure HaveRead (s : State) (b : Builder) (ds : List Description) : Prop where
  between : s.BetweenEntries
  closed : ∃ n, (tokens (Block.leaveIndent s).2).foldl Builder.token b = betweenLists ds n
  complete : Document.ofBuilder b = optionDocument ds

theorem ofBuilder_betweenLists (ds : List Description) (n : Nat) :
    Document.ofBuilder (betweenLists ds n) = optionDocument ds := by
  have hclose : Document.ofBuilder (betweenLists ds n) =
      ⟨[], [], [.element .div (sectionKind (wording "OPTIONS")).2
        (openSection ds).children.reverse]⟩ := rfl
  have hchildren : (openSection ds).children.reverse =
      optionHeading :: ds.map Description.node := by
    simp [openSection]
  rw [hclose, hchildren]
  rfl

/-- A list that is open at the end is complete. -/
theorem ofBuilder_inList (ds : List Description) (d : Description) (n₁ n₂ n : Nat) :
    Document.ofBuilder (inList ds d.option (d.spans.map Span.node).reverse n₁ n₂ n) =
      optionDocument (ds ++ [d]) := by
  rw [← ofBuilder_betweenLists (ds ++ [d]) n, ← foldl_token_listEnd ds d n₁ n₂ n]
  rfl

/-- **The lines of a description** are read as one more description. -/
theorem HaveRead.entry {s : State} {b : Builder} {ds : List Description} (h : HaveRead s b ds)
    (e : OptionEntry) :
    ∃ d : Description, d.option = e.option ∧ d.mentions = e.mentions ∧ d.Fits [.div] ∧
      HaveRead (s.feedAll e.lines).1 ((tokens (s.feedAll e.lines).2).foldl Builder.token b)
        (ds ++ [d]) := by
  obtain ⟨hbetween, ⟨n, hclosed⟩, -⟩ := h
  obtain ⟨ps, hbold, htokens, hafter, hindent⟩ := State.feedAll_entry hbetween e
  obtain ⟨n₁, n₂, next, hread⟩ :=
    exists_foldl_token_entry ds (notMem_of_isOptionText e.isOption) ps n
  have hoptions : ∀ t ∈ ps.filterMap Piece.boldText?, Link.IsOptionText t := by
    rw [hbold]
    exact fun t ht => OptionEntry.isOption_of_mem_mentions ht
  obtain ⟨spans, hspans, hsaid⟩ := exists_spans hoptions [.text " "]
  let d : Description := ⟨e.option, e.isOption, spans⟩
  have hbuilder : (tokens (s.feedAll e.lines).2).foldl Builder.token b =
      inList ds d.option (d.spans.map Span.node).reverse n₁ n₂ next := by
    rw [htokens, List.foldl_append, hclosed, hread, ← hspans]
    rfl
  have hleave : tokens (Block.leaveIndent (s.feedAll e.lines).1).2 =
      [.endTag .dd, .endTag .dl] := by
    rw [Block.snd_leaveIndent, if_pos hindent]
    rfl
  have hfits : d.Fits [.div] := by
    have hstart : Node.AllFit [.dd, .dl, .div] ([Span.text " "].map Span.node).reverse.reverse :=
      Node.allFit_singleton.mpr Link.fits_space
    have htext := Piece.allFit_foldl_addTo (by decide)
      (fun t ht c hc => (Link.isReadable_of_isOptionText (hoptions t ht) c hc).1) hstart
    rwa [hspans, List.reverse_reverse] at htext
  refine ⟨d, rfl, hsaid.trans hbold, hfits, hafter, ⟨next, ?_⟩, ?_⟩
  · rw [hleave, hbuilder, foldl_token_listEnd]
  · rw [hbuilder, ofBuilder_inList]

/-- A run of descriptions is read description by description. -/
theorem HaveRead.entries {s : State} {b : Builder} {ds : List Description} (h : HaveRead s b ds)
    (entries : List OptionEntry) :
    ∃ more : List Description,
      more.map (fun d => (d.option, d.mentions)) = entries.map (fun e => (e.option, e.mentions)) ∧
      (∀ d ∈ more, d.Fits [.div]) ∧
      HaveRead (s.feedAll (entries.flatMap OptionEntry.lines)).1
        ((tokens (s.feedAll (entries.flatMap OptionEntry.lines)).2).foldl Builder.token b)
        (ds ++ more) := by
  induction entries generalizing s b ds with
  | nil => exact ⟨[], rfl, by simp, by rwa [List.append_nil]⟩
  | cons e entries ih =>
    obtain ⟨d, hoption, hmentions, hfits, hfirst⟩ := h.entry e
    obtain ⟨more, hmore, hmoreFit, hrest⟩ := ih hfirst
    have hcontent := (State.layout_feedAll s e.lines).content
    refine ⟨d :: more, ?_, List.forall_mem_cons.mpr ⟨hfits, hmoreFit⟩, ?_⟩
    · rw [List.map_cons, List.map_cons, hmore, hoption, hmentions]
    · rw [List.flatMap_cons, State.feedAll_append, tokens_append hcontent, List.foldl_append,
        List.append_cons]
      exact hrest

/-- The only section of a page that describes options is the one for them. -/
theorem sections_targets_optionLines (entries : List OptionEntry) :
    sections (optionLines entries) = [wording "OPTIONS"] ∧ targets (optionLines entries) = [] := by
  have hlines : ∀ line ∈ entries.flatMap OptionEntry.lines,
      ∃ e : OptionEntry, line ∈ e.lines := by
    intro line hline
    obtain ⟨e, -, hmem⟩ := List.mem_flatMap.mp hline
    exact ⟨e, hmem⟩
  obtain ⟨hsections, htargets⟩ :=
    State.sections_targets_entries (State.feed {} optionHeader).1 hlines
  have hcalls : callsOn optionHeader = [⟨.sh, "OPTIONS".toList⟩] := rfl
  have hname : Call.sections {} ⟨.sh, "OPTIONS".toList⟩ = [wording "OPTIONS"] := by
    decide +kernel
  rw [sections, targets, calls, optionLines, State.performed, List.flatMap_append,
    List.flatMap_append, hsections, htargets, hcalls]
  exact ⟨by simpa using hname, rfl⟩

/-- The attribute values of a page that describes options hold no quote. -/
theorem notMem_values_optionLines (entries : List OptionEntry) :
    ∀ v ∈ values (markup (optionLines entries)), .char '"' ∉ v := by
  obtain ⟨hsections, htargets⟩ := sections_targets_optionLines entries
  obtain ⟨content, hlayout, hmarkup⟩ := exists_layout_markup (optionLines entries)
  rw [hsections, htargets] at hlayout
  intro v hv
  rw [hmarkup, start, List.append_assoc] at hv
  rcases mem_values_of_layout hlayout hv with hname | ⟨name, hname, rfl⟩ | htarget | hend
  · obtain rfl := List.mem_singleton.mp hname
    decide
  · obtain rfl := List.mem_singleton.mp hname
    decide
  · exact absurd htarget List.not_mem_nil
  · exact absurd hend List.not_mem_nil

/-- **How a page that describes options is read**: as one section with the descriptions. -/
theorem exists_descriptions {text : List Char} {entries : List OptionEntry}
    (h : Text.lines text = optionLines entries) :
    ∃ ds : List Description,
      ds.map (fun d => (d.option, d.mentions)) = entries.map (fun e => (e.option, e.mentions)) ∧
      (∀ d ∈ ds, d.Fits [.div]) ∧ Document.parse (rawHtml text) = optionDocument ds := by
  have hlines : logicalLines text = optionLines entries := by
    rw [logicalLines_eq_lines (h ▸ getLast?_optionLines entries), h]
  have hstart : HaveRead State.afterHeader (betweenLists [] 3) [] :=
    ⟨⟨rfl, rfl, rfl⟩, ⟨3, rfl⟩, ofBuilder_betweenLists [] 3⟩
  obtain ⟨ds, hds, hfits, hread⟩ := hstart.entries entries
  rw [List.nil_append] at hread
  refine ⟨ds, hds, hfits, ?_⟩
  have hframe : Content false (Block.sectionFrame (wording "OPTIONS")) :=
    content_sectionFrame (isInline_wording (by decide))
  have hall : State.feedAll {} (optionLines entries) =
      ((State.afterHeader.feedAll (entries.flatMap OptionEntry.lines)).1,
        Block.sectionFrame (wording "OPTIONS") ++
          (State.afterHeader.feedAll (entries.flatMap OptionEntry.lines)).2) :=
    State.feedAll_cons State.feed_optionHeader _
  have hmarkup : markup (logicalLines text) =
      start ++ (State.feedAll {} (optionLines entries)).2 ++ [.closing .body, .closing .html] := by
    simp [hlines, markup, State.finish, hall, hread.between.inParagraph]
  rw [parse_of_content (State.layout_feedAll {} _).content hmarkup
      (hlines ▸ notMem_values_optionLines entries),
    hall, tokens_append hframe, List.foldl_append, foldl_token_heading, hread.complete]

/-! ## Links -/

section Heading

variable (place : Link.Place) (here : Link.Position)

theorem definitionsIn_optionHeading : Link.definitionsIn place here optionHeading = [] := by
  simp [optionHeading, selfLink, Link.definitionsIn, Link.definitionsAmong,
    Link.definedOption?_of_ne, Link.definitionsAmong_textNodes]

theorem linkIn_optionHeading (defs : List (Link.Position × List Char)) (inAnchor : Bool) :
    Link.linkIn defs place inAnchor here optionHeading = optionHeading := by
  simp [optionHeading, selfLink, Link.linkIn, Link.linkAmong, Link.definedOption?_of_ne,
    Link.mentionedOption?, Link.linkAmong_textNodes]

end Heading

/-- **The option links** of a document that describes options. -/
theorem linkOptions_optionDocument (ds : List Description) :
    Link.linkOptions (optionDocument ds).body =
      [optionSection (Link.linkedDescriptions (ds.map Description.option) ds)] := by
  have hdefinitions : Link.definitions (optionDocument ds).body =
      Link.definitionsFrom [0] 1 ds := by
    simp [optionDocument, optionSection, Link.definitions, Link.definitionsAmong,
      Link.definitionsIn, Link.definedOption?_of_ne, definitionsIn_optionHeading,
      Link.Place.inside, Link.definitionsAmong_descriptions]
  have hdefs : ∀ text, (Link.definitionsFrom [0] 1 ds).reverse.any (·.2 == text) ↔
      text ∈ ds.map Description.option := by
    intro text
    rw [← hdefinitions, Link.any_reverse_definitions, Link.definedOptions, hdefinitions,
      Link.map_snd_definitionsFrom]
  have hlists := Link.linkAmong_descriptions [] ds hdefs
  rw [Link.linkOptions, hdefinitions]
  simp [optionDocument, optionSection, Link.linkAmong, Link.linkIn, Link.definedOption?_of_ne,
    linkIn_optionHeading, Link.mentionedOption?, Link.Place.inside]
  exact hlists

/-- **A document that describes options can be read again with its links.** -/
theorem isReadable_linkedDescriptions {ds : List Description} (h : ∀ d ∈ ds, d.Fits [.div])
    (options : List (List Char)) :
    Document.IsReadable ⟨[], [], [optionSection (Link.linkedDescriptions options ds)]⟩ := by
  have hname : ∀ c ∈ textOf (wording "OPTIONS"), Html.IsReadable c ∧ c ≠ '"' :=
    List.all_iff_forall_prop.mp (by decide)
  have hid : Attribute.IsReadable ⟨"id", valueText (wording "OPTIONS")⟩ :=
    Attribute.isReadable_mk (by simp) (by rwa [toList_valueText])
  have hclass : Attribute.IsReadable ⟨"class", "section"⟩ :=
    Attribute.isReadable_mk (by simp) (List.all_iff_forall_prop.mp (by decide))
  have hhref : Attribute.IsReadable ⟨"href", valueText (.char '#' :: wording "OPTIONS")⟩ :=
    Attribute.isReadable_mk (by simp)
      (by rw [toList_valueText]; exact List.forall_mem_cons.mpr ⟨by decide, hname⟩)
  have hsection : AreReadable (sectionKind (wording "OPTIONS")).2 :=
    ⟨List.forall_mem_cons.mpr ⟨hid, List.forall_mem_singleton.mpr hclass⟩, by simp [sectionKind]⟩
  have hself : AreReadable [⟨"href", valueText (.char '#' :: wording "OPTIONS")⟩] :=
    ⟨List.forall_mem_singleton.mpr hhref, List.nodup_singleton _⟩
  have hlink : (selfLink (wording "OPTIONS")).Fits [.h2, .div] :=
    Node.fits_element (by decide : Tag.a ∉ [Tag.h2, .div]) hself rfl
      (Node.allFit_textNodes fun c hc => (hname c hc).1)
  have hheading : optionHeading.Fits [.div] :=
    Node.fits_element ⟨by decide, by decide⟩ .nil rfl (Node.allFit_singleton.mpr hlink)
  have hlists : Node.AllFit [.div] (Link.linkedDescriptions options ds) :=
    Link.allFit_linkedDescriptions (by decide) (by decide) (by decide) h
  have hbody : (optionSection (Link.linkedDescriptions options ds)).Fits [] :=
    Node.fits_element List.not_mem_nil hsection rfl
      (Node.allFit_element_cons.mpr ⟨hheading, hlists⟩)
  exact ⟨.nil, .nil, Node.allFit_singleton.mpr hbody⟩

/-- The path to the section of options. -/
def sectionPath (lists : List Node) : Link.Path :=
  [⟨0, .div, (sectionKind (wording "OPTIONS")).2, optionHeading :: lists⟩,
    ⟨1, .body, [], [optionSection lists]⟩,
    ⟨0, .html, [], [.element .head [] [], .element .body [] [optionSection lists]]⟩]

/-- Before the descriptions there is neither bold text nor a term, and no target but the section. -/
theorem exists_paths_optionSection (lists : List Node) :
    ∃ before : List Link.Path,
      (∀ p ∈ before, Link.hasTag .b p = false ∧ Link.hasTag .dt p = false) ∧
      (∀ p ∈ before, ∀ option, Link.IsOptionText option →
        Link.valueAt "id" p ≠ some option) ∧
      Link.paths [Document.root ⟨[], [], [optionSection lists]⟩] =
        before ++ Link.pathsAmong (sectionPath lists) 1 lists := by
  let heading : Link.Level := ⟨0, .h2, [], [selfLink (wording "OPTIONS")]⟩
  let link : Link.Level := ⟨0, .a, [⟨"href", valueText (.char '#' :: wording "OPTIONS")⟩],
    textNodes (textOf (wording "OPTIONS"))⟩
  let head : Link.Level := ⟨0, .head, [], []⟩
  let before : List Link.Path :=
    [(sectionPath lists).drop 2, head :: (sectionPath lists).drop 2, (sectionPath lists).drop 1,
      sectionPath lists, heading :: sectionPath lists, link :: heading :: sectionPath lists]
  refine ⟨before, ?_, fun p hp option hoption hid => ?_, ?_⟩
  · simp [before, sectionPath, Link.hasTag, heading, link, head]
  · have hsection : Link.valueAt "id" (sectionPath lists) = some (textOf (wording "OPTIONS")) := by
      rw [← toList_valueText]
      rfl
    have hids : ∀ p ∈ before, Link.valueAt "id" p = none ∨
        Link.valueAt "id" p = Link.valueAt "id" (sectionPath lists) := by
      simp [before, sectionPath, Link.valueAt, Html.attribute?, heading, link, head]
    have hname : ¬ Link.IsOptionText (textOf (wording "OPTIONS")) := by
      rw [← Link.isOption_iff]
      decide
    rcases hids p hp with hnone | hsame
    · exact absurd (hnone.symm.trans hid) (Option.some_ne_none _).symm
    · obtain rfl := Option.some.inj ((hsection.symm.trans hsame.symm).trans hid)
      exact hname hoption
  · simp [before, sectionPath, optionSection, optionHeading, selfLink, Document.root, Link.paths,
      Link.pathsIn, Link.pathsAmong, Link.pathsAmong_textNodes, heading, link, head]

/-- **Options are linked from end to end.** A page that describes options, each in a hanging
paragraph with the option as its term and a line of text, has the options as terms, and says each of
them and what the texts mention in bold. For every option one element has it as its `id`, an anchor
of the option directly in the last term that says it. All other bold text that says one of the
options is alone in an anchor of the option without an `id`, and bold text that says none of them
lies in no anchor. The page that is printed is read as the document with these links. -/
theorem optionsAreLinked_html {text : List Char} {entries : List OptionEntry}
    (h : Text.lines text = optionLines entries) :
    html text = (linked (rawHtml text)).print ∧
      Document.parse (html text) = linked (rawHtml text) ∧
      Link.OptionsAreLinked (entries.map OptionEntry.option)
        (entries.flatMap fun e => e.option :: e.mentions)
        (Link.paths [(linked (rawHtml text)).root]) := by
  obtain ⟨ds, hds, hfits, hparse⟩ := exists_descriptions h
  have hoptions : entries.map OptionEntry.option = ds.map Description.option := by
    have hfirst := congrArg (List.map Prod.fst) hds
    rw [List.map_map, List.map_map] at hfirst
    exact hfirst.symm
  have hsaid : (entries.flatMap fun e => e.option :: e.mentions) =
      ds.flatMap fun d => d.option :: d.mentions := by
    have hboth := congrArg (List.flatMap fun x : List Char × List (List Char) => x.1 :: x.2) hds
    rw [List.flatMap_map, List.flatMap_map] at hboth
    exact hboth.symm
  have hdocument : linked (rawHtml text) =
      ⟨[], [], [optionSection (Link.linkedDescriptions (ds.map Description.option) ds)]⟩ := by
    rw [linked, hparse, ← linkOptions_optionDocument]
    rfl
  obtain ⟨before, htags, hids, hpaths⟩ := exists_paths_optionSection
    (Link.linkedDescriptions (ds.map Description.option) ds)
  refine ⟨rfl, ?_, ?_⟩
  · have hreadable := isReadable_linkedDescriptions hfits (ds.map Description.option)
    rw [← hdocument] at hreadable
    exact Document.parse_print hreadable
  · rw [hoptions, hsaid, hdocument, hpaths]
    exact Link.optionsAreLinked_append htags hids (by simp [sectionPath]) ds 1

/-- A page that describes one option twice and mentions another one that it does not describe. -/
theorem optionsAreLinked_html_repeated :
    ∃ entries : List OptionEntry, entries.length = 2 ∧
      Text.lines ".SH OPTIONS\n.TP\n\\fB-a\\fR\nas \\fB-b\\fR\n.TP\n\\fB-a\\fR\nx".toList =
        optionLines entries ∧
      ((Link.paths [(linked (rawHtml
          ".SH OPTIONS\n.TP\n\\fB-a\\fR\nas \\fB-b\\fR\n.TP\n\\fB-a\\fR\nx".toList)).root]).filter
        (Link.valueAt "id" · == some ['-', 'a'])).length = 1 := by
  have ha : Link.IsOptionText ['-', 'a'] := Link.isOption_iff.mp rfl
  have hb : Link.IsOptionText ['-', 'b'] := Link.isOption_iff.mp rfl
  let entries : List OptionEntry :=
    [⟨['-', 'a'], ha, [.letter 'a' (by decide +kernel), .letter 's' (by decide +kernel), .space,
      .bold ['-', 'b'] hb]⟩, ⟨['-', 'a'], ha, [.letter 'x' (by decide +kernel)]⟩]
  have hlines : Text.lines
      ".SH OPTIONS\n.TP\n\\fB-a\\fR\nas \\fB-b\\fR\n.TP\n\\fB-a\\fR\nx".toList =
        optionLines entries := rfl
  obtain ⟨-, -, hlinked⟩ := optionsAreLinked_html hlines
  obtain ⟨anchor, term, hids, -⟩ := hlinked.target ['-', 'a'] List.mem_cons_self
  exact ⟨entries, rfl, hlines, congrArg List.length hids⟩

end Manpage.Page
