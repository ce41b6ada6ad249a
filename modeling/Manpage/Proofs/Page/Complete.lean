import Manpage.Proofs.Html.Construction
import Manpage.Proofs.Markup.StartTags
import Manpage.Proofs.Page.Targets

/-!
# Every page is one complete document

Whatever a page says, its HTML is one document, whose root has an empty head and one body. A page
can leave elements open, close what is not open and even leave a start tag unfinished; still all
that starts after the tags of the root and the body is what content is written with, so nothing is
read outside of the body.

## Main definitions

* `Html.whole`: the tree with the given nodes in its body
* `Page.contentTags`: the tags that content is written with
* `Page.IsComplete`: the text of one complete document

## Main results

* `Page.tokens_rawHtml_eq`: the tokens of a page
* `Page.isComplete_html`: the HTML of every page is one complete document
-/

namespace Manpage

open Markup

namespace Html

/-- The tree whose body holds the given nodes. -/
def whole (nodes : List Node) : Node :=
  .element .html [] [.element .head [] [], .element .body [] nodes]

/-- Whether a node is an element with this tag. -/
def Node.hasTag (tag : Tag) : Node → Bool
  | .text _ => false
  | .element t _ _ => t == tag

/-! ## Printing -/

mutual

/-- What is printed behind a node comes last. -/
theorem Node.suffix_printBefore (rest : List Char) :
    ∀ node : Node, rest <:+ Node.printBefore rest node
  | .text _ => List.suffix_append _ _
  | .element tag attributes children => by
    rw [Node.printBefore]
    split_ifs
    · exact List.suffix_append _ _
    · have hchildren := Node.suffix_printAllBefore (printEnd tag ++ rest) children
      exact (List.suffix_append (printEnd tag) rest).trans
        (hchildren.trans (List.suffix_append _ _))

/-- What is printed behind nodes comes last. -/
theorem Node.suffix_printAllBefore (rest : List Char) :
    ∀ nodes : List Node, rest <:+ Node.printAllBefore rest nodes
  | [] => List.suffix_rfl
  | node :: nodes =>
    (Node.suffix_printAllBefore rest nodes).trans (Node.suffix_printBefore _ node)

end

theorem print_whole (nodes : List Node) :
    (whole nodes).print = "<html><head></head><body>".toList ++
      Node.printAllBefore "</body></html>".toList nodes := rfl

end Html

open Html (Attribute Tag Token Node Document Builder Kind elementsIn elementsAmong construct whole)

namespace Page

/-! ## The tokens of a page -/

/-- The tags that content is written with. -/
def contentTags : List Tag := [.div, .h1, .h2, .p, .a, .b, .i, .dl, .dt, .dd, .br, .pre]

theorem isInBody_of_mem_contentTags {tag : Tag} (h : tag ∈ contentTags) : Builder.IsInBody tag :=
  ⟨ne_of_mem_of_not_mem h (by decide), ne_of_mem_of_not_mem h (by decide),
    ne_of_mem_of_not_mem h (by decide)⟩

theorem mem_contentTags_of_mem_content {newlines : Bool} {content : List Fragment}
    (h : Content newlines content) :
    ∀ f ∈ content, ∀ tag, f.startTag? = some tag → tag ∈ contentTags := by
  refine h.forall_mem (fun f hf tag htag => ?_) ?_
  · cases f with
    | opening e =>
      obtain rfl := Option.some.inj htag
      cases e with
      | html | body => exact absurd hf Bool.false_ne_true
      | _ => decide
    | lineBreak | pageStart | sectionStart | anchorStart =>
      obtain rfl := Option.some.inj htag
      decide
    | _ => cases htag
  · simp [Fragment.startTag?, contentTags]

/-- **The tokens of a page**: the start tags of the root and the body, and tokens that start nothing
but what content is written with. -/
theorem tokens_rawHtml_eq (text : List Char) :
    ∃ ts, Document.tokens (rawHtml text) = .startTag .html [] :: .startTag .body [] :: ts ∧
      ∀ tag attributes, .startTag tag attributes ∈ ts → tag ∈ contentTags := by
  obtain ⟨content, hcontent, hmarkup⟩ := exists_content_markup (logicalLines text)
  let rest := content ++ [.closing .body, .closing .html]
  have hrest : markup (logicalLines text) = .opening .html :: .opening .body :: rest := by
    rw [hmarkup, start, List.append_assoc]
    rfl
  have hclean : ∀ f ∈ rest, f.isClean (startsPreformatted (logicalLines text)) := by
    intro f hf
    refine isClean_of_mem_markup f ?_
    rw [hrest]
    exact List.mem_cons_of_mem _ (List.mem_cons_of_mem _ hf)
  refine ⟨Token.scan (render rest), ?_, fun tag attributes hmem => ?_⟩
  · rw [tokens_rawHtml, hrest, render_cons, render_cons, scan_opening, scan_opening]
    rfl
  · obtain ⟨f, hf, htag⟩ := exists_startTag?_of_mem_scan hclean hmem
    rcases List.mem_append.mp hf with hf | hf
    · exact mem_contentTags_of_mem_content hcontent f hf tag htag
    · simp only [List.mem_cons, List.not_mem_nil, or_false] at hf
      rcases hf with rfl | rfl <;> cases htag

/-! ## The tree of a page -/

/-- The text of one complete document with the given nodes in its body. -/
structure IsComplete (html : List Char) (nodes : List Node) : Prop where
  printed : html = (whole nodes).print
  start : "<html><head></head><body>".toList <+: html
  finish : "</body></html>".toList <:+ html
  /-- The elements in the body are of the kinds that content is written with. -/
  content_elements : ∀ tag attributes children,
    .element tag attributes children ∈ elementsAmong nodes → tag ∈ contentTags
  /-- There is no root but the one of the tree. -/
  one_root : (elementsIn (whole nodes)).filter (·.hasTag .html) = [whole nodes]
  /-- There is one head, which is empty. -/
  one_head : (elementsIn (whole nodes)).filter (·.hasTag .head) = [.element .head [] []]
  /-- There is one body. -/
  one_body : (elementsIn (whole nodes)).filter (·.hasTag .body) = [.element .body [] nodes]

/-- A document whose body holds only what content is written with is complete. -/
theorem isComplete_print {nodes : List Node}
    (h : ∀ tag attributes children, .element tag attributes children ∈ elementsAmong nodes →
      tag ∈ contentTags) : IsComplete (whole nodes).print nodes := by
  have hnone : ∀ tag, tag ∉ contentTags →
      (elementsAmong nodes).filter (·.hasTag tag) = [] := by
    intro tag htag
    refine List.filter_eq_nil_iff.mpr fun x hx hmem => ?_
    cases x with
    | text content => cases hmem
    | element t attributes children =>
      obtain rfl := beq_iff_eq.mp hmem
      exact htag (h _ _ _ hx)
  have helements : elementsIn (whole nodes) =
      [whole nodes, .element .head [] [], .element .body [] nodes] ++ elementsAmong nodes := by
    simp [whole, elementsIn, elementsAmong]
  have hfilter : ∀ tag, tag ∉ contentTags →
      (elementsIn (whole nodes)).filter (·.hasTag tag) =
        [whole nodes, .element .head [] [], .element .body [] nodes].filter (·.hasTag tag) := by
    intro tag htag
    rw [helements, List.filter_append, hnone tag htag, List.append_nil]
  refine ⟨rfl, ?_, ?_, h, hfilter .html (by decide), hfilter .head (by decide),
    hfilter .body (by decide)⟩
  · rw [Html.print_whole]
    exact List.prefix_append _ _
  · rw [Html.print_whole]
    exact (Node.suffix_printAllBefore _ nodes).trans (List.suffix_append _ _)

/-- **Every page is one complete document**: the tree that is constructed for its HTML has an empty
head and one body, and the HTML with option links is the text of this tree with its option links. -/
theorem isComplete_html (text : List Char) :
    ∃ nodes, (construct (Document.tokens (rawHtml text))).root = whole nodes ∧
      IsComplete (html text) (Link.linkOptions nodes) := by
  obtain ⟨ts, htokens, hstarts⟩ := tokens_rawHtml_eq text
  let allowed : Kind → Prop := fun k => k.1 ∈ contentTags
  have hallows : ∀ t ∈ ts, Builder.Allows allowed t := by
    intro t ht
    cases t with
    | startTag tag attributes =>
      have htag := hstarts tag attributes ht
      exact ⟨isInBody_of_mem_contentTags htag, htag⟩
    | _ => trivial
  obtain ⟨hgrows, -⟩ := Builder.grows_foldl_token (within_empty allowed fun _ => False)
    (by simp [allowed, contentTags]) (by simp [allowed, contentTags]) hallows
  obtain ⟨hkinds, -, -⟩ := Builder.elements_complete hgrows.within
  have hparse : Document.parse (rawHtml text) =
      Document.ofBuilder (ts.foldl Builder.token {}) := by
    rw [Document.parse, htokens]
    rfl
  refine ⟨(Document.parse (rawHtml text)).body, ?_, ?_⟩
  · rw [htokens, Html.root_construct, hgrows.rootAttributes, hgrows.bodyAttributes, hparse]
    rfl
  · have hroot : (linked (rawHtml text)).root =
        whole (Link.linkOptions (Document.parse (rawHtml text)).body) := by
      have hattributes : (Document.parse (rawHtml text)).rootAttributes = [] ∧
          (Document.parse (rawHtml text)).bodyAttributes = [] := by
        rw [hparse]
        exact ⟨hgrows.rootAttributes, hgrows.bodyAttributes⟩
      simp only [linked, Document.root, hattributes, whole]
    rw [html, linkHtml, Document.print, hroot]
    refine isComplete_print fun tag attributes children hx => ?_
    rcases Link.tag_of_mem_elementsAmong_linkOptions hx with rfl | ⟨inner, hx⟩
    · decide
    · rw [hparse] at hx
      rcases hkinds _ hx with hmade | ⟨k, hk, inner', heq⟩
      · exact hmade.elim
      · obtain ⟨rfl, -, -⟩ := Node.element.inj heq
        exact hk

end Page

end Manpage
