import Manpage.Proofs.Html.Growth
import Manpage.Proofs.Link.Targets
import Manpage.Proofs.Markup.Heads
import Manpage.Proofs.Page.Tokens

/-!
# The targets of a page

The targets inside a page are the names of its sections and its options. The links inside it are
the options and the names without the blanks at their ends, except that a section whose name starts
with a blank has no link. So links and targets agree exactly if no name has blanks at its ends or is
empty. All this is so only as long as a name brings no tags of fonts, which are part of the target
but not of the link, and no link to another page has a target with a `#`.

## Main definitions

* `Page.selfLink`: the anchor in the heading of a section

## Main results

* `Page.parse_of_content`, `Page.parse_rawHtml`: how a page is read
* `Page.mem_ids_parse_iff`: the targets of a page without option links
* `Page.mem_links_parse_iff`: the links of a page without option links
* `Page.targets_links_linked`: the targets and the links of a page
-/

namespace Manpage.Page

open Markup
open Html (Attribute Tag Token Node Document Builder Kind attribute? elementsAmong elementsIn
  textNodes)

/-! ## The tokens of a page -/

/-- **How a page is read** whose attribute values hold no quote: its content is read into an empty
body. -/
theorem parse_of_content {text : List Char} {newlines : Bool} {content : List Fragment}
    (hcontent : Content newlines content)
    (hmarkup : markup (logicalLines text) = start ++ content ++ [.closing .body, .closing .html])
    (hquotes : ∀ v ∈ values (markup (logicalLines text)), .char '"' ∉ v) :
    Document.parse (rawHtml text) =
      Document.ofBuilder ((tokens content).foldl Builder.token {}) := by
  have htokens : tokens (markup (logicalLines text)) =
      .startTag .html [] :: .startTag .body [] ::
        (tokens content ++ [Token.endTag .body, Token.endTag .html]) := by
    rw [hmarkup, start, List.append_assoc, List.cons_append, List.cons_append, List.nil_append,
      tokens_of_token? rfl, tokens_of_token? rfl, tokens_append hcontent]
    rfl
  have hread : Builder.beforeBody {} (tokens (markup (logicalLines text))) =
      (tokens content ++ [Token.endTag .body, Token.endTag .html]).foldl Builder.token {} := by
    rw [htokens]
    rfl
  rw [Document.parse, tokens_rawHtml_of_forall hquotes, hread, List.foldl_append]
  rfl

/-- The layout of a page whose attribute values hold no quote is read into an empty body. -/
theorem parse_rawHtml {text : List Char}
    (hquotes : ∀ v ∈ values (markup (logicalLines text)), .char '"' ∉ v) :
    ∃ content, Layout (startsPreformatted (logicalLines text)) (sections (logicalLines text))
        (targets (logicalLines text)) content ∧
      Document.parse (rawHtml text) =
        Document.ofBuilder ((tokens content).foldl Builder.token {}) := by
  obtain ⟨content, hlayout, hmarkup⟩ := exists_layout_markup (logicalLines text)
  exact ⟨content, hlayout, parse_of_content hlayout.content hmarkup hquotes⟩

section Tokens

variable {newlines : Bool} {f : Fragment} {fs name : List Fragment}
  {names targets : List (List Fragment)} {allowed : Kind → Prop}

/-- Whole tags bring neither anchors nor targets. -/
theorem allows_of_isFlow (hallowed : ∀ k : Kind, k.1 ≠ .a → attribute? "id" k.2 = none → allowed k)
    (hf : f.isFlow newlines) : ∃ t, f.token? = some t ∧ Builder.Allows allowed t := by
  cases f with
  | opening e =>
    refine ⟨_, rfl, ?_, hallowed _ ?_ rfl⟩
    · cases e with
      | html | body => exact absurd hf Bool.false_ne_true
      | _ => simp [Builder.IsInBody, Element.tag]
    · cases e <;> simp [Element.tag]
  | pageStart =>
    exact ⟨_, rfl, by simp [Builder.IsInBody], hallowed _ (by simp) (by simp [attribute?])⟩
  | lineBreak => exact ⟨_, rfl, by simp [Builder.IsInBody], hallowed _ (by simp) rfl⟩
  | sectionStart | sectionClass | anchorStart | valueEnd => exact absurd hf Bool.false_ne_true
  | _ => exact ⟨_, rfl, trivial⟩

theorem allows_tokens_of_isInline
    (hallowed : ∀ k : Kind, k.1 ≠ .a → attribute? "id" k.2 = none → allowed k)
    (hname : IsInline newlines name) : ∀ t ∈ tokens name, Builder.Allows allowed t := by
  induction name with
  | nil => simp [tokens, tokensFrom]
  | cons f name ih =>
    obtain ⟨hf, hrest⟩ := isInline_cons.mp hname
    obtain ⟨t, ht, hallows⟩ := allows_of_isFlow hallowed (Fragment.isFlow_of_isInline hf)
    rw [tokens_of_token? ht]
    exact List.forall_mem_cons.mpr ⟨hallows, ih hrest⟩

end Tokens

/-! ## Targets -/

/-- The kind of the division of a section. -/
def sectionKind (name : List Fragment) : Kind :=
  (.div, [⟨"id", valueText name⟩, ⟨"class", "section"⟩])

/-- A page has no targets but those of its sections, and each of these. -/
theorem allows_tokens_of_layout {newlines : Bool} {fs : List Fragment}
    {names targets : List (List Fragment)} {allowed : Kind → Prop}
    (hallowed : ∀ k : Kind, attribute? "id" k.2 = none → allowed k)
    (hlayout : Layout newlines names targets fs)
    (hnames : ∀ name ∈ names, allowed (sectionKind name)) :
    (∀ t ∈ tokens fs, Builder.Allows allowed t) ∧
      ∀ name ∈ names, sectionToken name ∈ tokens fs := by
  induction hlayout with
  | nil => simp [tokens, tokensFrom]
  | flow hf _ ih =>
    obtain ⟨t, ht, hallows⟩ := allows_of_isFlow (fun k _ => hallowed k) hf
    obtain ⟨hall, hmem⟩ := ih hnames
    rw [tokens_of_token? ht]
    exact ⟨List.forall_mem_cons.mpr ⟨hallows, hall⟩,
      fun name hname => List.mem_cons_of_mem _ (hmem name hname)⟩
  | head hname _ ih =>
    obtain ⟨hfirst, hrest⟩ := List.forall_mem_cons.mp hnames
    obtain ⟨hall, hmem⟩ := ih hrest
    rw [tokens_sectionFrame hname]
    constructor
    · simp only [List.forall_mem_cons, List.forall_mem_append]
      refine ⟨⟨by simp [Builder.IsInBody], hfirst⟩,
        ⟨by simp [Builder.IsInBody], hallowed _ rfl⟩,
        ⟨by simp [Builder.IsInBody], hallowed _ (by simp [attribute?])⟩,
        allows_tokens_of_isInline (fun k _ => hallowed k) hname, trivial, trivial, hall⟩
    · refine List.forall_mem_cons.mpr ⟨List.mem_cons_self, fun name hmem' => ?_⟩
      simp [hmem name hmem']
  | link htarget _ ih =>
    obtain ⟨hall, hmem⟩ := ih hnames
    rw [tokens_anchorTag htarget]
    exact ⟨List.forall_mem_cons.mpr ⟨⟨by simp [Builder.IsInBody],
      hallowed _ (by simp [attribute?])⟩, hall⟩,
      fun name hname => List.mem_cons_of_mem _ (hmem name hname)⟩

/-- An empty body has no elements. -/
theorem within_empty (allowed : Kind → Prop) (made : Node → Prop) :
    Builder.Within allowed made {} :=
  ⟨fun _ hk => absurd hk List.not_mem_nil, fun _ hx => absurd hx List.not_mem_nil⟩

/-- **The targets of a page** without option links are the names of its sections. The root and the
body have no attributes. -/
theorem mem_ids_parse_iff {text : List Char}
    (hquotes : ∀ v ∈ values (markup (logicalLines text)), .char '"' ∉ v) :
    (Document.parse (rawHtml text)).rootAttributes = [] ∧
      (Document.parse (rawHtml text)).bodyAttributes = [] ∧
      ∀ id, id ∈ Link.ids (Document.parse (rawHtml text)).body ↔
        ∃ name ∈ sections (logicalLines text), textOf name = id := by
  obtain ⟨content, hlayout, hparse⟩ := parse_rawHtml hquotes
  let allowed : Kind → Prop := fun k =>
    attribute? "id" k.2 = none ∨ ∃ name ∈ sections (logicalLines text), k = sectionKind name
  obtain ⟨hallows, hmem⟩ := allows_tokens_of_layout (fun k hk => (Or.inl hk : allowed k)) hlayout
    fun name hname => Or.inr ⟨name, hname, rfl⟩
  obtain ⟨hgrows, hhas⟩ := Builder.grows_foldl_token (within_empty allowed fun _ => False)
    (Or.inl rfl) (Or.inl rfl) hallows
  obtain ⟨hkinds, -, hpresent⟩ := Builder.elements_complete hgrows.within
  rw [hparse]
  refine ⟨hgrows.rootAttributes, hgrows.bodyAttributes, fun id => ?_⟩
  rw [Link.mem_ids_iff_elements]
  constructor
  · rintro ⟨tag, attributes, children, hx, hvalue⟩
    rcases hkinds _ hx with hmade | ⟨k, hk, children', heq⟩
    · exact hmade.elim
    · obtain ⟨rfl, rfl, -⟩ := Node.element.inj heq
      rcases hk with hnone | ⟨name, hname, rfl⟩
      · rw [hnone] at hvalue
        exact absurd hvalue (Option.some_ne_none _).symm
      · refine ⟨name, hname, ?_⟩
        rw [← toList_valueText]
        exact Option.some.inj hvalue
  · rintro ⟨name, hname, rfl⟩
    obtain ⟨x, hx, children, rfl⟩ := hpresent _ (hhas _ _ (hmem name hname))
    refine ⟨_, _, _, hx, ?_⟩
    rw [← toList_valueText]
    rfl

/-! ## Links -/

/-- **The anchor in the heading of a section** whose name holds no tags. -/
def selfLink (name : List Fragment) : Node :=
  .element .a [⟨"href", valueText (.char '#' :: name)⟩] (textNodes (textOf name))

/-- Reading a layout completes the anchors of its sections. All other anchors are links to other
pages. -/
theorem grows_layout {newlines : Bool} {fs : List Fragment} {names targets : List (List Fragment)}
    {allowed : Kind → Prop} {made : Node → Prop} (hallowed : ∀ k : Kind, k.1 ≠ .a → allowed k)
    (hlayout : Layout newlines names targets fs)
    (hnames : ∀ name ∈ names, made (selfLink name))
    (htags : ∀ name ∈ names, ∀ f ∈ name, f.isTag = false)
    (htargets : ∀ target ∈ targets, allowed (.a, [⟨"href", valueText target⟩]))
    {b : Builder} (hb : b.Within allowed made) :
    Builder.Grows allowed made b ((tokens fs).foldl Builder.token b) ∧
      ∀ name ∈ names, selfLink name ∈ ((tokens fs).foldl Builder.token b).spine.finished := by
  have hp : allowed (.p, []) := hallowed _ (by simp)
  have hbr : allowed (.br, []) := hallowed _ (by simp)
  induction hlayout generalizing b with
  | nil => exact ⟨.refl hb, by simp⟩
  | flow hf _ ih =>
    obtain ⟨t, ht, hallows⟩ := allows_of_isFlow (fun k hk _ => hallowed k hk) hf
    rw [tokens_of_token? ht, List.foldl_cons]
    have hfirst := Builder.grows_token hb hp hbr hallows
    obtain ⟨hrest, hmem⟩ := ih hnames htags htargets hfirst.within
    exact ⟨hfirst.trans hrest, hmem⟩
  | @head name fs _ _ hname _ ih =>
    obtain ⟨hmade, hnames⟩ := List.forall_mem_cons.mp hnames
    obtain ⟨hplain, htags⟩ := List.forall_mem_cons.mp htags
    obtain ⟨hchars, hnull⟩ := tokens_eq_map_char hname hplain
    have htokens : tokens (Block.sectionFrame name ++ fs) =
        [sectionToken name, .startTag .h2 []] ++
          (anchorToken (.char '#' :: name) ::
            ((textOf name).map Token.char ++ [.endTag .a])) ++
          ([.endTag .h2] ++ tokens fs) := by
      rw [tokens_sectionFrame hname, hchars]
      simp
    rw [htokens, List.foldl_append, List.foldl_append, List.foldl_append]
    have hallows : ∀ t ∈ [sectionToken name, .startTag .h2 []], Builder.Allows allowed t := by
      simp only [List.forall_mem_cons]
      exact ⟨⟨by simp [Builder.IsInBody], hallowed _ (by simp)⟩,
        ⟨by simp [Builder.IsInBody], hallowed _ (by simp)⟩, by simp⟩
    have hstart := (Builder.grows_foldl_token hb hp hbr hallows).1
    obtain ⟨hanchor, hself⟩ := Builder.grows_formatted hstart.within (Or.inl rfl) hnull hmade
    have hend := Builder.grows_token hanchor.within hp hbr (t := .endTag .h2) trivial
    obtain ⟨hrest, hmem⟩ := ih hnames htags htargets hend.within
    refine ⟨((hstart.trans hanchor).trans hend).trans hrest, ?_⟩
    exact List.forall_mem_cons.mpr ⟨hrest.kept _ (hend.kept _ hself), hmem⟩
  | link htarget _ ih =>
    obtain ⟨hfirst, htargets⟩ := List.forall_mem_cons.mp htargets
    rw [tokens_anchorTag htarget, List.foldl_cons]
    have hlink := Builder.grows_token hb hp hbr
      (t := anchorToken _) ⟨by simp [Builder.IsInBody], hfirst⟩
    obtain ⟨hrest, hmem⟩ := ih hnames htags htargets hlink.within
    exact ⟨hlink.trans hrest, hmem⟩

/-- **The links of a page** without option links are the names of its sections without the blanks at
their ends, except for names that start with a blank. -/
theorem mem_links_parse_iff {text : List Char}
    (hquotes : ∀ v ∈ values (markup (logicalLines text)), .char '"' ∉ v)
    (htags : ∀ name ∈ sections (logicalLines text), ∀ f ∈ name, f.isTag = false)
    (htargets : ∀ target ∈ targets (logicalLines text), '#' ∉ textOf target) (link : List Char) :
    link ∈ Link.links (Document.parse (rawHtml text)).body ↔
      ∃ name ∈ sections (logicalLines text),
        Text.StartsUnblank (textOf name) ∧ link = Text.trim (textOf name) := by
  obtain ⟨content, hlayout, hparse⟩ := parse_rawHtml hquotes
  let allowed : Kind → Prop := fun k => k.1 ≠ .a ∨
    ∃ target ∈ targets (logicalLines text), k = (.a, [⟨"href", valueText target⟩])
  let made : Node → Prop := fun x => ∃ name ∈ sections (logicalLines text), x = selfLink name
  obtain ⟨hgrows, hself⟩ := grows_layout (fun k hk => (Or.inl hk : allowed k)) hlayout
    (fun name hname => (⟨name, hname, rfl⟩ : made _)) htags
    (fun target htarget => Or.inr ⟨target, htarget, rfl⟩) (within_empty allowed made)
  obtain ⟨hkinds, hkept, -⟩ := Builder.elements_complete hgrows.within
  have hhref : ∀ name : List Fragment,
      (valueText (.char '#' :: name)).toList = '#' :: textOf name :=
    fun name => toList_valueText _
  rw [hparse, Link.mem_links_iff]
  simp only [Link.mem_anchorsAmong_iff_elements]
  constructor
  · rintro ⟨hne, href, ⟨attributes, children, hx, hvalue, rfl⟩, hoccurs⟩
    rcases hkinds _ hx with ⟨name, hname, heq⟩ | ⟨k, hk, children', heq⟩
    · obtain ⟨-, rfl, rfl⟩ := Node.element.inj heq
      have htext : Link.trimmedText (textNodes (textOf name)) = Text.trim (textOf name) := by
        rw [Link.trimmedText, Html.textContents_textNodes]
      have hmark : (valueText (.char '#' :: name)).toList = href := Option.some.inj hvalue
      rw [htext] at hne hoccurs ⊢
      rw [← hmark, hhref, Text.mark_trim_infix_iff (by decide) hne] at hoccurs
      exact ⟨name, hname, hoccurs, rfl⟩
    · obtain ⟨htag, hattributes, -⟩ := Node.element.inj heq
      rcases hk with hother | ⟨target, htarget, rfl⟩
      · exact absurd htag.symm hother
      · have hsame : (valueText target).toList = href := by
          rw [hattributes] at hvalue
          exact Option.some.inj hvalue
        rw [← hsame, toList_valueText] at hoccurs
        exact absurd (hoccurs.subset List.mem_cons_self) (htargets target htarget)
  · rintro ⟨name, hname, hstart, rfl⟩
    have hne := (Text.trim_of_startsUnblank hstart).2
    refine ⟨hne, '#' :: textOf name, ⟨_, _, hkept _ (hself name hname), ?_, ?_⟩, ?_⟩
    · rw [← hhref]
      rfl
    · rw [Link.trimmedText, Html.textContents_textNodes]
    · exact (Text.mark_trim_infix_iff (by decide) hne).mpr hstart

/-! ## Targets and links -/

/-- **The targets and the links of a page** whose attribute values hold no quote. The targets are
the names of its sections and its options. If no name changes the font and no link to another page
has a `#` in its target, then the links are the options and the names without the blanks at their
ends, except for names that start with a blank; and links and targets agree exactly if no name is
empty or has blanks at its ends. -/
theorem targets_links_linked (text : List Char)
    (hquotes : ∀ v ∈ values (markup (logicalLines text)), .char '"' ∉ v) :
    (∀ id, id ∈ Link.ids [(linked (rawHtml text)).root] ↔
      (∃ name ∈ sections (logicalLines text), textOf name = id) ∨
        id ∈ Link.definedOptions (Document.parse (rawHtml text)).body) ∧
    ((∀ name ∈ sections (logicalLines text), ∀ f ∈ name, f.isTag = false) →
      (∀ target ∈ targets (logicalLines text), '#' ∉ textOf target) →
        (∀ link, link ∈ Link.links (linked (rawHtml text)).body ↔
          (∃ name ∈ sections (logicalLines text),
            Text.StartsUnblank (textOf name) ∧ link = Text.trim (textOf name)) ∨
          link ∈ Link.definedOptions (Document.parse (rawHtml text)).body) ∧
        (∀ s args header, (s, ⟨.sh, args⟩) ∈ calls (logicalLines text) →
          (quotedArguments args).head? = some header →
            Text.StartsUnblank (textOf (s.argument header).2) →
              Text.trim (textOf (s.argument header).2) ∈
                Link.links (linked (rawHtml text)).body) ∧
        ((∀ t, t ∈ Link.links (linked (rawHtml text)).body ↔
            t ∈ Link.ids [(linked (rawHtml text)).root]) ↔
          ∀ name ∈ sections (logicalLines text),
            textOf name ≠ [] ∧ Text.trim (textOf name) = textOf name)) := by
  obtain ⟨hroot, hbody, hparsed⟩ := mem_ids_parse_iff hquotes
  have hids : ∀ id, id ∈ Link.ids [(linked (rawHtml text)).root] ↔
      (∃ name ∈ sections (logicalLines text), textOf name = id) ∨
        id ∈ Link.definedOptions (Document.parse (rawHtml text)).body := by
    intro id
    have hdocument : (linked (rawHtml text)).rootAttributes = [] ∧
        (linked (rawHtml text)).bodyAttributes = [] := ⟨hroot, hbody⟩
    rw [Link.mem_ids_root_iff hdocument.1 hdocument.2, linked, Link.mem_ids_linkOptions_iff,
      hparsed]
  refine ⟨hids, fun htags htargets => ?_⟩
  have hlinks : ∀ link, link ∈ Link.links (linked (rawHtml text)).body ↔
      (∃ name ∈ sections (logicalLines text),
        Text.StartsUnblank (textOf name) ∧ link = Text.trim (textOf name)) ∨
      link ∈ Link.definedOptions (Document.parse (rawHtml text)).body := by
    intro link
    rw [linked, Link.mem_links_linkOptions_iff, mem_links_parse_iff hquotes htags htargets]
  refine ⟨hlinks, fun s args header hcall hheader hstart => ?_, fun hsame name hname => ?_,
    fun hnames t => ?_⟩
  · have hname : (s.argument header).2 ∈ sections (logicalLines text) := by
      refine List.mem_flatMap.mpr ⟨_, hcall, ?_⟩
      simp [Call.sections, Block.sectionNames, hheader]
    exact (hlinks _).mpr (Or.inl ⟨_, hname, hstart, rfl⟩)
  · have hlink := (hsame (textOf name)).mpr ((hids _).mpr (Or.inl ⟨name, hname, rfl⟩))
    exact ⟨(Link.mem_links_iff.mp hlink).1, Link.trim_of_mem_links hlink⟩
  · rw [hlinks, hids]
    constructor
    · rintro (⟨name, hname, -, rfl⟩ | hoption)
      · exact Or.inl ⟨name, hname, (hnames name hname).2.symm⟩
      · exact Or.inr hoption
    · rintro (⟨name, hname, rfl⟩ | hoption)
      · obtain ⟨hne, htrim⟩ := hnames name hname
        have hstart := Text.startsUnblank_trim (htrim.symm ▸ hne : Text.trim (textOf name) ≠ [])
        rw [htrim] at hstart
        exact Or.inl ⟨name, hname, hstart, htrim.symm⟩
      · exact Or.inr hoption

/-- A page with two sections and a link to another page has its targets and links in agreement. -/
theorem targets_links_linked_sections :
    (sections (logicalLines ".SH NAME\n.SH SEE ALSO\n.BR ls (1)".toList)).length = 2 ∧
      ∀ t, t ∈ Link.links (linked (rawHtml ".SH NAME\n.SH SEE ALSO\n.BR ls (1)".toList)).body ↔
        t ∈ Link.ids [(linked (rawHtml ".SH NAME\n.SH SEE ALSO\n.BR ls (1)".toList)).root] :=
  ⟨by decide +kernel,
    ((targets_links_linked _ (by decide +kernel)).2 (by decide +kernel)
      (by decide +kernel)).2.2.mpr (by decide +kernel)⟩

/-- A section whose name changes the font has a target but no link. -/
theorem not_targets_links_bold_header :
    ¬ ∀ t, t ∈ Link.links (linked (rawHtml ".SH \\fBNAME\\fR".toList)).body ↔
      t ∈ Link.ids [(linked (rawHtml ".SH \\fBNAME\\fR".toList)).root] := by
  intro h
  have hid : "<b>NAME</b>".toList ∈
      Link.ids [(linked (rawHtml ".SH \\fBNAME\\fR".toList)).root] := by
    decide +kernel
  have hlink : "<b>NAME</b>".toList ∉
      Link.links (linked (rawHtml ".SH \\fBNAME\\fR".toList)).body := by
    decide +kernel
  exact hlink ((h _).mpr hid)

end Manpage.Page
