import Manpage.Proofs.Html.Construction
import Manpage.Proofs.Html.Printing

/-!
# Reading what was printed

A tree is built again from its tokens. Where every element can stand in the elements around it, its
start tag opens it and nothing else, and its end tag closes it and nothing else: all formatting
elements that are active are open, so nothing is opened again, and what comes behind an element is
added behind it. So printing is undone by reading, for every document that reading can give.

## Main definitions

* `Builder.Ready`: a body that is ready for more of a tree
* `Builder.withOpen`: a body with one more open element

## Main results

* `Builder.Ready.token_startTag`, `Builder.Ready.token_endTag`: the tags of an element
* `Builder.foldl_token_tokens`: a tree is built from its tokens
* `Document.parse_print`: a printed document is read as the document
-/

namespace Manpage.Html

/-! ## The children under construction -/

/-- The children of the innermost open element, or of the body, the last one first. -/
def Spine.children (s : Spine) : List Node :=
  match s.elements with
  | [] => s.body
  | e :: _ => e.children

namespace Spine

theorem modifyChildren_modifyChildren (f g : List Node → List Node) (s : Spine) :
    (s.modifyChildren f).modifyChildren g = s.modifyChildren (g ∘ f) := by
  obtain ⟨body, elements⟩ := s
  cases elements <;> rfl

/-- A change that adds nodes to the children. -/
theorem modifyChildren_eq_append {f : List Node → List Node} {s : Spine} {nodes : List Node}
    (h : f s.children = nodes ++ s.children) : s.modifyChildren f = s.append nodes := by
  obtain ⟨body, elements⟩ := s
  cases elements with
  | nil => exact congrArg (Spine.mk · []) h
  | cons e outer => exact congrArg (fun cs => Spine.mk body ({ e with children := cs } :: outer)) h

/-- A change of the children does not open or close anything. -/
theorem map_elements_modifyChildren {α : Type} (f : List Node → List Node) (g : Nat → Tag → α)
    (s : Spine) :
    (s.modifyChildren f).elements.map (fun e => g e.id e.tag) =
      s.elements.map fun e => g e.id e.tag := by
  obtain ⟨body, elements⟩ := s
  cases elements <;> rfl

theorem append_nil (s : Spine) : s.append [] = s := by
  obtain ⟨body, elements⟩ := s
  cases elements <;> rfl

theorem append_append (nodes last : List Node) (s : Spine) :
    (s.append nodes).append last = s.append (last ++ nodes) := by
  rw [append, append, modifyChildren_modifyChildren, append]
  exact congrArg (s.modifyChildren ·) (funext fun _ => (List.append_assoc _ _ _).symm)

theorem children_append (nodes : List Node) (s : Spine) :
    (s.append nodes).children = nodes ++ s.children := by
  obtain ⟨body, elements⟩ := s
  cases elements <;> rfl

end Spine

namespace Builder

/-- The tags of the open elements, the innermost first. -/
def openTags (b : Builder) : List Tag :=
  b.spine.elements.map OpenElement.tag

/-- **A body that is ready for more of a tree**: what is active is open. -/
structure Ready (b : Builder) : Prop where
  dropsNewline : b.dropsNewline = false
  formatting : ∀ f ∈ b.formatting,
    f.id < b.nextId ∧ (f.id, f.tag) ∈ b.spine.elements.map fun e => (e.id, e.tag)

section Ready

variable {b : Builder} {tag : Tag} {attributes : List Attribute}

/-- Nothing is opened again where all that is active is open. -/
theorem Ready.reconstruct_eq (h : b.Ready) : b.reconstruct = b := by
  cases hformatting : b.formatting with
  | nil => exact reconstruct_of_formatting_eq_nil hformatting
  | cons f fs =>
    obtain ⟨-, hmem⟩ := h.formatting f (hformatting ▸ List.mem_cons_self)
    obtain ⟨e, he, heq⟩ := List.mem_map.mp hmem
    have hid : (e.id == f.id) = true := beq_iff_eq.mpr (Prod.mk.inj heq).1
    exact reconstruct_of_isStillOpen hformatting (List.any_eq_true.mpr ⟨e, he, hid⟩)

/-- What is not open is not active. -/
theorem Ready.tag_ne (h : b.Ready) (htag : tag ∉ b.openTags) : ∀ f ∈ b.formatting, f.tag ≠ tag := by
  rintro f hf rfl
  obtain ⟨e, he, heq⟩ := List.mem_map.mp (h.formatting f hf).2
  have hsame : e.tag = f.tag := (Prod.mk.inj heq).2
  exact htag (hsame ▸ List.mem_map_of_mem he)

/-- There is room for a formatting element of a kind that is not active. -/
theorem Ready.makeRoom_eq (h : b.Ready) (htag : tag ∉ b.openTags) :
    makeRoom tag attributes b.formatting = b.formatting := by
  have hnone : b.formatting.countP
      (fun f => f.tag == tag && sameAttributes f.attributes attributes) = 0 := by
    refine List.countP_eq_zero.mpr fun f hf hequal => ?_
    exact h.tag_ne htag f hf (beq_iff_eq.mp (Bool.and_eq_true_iff.mp hequal).1)
  rw [makeRoom, hnone]
  exact if_neg (by decide)

/-- What is not open is not closed. -/
theorem closeThrough_of_notMem (htag : tag ∉ b.openTags) : b.closeThrough tag = b := by
  have hnone : b.spine.elements.findIdx? (·.tag == tag) = none := by
    refine List.findIdx?_eq_none_iff.mpr fun e he => beq_eq_false_iff_ne.mpr ?_
    rintro rfl
    exact htag (List.mem_map_of_mem he)
  rw [closeThrough, onSpine, Spine.closeThrough, Spine.depth?, hnone]
  rfl

/-- A body stays ready while nodes are added. -/
theorem Ready.modifyChildren (h : b.Ready) (f : List Node → List Node) {next : Nat}
    (hnext : b.nextId ≤ next) :
    Ready { b with spine := b.spine.modifyChildren f, nextId := next } := by
  refine ⟨h.dropsNewline, fun g hg => ?_⟩
  obtain ⟨hid, hmem⟩ := h.formatting g hg
  rw [Spine.map_elements_modifyChildren f Prod.mk]
  exact ⟨Nat.lt_of_lt_of_le hid hnext, hmem⟩

/-! ### Texts -/

/-- **A text is added behind what is not a text.** -/
theorem Ready.foldl_token_text (h : b.Ready) {cs : List Char} (hcs : '\x00' ∉ cs) :
    (cs.map Token.char).foldl token b =
      { b with
        spine := b.spine.modifyChildren
          fun nodes => cs.foldl (fun nodes c => Spine.addChar c nodes) nodes } := by
  induction cs generalizing b with
  | nil => exact congrArg (fun s => { b with spine := s }) (Spine.append_nil b.spine).symm
  | cons c cs ih =>
    rw [List.mem_cons, not_or] at hcs
    have hchar : b.token (.char c) = { b with spine := b.spine.appendChar c } := by
      obtain ⟨spine, formatting, nextId, dropsNewline, root, bodyAttributes⟩ := b
      obtain rfl : dropsNewline = false := h.dropsNewline
      simp only [token, Bool.false_and, readChar, if_neg (Ne.symm hcs.1)]
      rw [if_neg Bool.false_ne_true, h.reconstruct_eq]
      rfl
    have hrest := ih (h.modifyChildren (Spine.addChar c) (Nat.le_refl _)) hcs.2
    rw [Spine.modifyChildren_modifyChildren] at hrest
    rw [List.map_cons, List.foldl_cons, hchar]
    exact hrest

/-! ### Elements -/

/-- A body with an element that is open; `children` are what it holds, the last one first. -/
def withOpen (tag : Tag) (attributes : List Attribute) (children : List Node) (next : Nat)
    (b : Builder) : Builder :=
  { b with
    spine := b.spine.push { id := b.nextId, tag, attributes, children }
    formatting :=
      if IsFormatting tag then ⟨b.nextId, tag, attributes⟩ :: b.formatting else b.formatting
    nextId := next }

theorem Ready.withOpen (h : b.Ready) (tag : Tag) (attributes : List Attribute)
    (children : List Node) {next : Nat} (hnext : b.nextId < next) :
    (b.withOpen tag attributes children next).Ready := by
  refine ⟨h.dropsNewline, fun f hf => ?_⟩
  have hold : f ∈ b.formatting → f.id < next ∧
      (f.id, f.tag) ∈ (b.nextId, tag) :: b.spine.elements.map fun e => (e.id, e.tag) := by
    intro hf
    obtain ⟨hid, hmem⟩ := h.formatting f hf
    exact ⟨Nat.lt_trans hid hnext, List.mem_cons_of_mem _ hmem⟩
  simp only [Builder.withOpen] at hf
  split_ifs at hf
  · rcases List.mem_cons.mp hf with rfl | hf
    · exact ⟨hnext, List.mem_cons_self⟩
    · exact hold hf
  · exact hold hf

/-- A heading starts in no other one. -/
theorem closeHeading_eq (h : ∀ tag ∈ b.openTags.head?, tag.isHeading = false) :
    b.closeHeading = b := by
  unfold closeHeading
  split
  · next e outer helements =>
    have hheading : e.tag.isHeading = false := h e.tag (by rw [openTags, helements]; rfl)
    rw [hheading, if_neg Bool.false_ne_true]
  · rfl

/-- Directly in a list there is no term or description to be closed. -/
theorem closeDefinition_eq (h : b.openTags.head? = some .dl) : b.closeDefinition = b := by
  cases helements : b.spine.elements with
  | nil =>
    rw [openTags, helements] at h
    exact absurd h (Option.some_ne_none _).symm
  | cons e outer =>
    rw [openTags, helements] at h
    have htag : e.tag = .dl := Option.some.inj h
    have hfirst : b.spine.elements.find?
        (fun e => e.tag.isDefinition || e.tag.isSpecial && e.tag != .div && e.tag != .p) =
          some e := by
      rw [helements, List.find?_cons_of_pos (by rw [htag]; decide)]
    simp only [closeDefinition, hfirst, htag]
    rfl

/-- A body is ready for a formatting element of a kind that is not open. -/
theorem Ready.beforeFormatting_eq (h : b.Ready) (htag : tag ∉ b.openTags) :
    b.beforeFormatting tag = b := by
  unfold beforeFormatting
  dsimp only
  rw [eq_of_dropsNewline h.dropsNewline]
  split_ifs with ha
  · have hnone : b.formatting.find? (·.tag == .a) = none :=
      List.find?_eq_none.mpr fun f hf => by simpa using h.tag_ne (ha ▸ htag) f hf
    rw [closeAnchor, hnone, h.reconstruct_eq]
  · exact h.reconstruct_eq

/-- **A start tag opens an element** where it can stand. -/
theorem Ready.token_startTag (h : b.Ready) (hopen : tag.CanOpen b.openTags)
    (hvoid : tag.isVoid = false) :
    b.token (.startTag tag attributes) = b.withOpen tag attributes [] (b.nextId + 1) := by
  have hsame := eq_of_dropsNewline h.dropsNewline
  have hblock : .p ∉ b.openTags → b.closeThrough .p = b := closeThrough_of_notMem
  have hformatting : IsFormatting tag → tag ∉ b.openTags →
      b.token (.startTag tag attributes) = b.withOpen tag attributes [] (b.nextId + 1) := by
    intro htag hnew
    rw [token_startTag_formatting htag, h.beforeFormatting_eq hnew, withFormatting,
      h.makeRoom_eq hnew, Builder.withOpen, if_pos htag]
  cases tag with
  | div | dl | p =>
    rw [token, readStart, hsame, hblock hopen]
    rfl
  | h1 | h2 =>
    rw [token, readStart, hsame, hblock hopen.1, closeHeading_eq hopen.2]
    rfl
  | dt | dd =>
    rw [token, readStart, hsame, closeDefinition_eq hopen.2, hblock hopen.1]
    rfl
  | a => exact hformatting (Or.inl rfl) hopen
  | b => exact hformatting (Or.inr (Or.inl rfl)) hopen
  | i => exact hformatting (Or.inr (Or.inr rfl)) hopen
  | br => exact absurd hvoid (by decide)
  | html | head | body | pre | other => exact hopen.elim

/-- The innermost open element is closed. -/
theorem closeThrough_withOpen (htag : ¬ IsFormatting tag) (p : OpenElement → Bool)
    (hp : ∀ e : OpenElement, e.tag = tag → p e) (children : List Node) (next : Nat) :
    (b.withOpen tag attributes children next).onSpine (·.closeThrough p) =
      { b with
        spine := b.spine.append [.element tag attributes children.reverse]
        nextId := next } := by
  let e : OpenElement := { id := b.nextId, tag, attributes, children }
  have hdepth : (b.spine.push e).depth? p = some 1 := by
    rw [Spine.depth?, Spine.push, List.findIdx?_cons, hp e rfl]
    rfl
  rw [onSpine, Builder.withOpen, if_neg htag, Spine.closeThrough, hdepth]
  rfl

/-- **An end tag closes the element** that its start tag has opened. -/
theorem Ready.token_endTag (h : b.Ready) (hopen : tag.CanOpen b.openTags)
    (hvoid : tag.isVoid = false) (children : List Node) (next : Nat) :
    (b.withOpen tag attributes children next).token (.endTag tag) =
      { b with
        spine := b.spine.append [.element tag attributes children.reverse]
        nextId := next } := by
  have hsame : { b.withOpen tag attributes children next with dropsNewline := false } =
      b.withOpen tag attributes children next := eq_of_dropsNewline h.dropsNewline
  have hformatting : IsFormatting tag → tag ∉ b.openTags →
      (b.withOpen tag attributes children next).token (.endTag tag) =
        { b with
          spine := b.spine.append [.element tag attributes children.reverse]
          nextId := next } := by
    intro htag hnew
    have hactive : b.formatting.filter (·.id ≠ b.nextId) = b.formatting :=
      List.filter_eq_self.mpr fun f hf => by simpa using Nat.ne_of_lt (h.formatting f hf).1
    have hclose := @token_endTag_withFormatting b tag attributes htag h.dropsNewline children next
    rw [h.makeRoom_eq hnew, hactive] at hclose
    rw [← hclose, Builder.withOpen, if_pos htag, withFormatting, h.makeRoom_eq hnew]
  have hblock : ∀ p : OpenElement → Bool, (∀ e : OpenElement, e.tag = tag → p e) →
      ¬ IsFormatting tag → (b.withOpen tag attributes children next).onSpine (·.closeThrough p) =
        { b with
          spine := b.spine.append [.element tag attributes children.reverse]
          nextId := next } :=
    fun p hp htag => closeThrough_withOpen htag p hp children next
  cases tag with
  | div | dl | dt | dd =>
    rw [token, readEnd, hsame]
    exact hblock _ (fun e he => beq_iff_eq.mpr he) (by decide)
  | p =>
    have hisOpen : (b.withOpen .p attributes children next).isOpen .p := by
      simp [isOpen, Builder.withOpen, Spine.push]
    rw [token, readEnd, hsame, if_pos hisOpen]
    exact hblock _ (fun e he => beq_iff_eq.mpr he) (by decide)
  | h1 | h2 =>
    rw [token, readEnd, hsame]
    exact hblock _ (fun e he => by rw [he]; rfl) (by decide)
  | a => exact hformatting (Or.inl rfl) hopen
  | b => exact hformatting (Or.inr (Or.inl rfl)) hopen
  | i => exact hformatting (Or.inr (Or.inr rfl)) hopen
  | br => exact absurd hvoid (by decide)
  | html | head | body | pre | other => exact hopen.elim

/-- A start tag of an element without content adds the element. -/
theorem Ready.token_void (h : b.Ready) (hvoid : tag.isVoid) :
    b.token (.startTag tag attributes) =
      { b with spine := b.spine.append [.element tag attributes []] } := by
  have hsame := eq_of_dropsNewline h.dropsNewline
  cases tag with
  | br =>
    rw [token, readStart, hsame, h.reconstruct_eq]
    rfl
  | _ => exact absurd hvoid (by simp [Tag.isVoid])

end Ready

mutual

/-- **A tree is built from its tokens**, behind what is not joined with it. -/
theorem foldl_token_tokens : ∀ {b : Builder} {node : Node}, b.Ready → node.Fits b.openTags →
    node.IsApart b.spine.children →
    ∃ next, b.nextId ≤ next ∧
      node.tokens.foldl token b = { b with spine := b.spine.append [node], nextId := next }
  | b, .text content, h, ⟨hne, hchars⟩, hapart => by
    have hcs : '\x00' ∉ content.toList := fun hmem => (hchars _ hmem).1 rfl
    have hadded : content.toList.foldl (fun nodes c => Spine.addChar c nodes) b.spine.children =
        [.text content] ++ b.spine.children := by
      have hjoined := foldl_addChar_textNodes (hapart trivial) [] content.toList
      rwa [textNodes, if_pos rfl, List.nil_append, List.nil_append, textNodes, if_neg hne,
        String.ofList_toList] at hjoined
    refine ⟨b.nextId, Nat.le_refl _, ?_⟩
    rw [Node.tokens, h.foldl_token_text hcs, Spine.modifyChildren_eq_append hadded]
  | b, .element tag attributes children, h, ⟨hopen, _, hvoid, hchildren⟩, _ => by
    rw [Node.tokens, List.foldl_cons]
    cases hempty : tag.isVoid with
    | true =>
      refine ⟨b.nextId, Nat.le_refl _, ?_⟩
      rw [hvoid hempty, if_pos rfl, List.foldl_nil]
      exact h.token_void hempty
    | false =>
      have hinside := h.withOpen tag attributes [] (Nat.lt_succ_self _)
      obtain ⟨next, hnext, hbuilt⟩ := foldl_token_tokensOfAll hinside hchildren
        fun node _ => node.isApart_nil
      have hchildren : { b.withOpen tag attributes [] (b.nextId + 1) with
          spine := (b.withOpen tag attributes [] (b.nextId + 1)).spine.append children.reverse
          nextId := next } = b.withOpen tag attributes children.reverse next := by
        simp [Builder.withOpen, Spine.push, Spine.append, Spine.modifyChildren]
      refine ⟨next, Nat.le_of_succ_le hnext, ?_⟩
      rw [if_neg Bool.false_ne_true, List.foldl_append, h.token_startTag hopen hempty, hbuilt,
        hchildren, List.foldl_cons, List.foldl_nil, h.token_endTag hopen hempty,
        List.reverse_reverse]

/-- Nodes are built from their tokens. -/
theorem foldl_token_tokensOfAll : ∀ {b : Builder} {nodes : List Node}, b.Ready →
    Node.AllFit b.openTags nodes → (∀ node ∈ nodes.head?, node.IsApart b.spine.children) →
    ∃ next, b.nextId ≤ next ∧
      (Node.tokensOfAll nodes).foldl token b =
        { b with spine := b.spine.append nodes.reverse, nextId := next }
  | b, [], _, _, _ => ⟨b.nextId, Nat.le_refl _, by rw [List.reverse_nil, Spine.append_nil]; rfl⟩
  | b, node :: nodes, h, ⟨hnode, hneighbour, hnodes⟩, hapart => by
    obtain ⟨between, hbetween, hfirst⟩ := foldl_token_tokens h hnode (hapart node rfl)
    let behind : Builder := { b with spine := b.spine.append [node], nextId := between }
    have hready : behind.Ready := h.modifyChildren ([node] ++ ·) hbetween
    have htags : behind.openTags = b.openTags :=
      Spine.map_elements_modifyChildren ([node] ++ ·) (fun _ tag => tag) b.spine
    have hlast : behind.spine.children.head? = some node := by
      rw [Spine.children_append]
      rfl
    -- the node that was told apart from the one behind it is now the one before it
    have hapart : ∀ other ∈ nodes.head?, other.IsApart behind.spine.children := by
      intro other hother htext last hmem hnodeText
      obtain rfl := Option.some.inj (hlast.symm.trans hmem)
      exact hneighbour hnodeText other hother htext
    obtain ⟨next, hnext, hrest⟩ := foldl_token_tokensOfAll hready (htags ▸ hnodes) hapart
    refine ⟨next, Nat.le_trans hbetween hnext, ?_⟩
    rw [Node.tokensOfAll, List.foldl_append, hfirst, hrest, Spine.append_append, List.reverse_cons]

end

end Builder

/-! ## Documents -/

/-- **A printed document is read as the document.** -/
theorem Document.parse_print {d : Document} (h : d.IsReadable) : parse d.print = d := by
  obtain ⟨root, bodyAttributes, body⟩ := d
  let start : Builder := { rootAttributes := root, bodyAttributes }
  have hstart : ∀ ts, Builder.beforeBody {} (.startTag .html root :: .startTag .head [] ::
      .endTag .head :: .startTag .body bodyAttributes :: ts) = ts.foldl Builder.token start := by
    intro ts
    simp only [Builder.beforeBody, Builder.addMissing_nil, List.foldl_cons]
    congr 1
    simp [Builder.token, Builder.readStart, Builder.readEnd, Builder.addMissing_nil, start]
  have hready : start.Ready := ⟨rfl, fun f hf => absurd hf List.not_mem_nil⟩
  obtain ⟨next, -, hbuilt⟩ := Builder.foldl_token_tokensOfAll hready h.body
    fun node _ => node.isApart_nil
  rw [parse, tokens_print h, hstart, List.foldl_append, hbuilt]
  simp [Builder.token, Builder.readEnd, ofBuilder, start, Spine.append, Spine.modifyChildren,
    Spine.complete, Spine.popMany]

end Manpage.Html
