import Manpage.Html.Printer
import Manpage.Proofs.Html.Reading
import Manpage.Proofs.Html.Runs
import Mathlib.Data.Bool.AllAny

/-!
# Printed documents

What a document is scanned as after it has been printed. Characters with a meaning are printed as
references, so every text, every attribute and every tag of the tree gives the tokens that it stands
for. Whether these lead to the same tree depends on where the elements stand: reading closes a
paragraph where a block starts, joins texts, and keeps anchors and fonts apart.

## Main definitions

* `Attribute.IsReadable`, `AreReadable`: attributes that are read as they are printed
* `Node.tokens`, `Node.tokensOfAll`: the tokens of a tree in document order
* `Tag.CanOpen`: where elements can stand
* `Node.Fits`, `Node.AllFit`: trees that reading can give

## Main results

* `Token.scan_printText`, `Token.attributes?_print`: texts and attributes are read back
* `Node.scan_printBefore`: a printed tree is scanned as its tokens
* `Document.tokens_print`: so is a printed document
-/

namespace Manpage.Html

/-! ## Characters -/

/-- A character of a text is printed as a reference to it, or else as it stands. -/
theorem printTextChar_cases (c : Char) :
    (∃ name, printTextChar c = '&' :: name ∧ '\r' ∉ name ∧
        ∀ inValue rest, Reference.read inValue (name ++ rest) = (c, rest)) ∨
      printTextChar c = [c] ∧ c ≠ '&' ∧ c ≠ '<' := by
  unfold printTextChar
  split
  · exact .inl ⟨_, rfl, by decide, fun _ _ => rfl⟩
  · exact .inl ⟨_, rfl, by decide, fun _ _ => rfl⟩
  · exact .inl ⟨_, rfl, by decide, fun _ _ => rfl⟩
  · exact .inl ⟨_, rfl, by decide, fun _ _ => rfl⟩
  · next hampersand _ hless _ => exact .inr ⟨rfl, hampersand, hless⟩

theorem notMem_printTextChar {c : Char} (h : c ≠ '\r') : '\r' ∉ printTextChar c := by
  rcases printTextChar_cases c with ⟨name, hprint, hname, -⟩ | ⟨hprint, -⟩
  · rw [hprint]
    exact List.not_mem_cons_of_ne_of_not_mem (by decide) hname
  · rw [hprint]
    exact List.not_mem_cons_of_ne_of_not_mem h.symm List.not_mem_nil

namespace Token

/-- A text is scanned as its characters. -/
theorem scan_printText (cs rest : List Char) :
    scan (cs.flatMap printTextChar ++ rest) = cs.map Token.char ++ scan rest := by
  induction cs with
  | nil => rfl
  | cons c cs ih =>
    rw [List.flatMap_cons, List.append_assoc, List.map_cons, List.cons_append, ← ih]
    rcases printTextChar_cases c with ⟨name, hprint, -, hread⟩ | ⟨hprint, hampersand, hless⟩
    · rw [hprint]
      exact scan_reference (hread false _)
    · rw [hprint]
      exact scan_char hampersand hless

/-- A value is read up to the quote that ends it. -/
theorem quotedValue_print {value : List Char} (h : ∀ c ∈ value, IsReadable c ∧ c ≠ '"')
    (rest : List Char) :
    quotedValue '"' (value.flatMap printValueChar ++ '"' :: rest) = (value, rest) := by
  induction value with
  | nil => exact quotedValue_quote rest
  | cons c value ih =>
    obtain ⟨⟨⟨hnul, -⟩, hquote⟩, hvalue⟩ := List.forall_mem_cons.mp h
    rw [List.flatMap_cons, List.append_assoc, printValueChar, if_neg hquote]
    rcases printTextChar_cases c with ⟨name, hprint, -, hread⟩ | ⟨hprint, hampersand, -⟩
    · rw [hprint, List.cons_append, quotedValue_reference _ (by decide), hread, ih hvalue]
    · rw [hprint, List.singleton_append, quotedValue_char _ hquote hampersand, ih hvalue,
        orReplacement, if_neg hnul]

end Token

/-! ## Attributes and tags -/

/-- **An attribute that is read as it is printed.** -/
structure Attribute.IsReadable (a : Attribute) : Prop where
  name_ne_nil : a.name.toList ≠ []
  name : ∀ c ∈ a.name.toList, Token.isAttributeNameChar c ∧ Token.nameChar c = c ∧ c ≠ '\r'
  value : ∀ c ∈ a.value.toList, Html.IsReadable c ∧ c ≠ '"'

/-- The names of the attributes that pages have are read as they are printed. -/
theorem Attribute.isReadable_mk {name value : String} (hname : name ∈ ["id", "class", "href"])
    (hvalue : ∀ c ∈ value.toList, Html.IsReadable c ∧ c ≠ '"') :
    Attribute.IsReadable ⟨name, value⟩ := by
  have hchars : ∀ name ∈ ["id", "class", "href"], name.toList ≠ [] ∧ (name.toList.all
      fun c => Token.isAttributeNameChar c ∧ Token.nameChar c = c ∧ c ≠ '\r') := by
    decide
  obtain ⟨hne, hall⟩ := hchars name hname
  exact ⟨hne, List.all_iff_forall_prop.mp hall, hvalue⟩

/-- Attributes that are read as they are printed: no name comes twice. -/
structure AreReadable (attributes : List Attribute) : Prop where
  isReadable : ∀ a ∈ attributes, a.IsReadable
  nodup : (attributes.map Attribute.name).Nodup

theorem AreReadable.nil : AreReadable [] :=
  ⟨fun _ h => absurd h List.not_mem_nil, List.nodup_nil⟩

namespace Token

/-- Printed attributes are read up to the end of their tag. -/
theorem attributes?_print {attributes : List Attribute} (h : ∀ a ∈ attributes, a.IsReadable)
    (rest : List Char) :
    attributes? (attributes.flatMap Attribute.print ++ '>' :: rest) = some (attributes, rest) := by
  induction attributes with
  | nil => exact attributes?_close rest
  | cons a attributes ih =>
    obtain ⟨ha, hattributes⟩ := List.forall_mem_cons.mp h
    obtain ⟨c, name, hname⟩ := List.exists_cons_of_ne_nil ha.name_ne_nil
    have hchars := List.forall_mem_cons.mp (hname ▸ ha.name)
    have hall : name.all isAttributeNameChar := List.all_eq_true.mpr fun d hd => (hchars.2 d hd).1
    have hsame : (c :: name).map nameChar = a.name.toList := by
      rw [← hname]
      exact (List.map_congr_left fun d hd => (ha.name d hd).2.1).trans (List.map_id _)
    have hprint : (a :: attributes).flatMap Attribute.print ++ '>' :: rest =
        ' ' :: c :: (name ++ '=' :: '"' :: (a.value.toList.flatMap printValueChar ++
          '"' :: (attributes.flatMap Attribute.print ++ '>' :: rest))) := by
      rw [List.flatMap_cons, Attribute.print, hname]
      simp
    rw [hprint, attributes?_separator (by decide) (by decide),
      attributes?_quoted c name hchars.1.1 hall, quotedValue_print ha.value, ih hattributes, hsame]
    simp

/-- Attributes with different names are all kept. -/
theorem distinctNames_of_nodup {attributes : List Attribute}
    (h : (attributes.map Attribute.name).Nodup) : distinctNames attributes = attributes := by
  have hfold : ∀ (as kept : List Attribute), ((kept ++ as).map Attribute.name).Nodup →
      as.foldl (fun kept a => if kept.any (·.name == a.name) then kept else kept ++ [a]) kept =
        kept ++ as := by
    intro as
    induction as with
    | nil => exact fun kept _ => (List.append_nil kept).symm
    | cons a as ih =>
      intro kept hnodup
      have hnew : ¬ kept.any (·.name == a.name) = true := by
        intro hany
        obtain ⟨b, hb, hname⟩ := List.any_eq_true.mp hany
        rw [List.map_append] at hnodup
        exact (List.nodup_append.mp hnodup).2.2 _ (List.mem_map_of_mem hb) _
          (List.mem_map_of_mem List.mem_cons_self) (beq_iff_eq.mp hname)
      rw [List.append_cons] at hnodup
      rw [List.foldl_cons, if_neg hnew, ih _ hnodup, List.append_assoc, List.singleton_append]
  exact hfold attributes [] h

section Tags

variable {tag : Tag} {attributes : List Attribute} (htag : ∀ name, tag ≠ .other name)
  (h : AreReadable attributes) (rest : List Char)
include htag

/-- The name of a tag is read as the tag. -/
theorem tag?_print (h : AreReadable attributes) :
    tag? (tag.name.toList ++ (attributes.flatMap Attribute.print ++ '>' :: rest)) =
      some ((tag, attributes), rest) := by
  have hall : tag.name.toList.all isTagNameChar := by
    cases tag with
    | other name => exact absurd rfl (htag name)
    | _ => decide
  have hname : Tag.ofName (String.ofList (tag.name.toList.map nameChar)) = tag := by
    cases tag with
    | other name => exact absurd rfl (htag name)
    | _ => decide
  obtain ⟨c, cs, hend, hc⟩ : ∃ c cs,
      attributes.flatMap Attribute.print ++ '>' :: rest = c :: cs ∧ ¬ isTagNameChar c := by
    cases attributes with
    | nil => exact ⟨_, _, rfl, by decide⟩
    | cons a attributes => exact ⟨_, _, rfl, by decide⟩
  have hread := attributes?_print h.isReadable rest
  rw [hend] at hread ⊢
  rw [tag?_append hall hc, hread, hname]
  simp only [Option.map_some, distinctNames_of_nodup h.nodup]

theorem exists_name_eq_cons : ∃ d ds, tag.name.toList = d :: ds ∧ d.isAlpha := by
  cases tag with
  | other name => exact absurd rfl (htag name)
  | _ => exact ⟨_, _, rfl, by decide⟩

theorem scan_printStart (h : AreReadable attributes) :
    scan (printStart tag attributes ++ rest) = .startTag tag attributes :: scan rest := by
  obtain ⟨d, ds, hname, hd⟩ := exists_name_eq_cons htag
  have hread := tag?_print htag rest h
  have hprint : printStart tag attributes ++ rest =
      '<' :: (tag.name.toList ++ (attributes.flatMap Attribute.print ++ '>' :: rest)) := by
    simp [printStart]
  rw [hname] at hread hprint
  rw [hprint]
  exact scan_startTag hd hread

theorem scan_printEnd : scan (printEnd tag ++ rest) = .endTag tag :: scan rest := by
  obtain ⟨d, ds, hname, hd⟩ := exists_name_eq_cons htag
  have hread := tag?_print htag rest .nil
  have hprint : printEnd tag ++ rest = '<' :: '/' :: (tag.name.toList ++ ([] ++ '>' :: rest)) := by
    simp [printEnd]
  rw [List.flatMap_nil, hname] at hread
  rw [hname] at hprint
  rw [hprint]
  exact scan_endTag hd hread

end Tags

end Token

/-! ## Trees -/

namespace Node

mutual

/-- The tokens of a node. -/
def tokens : Node → List Token
  | text content => content.toList.map Token.char
  | element tag attributes children =>
    .startTag tag attributes :: if tag.isVoid then [] else tokensOfAll children ++ [.endTag tag]

/-- The tokens of nodes. -/
def tokensOfAll : List Node → List Token
  | [] => []
  | node :: nodes => tokens node ++ tokensOfAll nodes

end

/-- Two texts next to each other are read as one. -/
def IsApart (node : Node) (neighbours : List Node) : Prop :=
  node.IsText → ∀ other ∈ neighbours.head?, ¬ other.IsText

end Node

/-- **Where an element can stand**, given the elements around it, the innermost first. A block ends
a paragraph, a heading ends the heading that it would stand in, and an anchor or a font that starts
in another one of its kind is not kept as it is. Terms and descriptions stand in lists. -/
def Tag.CanOpen (outer : List Tag) : Tag → Prop
  | .div | .dl | .p => .p ∉ outer
  | .h1 | .h2 => .p ∉ outer ∧ ∀ tag ∈ outer.head?, tag.isHeading = false
  | .dt | .dd => .p ∉ outer ∧ outer.head? = some .dl
  | .a => .a ∉ outer
  | .b => .b ∉ outer
  | .i => .i ∉ outer
  | .br => True
  | .html | .head | .body | .pre | .other _ => False

namespace Node

mutual

/-- **A node that reading can give** where `outer` are the elements around it. -/
def Fits (outer : List Tag) : Node → Prop
  | text content => content.toList ≠ [] ∧ ∀ c ∈ content.toList, IsReadable c
  | element tag attributes children =>
    tag.CanOpen outer ∧ AreReadable attributes ∧ (tag.isVoid → children = []) ∧
      AllFit (tag :: outer) children

/-- Nodes that reading can give next to each other. -/
def AllFit (outer : List Tag) : List Node → Prop
  | [] => True
  | node :: nodes => Fits outer node ∧ node.IsApart nodes ∧ AllFit outer nodes

end

end Node

namespace Node

variable {outer : List Tag} {tag : Tag} {attributes : List Attribute} {children : List Node}
  {node : Node} {nodes : List Node}

theorem isApart_nil (node : Node) : node.IsApart [] :=
  fun _ _ h => absurd h (Option.not_mem_none _)

theorem fits_element (hopen : tag.CanOpen outer) (hattributes : AreReadable attributes)
    (hvoid : tag.isVoid = false) (hchildren : AllFit (tag :: outer) children) :
    Fits outer (element tag attributes children) :=
  ⟨hopen, hattributes, fun h => absurd (hvoid.symm.trans h) Bool.false_ne_true, hchildren⟩

theorem allFit_singleton : AllFit outer [node] ↔ Fits outer node := by
  simp [AllFit, isApart_nil]

/-- Any node can stand behind an element. -/
theorem allFit_element_cons :
    AllFit outer (element tag attributes children :: nodes) ↔
      Fits outer (element tag attributes children) ∧ AllFit outer nodes := by
  simp [AllFit, IsApart, IsText]

theorem allFit_concat :
    AllFit outer (nodes ++ [node]) ↔
      AllFit outer nodes ∧ node.IsApart nodes.reverse ∧ node.Fits outer := by
  induction nodes with
  | nil => simp [allFit_singleton, AllFit, isApart_nil]
  | cons first nodes ih =>
    have hneighbour : first.IsApart (nodes ++ [node]) ∧ node.IsApart nodes.reverse ↔
        first.IsApart nodes ∧ node.IsApart (first :: nodes).reverse := by
      cases nodes with
      | nil => simp [IsApart, imp_not_comm]
      | cons second nodes => simp [IsApart]
    rw [List.cons_append, AllFit, AllFit, ih]
    constructor
    · rintro ⟨hfirst, hbehind, hnodes, hbefore, hnode⟩
      obtain ⟨hnext, hlast⟩ := hneighbour.mp ⟨hbehind, hbefore⟩
      exact ⟨⟨hfirst, hnext, hnodes⟩, hlast, hnode⟩
    · rintro ⟨⟨hfirst, hnext, hnodes⟩, hlast, hnode⟩
      obtain ⟨hbehind, hbefore⟩ := hneighbour.mpr ⟨hnext, hlast⟩
      exact ⟨hfirst, hbehind, hnodes, hbefore, hnode⟩

theorem allFit_textNodes {cs : List Char} (h : ∀ c ∈ cs, IsReadable c) :
    AllFit outer (textNodes cs) := by
  unfold textNodes
  split_ifs with hcs
  · trivial
  · rw [allFit_singleton, Fits, String.toList_ofList]
    exact ⟨hcs, h⟩

end Node

/-- **Running text is built so that it can be read again.** -/
theorem Piece.allFit_foldl_addTo {outer : List Tag} (hbold : .b ∉ outer) {ps : List Piece}
    (h : ∀ text ∈ ps.filterMap Piece.boldText?, ∀ c ∈ text, Html.IsReadable c)
    {children : List Node} (hchildren : Node.AllFit outer children.reverse) :
    Node.AllFit outer (ps.foldl Piece.addTo children).reverse := by
  induction ps generalizing children with
  | nil => exact hchildren
  | cons p ps ih =>
    rw [List.foldl_cons]
    cases p with
    | char c hc =>
      refine ih h ?_
      rcases children with - | ⟨⟨content⟩ | ⟨tag, attributes, inside⟩, children⟩
      · exact Node.allFit_singleton.mpr (by simp [Node.Fits, hc])
      · rw [List.reverse_cons, Node.allFit_concat] at hchildren
        obtain ⟨hbefore, hapart, -, hcontent⟩ := hchildren
        rw [Piece.addTo, Spine.addChar, List.reverse_cons, Node.allFit_concat]
        refine ⟨hbefore, hapart, by simp, fun d hd => ?_⟩
        rw [String.toList_push, List.mem_append, List.mem_singleton] at hd
        exact hd.elim (hcontent d) fun heq => heq ▸ hc
      · rw [Piece.addTo, Spine.addChar, List.reverse_cons, Node.allFit_concat]
        · exact ⟨hchildren, by simp [Node.IsApart, Node.IsText], by simp [Node.Fits, hc]⟩
        · exact fun _ _ h => Node.noConfusion (List.cons.inj h).1
    | bold text htext =>
      refine ih (fun t ht => h t (List.mem_cons_of_mem _ ht)) ?_
      rw [Piece.addTo, List.reverse_cons, Node.allFit_concat]
      exact ⟨hchildren, fun h => h.elim,
        Node.fits_element hbold .nil rfl (Node.allFit_textNodes (h text List.mem_cons_self))⟩

theorem Tag.CanOpen.ne_other {tag : Tag} {outer : List Tag} (h : tag.CanOpen outer) :
    ∀ name, tag ≠ .other name := by
  rintro name rfl
  exact h

/-! ## Scanning a tree -/

mutual

/-- **A printed tree is scanned as its tokens.** -/
theorem Node.scan_printBefore (rest : List Char) :
    ∀ {outer : List Tag} {node : Node}, node.Fits outer →
      Token.scan (node.printBefore rest) = node.tokens ++ Token.scan rest
  | _, .text content, _ => Token.scan_printText content.toList rest
  | _, .element tag attributes children, h => by
    obtain ⟨hopen, hattributes, -, hchildren⟩ := h
    rw [Node.printBefore, Token.scan_printStart hopen.ne_other _ hattributes, Node.tokens]
    split_ifs
    · rfl
    · rw [Node.scan_printAllBefore _ hchildren, Token.scan_printEnd hopen.ne_other]
      simp

/-- Printed nodes are scanned as their tokens. -/
theorem Node.scan_printAllBefore (rest : List Char) :
    ∀ {outer : List Tag} {nodes : List Node}, Node.AllFit outer nodes →
      Token.scan (Node.printAllBefore rest nodes) = Node.tokensOfAll nodes ++ Token.scan rest
  | _, [], _ => rfl
  | _, node :: nodes, ⟨hnode, _, hnodes⟩ => by
    rw [Node.printAllBefore, Node.scan_printBefore _ hnode, Node.scan_printAllBefore rest hnodes,
      Node.tokensOfAll, List.append_assoc]

end

/-- No attribute prints a carriage return. -/
theorem Attribute.notMem_print {a : Attribute} (h : a.IsReadable) : '\r' ∉ a.print := by
  have hvalue : '\r' ∉ a.value.toList.flatMap printValueChar := by
    intro hmem
    obtain ⟨c, hc, hprint⟩ := List.mem_flatMap.mp hmem
    rw [printValueChar, if_neg (h.value c hc).2] at hprint
    exact notMem_printTextChar (h.value c hc).1.2 hprint
  have hname : '\r' ∉ a.name.toList := fun hmem => (h.name _ hmem).2.2 rfl
  simp [Attribute.print, hvalue, hname]

theorem Tag.CanOpen.notMem_name {tag : Tag} {outer : List Tag} (h : tag.CanOpen outer) :
    '\r' ∉ tag.name.toList := by
  cases tag with
  | other name => exact absurd rfl (h.ne_other name)
  | _ => decide

theorem AreReadable.notMem_printStart {tag : Tag} {attributes : List Attribute}
    (h : AreReadable attributes) (htag : '\r' ∉ tag.name.toList) :
    '\r' ∉ printStart tag attributes := by
  have hattributes : '\r' ∉ attributes.flatMap Attribute.print := by
    intro hmem
    obtain ⟨a, ha, hprint⟩ := List.mem_flatMap.mp hmem
    exact Attribute.notMem_print (h.isReadable a ha) hprint
  simp [printStart, htag, hattributes]

mutual

/-- **No node prints a carriage return.** -/
theorem Node.notMem_printBefore {rest : List Char} (hrest : '\r' ∉ rest) :
    ∀ {outer : List Tag} {node : Node}, node.Fits outer → '\r' ∉ node.printBefore rest
  | _, .text content, h => by
    have hcontent : '\r' ∉ content.toList.flatMap printTextChar := by
      intro hmem
      obtain ⟨c, hc, hprint⟩ := List.mem_flatMap.mp hmem
      exact notMem_printTextChar (h.2 c hc).2 hprint
    rw [Node.printBefore, List.mem_append, not_or]
    exact ⟨hcontent, hrest⟩
  | _, .element tag attributes children, h => by
    obtain ⟨hopen, hattributes, -, hchildren⟩ := h
    have hend : '\r' ∉ printEnd tag ++ rest := by
      simp [printEnd, hopen.notMem_name, hrest]
    rw [Node.printBefore, List.mem_append, not_or]
    refine ⟨hattributes.notMem_printStart hopen.notMem_name, ?_⟩
    split_ifs
    · exact hrest
    · exact Node.notMem_printAllBefore hend hchildren

theorem Node.notMem_printAllBefore {rest : List Char} (hrest : '\r' ∉ rest) :
    ∀ {outer : List Tag} {nodes : List Node}, Node.AllFit outer nodes →
      '\r' ∉ Node.printAllBefore rest nodes
  | _, [], _ => hrest
  | _, _ :: _, ⟨hnode, _, hnodes⟩ =>
    Node.notMem_printBefore (Node.notMem_printAllBefore hrest hnodes) hnode

end

/-! ## Documents -/

/-- **A document that reading can give.** -/
structure Document.IsReadable (d : Document) : Prop where
  rootAttributes : AreReadable d.rootAttributes
  bodyAttributes : AreReadable d.bodyAttributes
  body : Node.AllFit [] d.body

namespace Document

/-- A text without carriage returns has the line ends it is read with. -/
theorem normalizeNewlines_eq {cs : List Char} (h : '\r' ∉ cs) :
    normalizeNewlines cs = cs := by
  fun_induction normalizeNewlines cs with
  | case1 => rfl
  | case2 => exact absurd List.mem_cons_self h
  | case3 => exact absurd List.mem_cons_self h
  | case4 c cs _ _ ih => rw [ih fun hmem => h (List.mem_cons_of_mem _ hmem)]

variable {d : Document}

/-- The tokens of a printed document. -/
theorem tokens_print (h : d.IsReadable) :
    tokens d.print =
      .startTag .html d.rootAttributes :: .startTag .head [] :: .endTag .head ::
        .startTag .body d.bodyAttributes ::
          (Node.tokensOfAll d.body ++ [.endTag .body, .endTag .html]) := by
  have hprint : d.print = printStart .html d.rootAttributes ++ (printStart .head [] ++
      (printEnd .head ++ (printStart .body d.bodyAttributes ++
        Node.printAllBefore (printEnd .body ++ (printEnd .html ++ [])) d.body))) := rfl
  have hmark : Text.dropMark d.print = d.print := rfl
  have hreturn : '\r' ∉ d.print := by
    have hroot : '\r' ∉ printStart .html d.rootAttributes :=
      h.rootAttributes.notMem_printStart (by decide)
    have hhead : '\r' ∉ printStart .head [] ∧ '\r' ∉ printEnd .head := by decide
    have hstart : '\r' ∉ printStart .body d.bodyAttributes :=
      h.bodyAttributes.notMem_printStart (by decide)
    have hend : '\r' ∉ printEnd .body ++ (printEnd .html ++ []) := by decide
    have hbody := Node.notMem_printAllBefore hend h.body
    rw [hprint]
    simp only [List.mem_append, not_or]
    exact ⟨hroot, hhead.1, hhead.2, hstart, hbody⟩
  have hother : ∀ tag ∈ [Tag.html, .head, .body], ∀ name, tag ≠ .other name := by
    simp
  rw [tokens, hmark, normalizeNewlines_eq hreturn, hprint,
    Token.scan_printStart (hother _ (by simp)) _ h.rootAttributes,
    Token.scan_printStart (hother _ (by simp)) _ .nil, Token.scan_printEnd (hother _ (by simp)),
    Token.scan_printStart (hother _ (by simp)) _ h.bodyAttributes,
    Node.scan_printAllBefore _ h.body, Token.scan_printEnd (hother _ (by simp)),
    Token.scan_printEnd (hother _ (by simp)), Token.scan]

end Document

end Manpage.Html
