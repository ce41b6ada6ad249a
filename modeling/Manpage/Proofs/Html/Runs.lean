import Manpage.Html.Document
import Mathlib.Tactic.SplitIfs

/-!
# Formatted text

A piece of text between the start tag and the end tag of a formatting element. Whatever is open
before it, it becomes an element that holds the text, and nothing of it stays open or active.

## Main definitions

* `textNodes`: a text as nodes
* `Node.IsText`: nodes that are texts
* `Builder.beforeFormatting`: a body that is ready for a formatting element
* `Builder.withFormatting`: a body with a formatting element that is open
* `IsReadable`: characters that are read as themselves
* `Piece`: a piece of running text

## Main results

* `Builder.foldl_token_formatted`: reading a piece of formatted text
* `Builder.foldl_token_pieces`: reading running text
-/

namespace Manpage.Html

/-- A text as nodes. -/
def textNodes (cs : List Char) : List Node :=
  if cs = [] then [] else [.text (String.ofList cs)]

/-- Whether a node is a text. -/
def Node.IsText : Node → Prop
  | text _ => True
  | element _ _ _ => False

section AddChar

variable {nodes : List Node} (hnodes : ∀ node ∈ nodes.head?, ¬ node.IsText)
include hnodes

/-- A character goes on with the text that stands last, or else starts one. -/
theorem addChar_textNodes (c : Char) (cs : List Char) :
    Spine.addChar c (textNodes cs ++ nodes) = textNodes (cs ++ [c]) ++ nodes := by
  unfold textNodes
  by_cases hcs : cs = []
  · rw [if_pos hcs, hcs]
    rcases nodes with - | ⟨⟨content⟩ | _, nodes⟩
    · rfl
    · exact absurd trivial (hnodes _ rfl)
    · rfl
  · rw [if_neg hcs, if_neg (by simp), List.singleton_append, Spine.addChar, String.ofList_append]
    rfl

theorem foldl_addChar_textNodes (cs ds : List Char) :
    ds.foldl (fun nodes c => Spine.addChar c nodes) (textNodes cs ++ nodes) =
      textNodes (cs ++ ds) ++ nodes := by
  induction ds generalizing cs with
  | nil => rw [List.foldl_nil, List.append_nil]
  | cons d ds ih => rw [List.foldl_cons, addChar_textNodes hnodes, ih, List.append_assoc]; rfl

end AddChar

theorem reverse_textNodes (cs : List Char) : (textNodes cs).reverse = textNodes cs := by
  unfold textNodes
  split_ifs <;> rfl

theorem textContents_textNodes (cs : List Char) : Node.textContents (textNodes cs) = cs := by
  unfold textNodes
  split_ifs with hcs
  · rw [hcs]
    rfl
  · simp [Node.textContents, Node.textsBefore, Node.textBefore]

namespace Builder

variable {b : Builder} {tag : Tag} {attributes : List Attribute}

/-- Where no line feed is dropped, a token starts out from the body as it is. -/
theorem eq_of_dropsNewline (h : b.dropsNewline = false) : { b with dropsNewline := false } = b := by
  rw [← h]

/-! ## Active formatting elements -/

/-- Nothing is opened again while the latest active formatting element is open. -/
theorem reconstruct_of_isStillOpen {f : FormattingElement} {fs : List FormattingElement}
    (hformatting : b.formatting = f :: fs) (hopen : b.isStillOpen f) : b.reconstruct = b := by
  have hnone : b.formatting.takeWhile (!b.isStillOpen ·) = [] := by
    rw [hformatting, List.takeWhile_cons_of_neg (by simp [hopen])]
  unfold reconstruct
  rw [hnone]
  rfl

/-- Nothing is opened again if no formatting element is active. -/
theorem reconstruct_of_formatting_eq_nil (h : b.formatting = []) : b.reconstruct = b := by
  unfold reconstruct
  rw [h]
  obtain ⟨spine, formatting, nextId, dropsNewline, root, bodyAttributes⟩ := b
  subst h
  rfl

section DropsNewline

@[simp] theorem dropsNewline_reopen (b : Builder) (fs : List FormattingElement) :
    (b.reopen fs).dropsNewline = b.dropsNewline := by
  induction fs generalizing b with
  | nil => rfl
  | cons f fs ih => exact ih _

@[simp] theorem dropsNewline_reconstruct (b : Builder) :
    b.reconstruct.dropsNewline = b.dropsNewline :=
  dropsNewline_reopen _ _

@[simp] theorem dropsNewline_closeOrdinary (b : Builder) (tag : Tag) :
    (b.closeOrdinary tag).dropsNewline = b.dropsNewline := by
  unfold closeOrdinary
  split
  · split_ifs <;> rfl
  · rfl

@[simp] theorem dropsNewline_adoptUpTo (b : Builder) (n : Nat) (tag : Tag) :
    (b.adoptUpTo n tag).dropsNewline = b.dropsNewline := by
  induction n generalizing b with
  | zero => rfl
  | succ n ih =>
    rw [adoptUpTo]
    split
    · exact dropsNewline_closeOrdinary b tag
    · split
      · rfl
      · split
        · rfl
        · exact ih _

@[simp] theorem dropsNewline_adopt (b : Builder) (tag : Tag) :
    (b.adopt tag).dropsNewline = b.dropsNewline := by
  unfold adopt
  split
  · split_ifs
    · rfl
    · exact dropsNewline_adoptUpTo b _ tag
  · exact dropsNewline_adoptUpTo b _ tag

end DropsNewline

/-! ## A piece of formatted text -/

/-- An anchor that is still active ends where a new one starts. -/
def closeAnchor (b : Builder) : Builder :=
  match b.formatting.find? (·.tag == .a) with
  | some f => (b.adopt .a).forget f.id
  | none => b

/-- A body that is ready for a formatting element: an anchor does not start in another one, and what
is active is open. -/
def beforeFormatting (tag : Tag) (b : Builder) : Builder :=
  let b := { b with dropsNewline := false }
  (if tag = .a then b.closeAnchor else b).reconstruct

theorem dropsNewline_beforeFormatting (tag : Tag) (b : Builder) :
    (b.beforeFormatting tag).dropsNewline = false := by
  unfold beforeFormatting closeAnchor
  dsimp only
  rw [dropsNewline_reconstruct]
  split_ifs
  · split
    · exact dropsNewline_adopt _ _
    · rfl
  · rfl

/-- A body with a formatting element that is open; `children` are what it holds, the last one
first. -/
def withFormatting (tag : Tag) (attributes : List Attribute) (children : List Node) (b : Builder) :
    Builder :=
  { b with
    spine := b.spine.push { id := b.nextId, tag, attributes, children }
    formatting := ⟨b.nextId, tag, attributes⟩ :: makeRoom tag attributes b.formatting
    nextId := b.nextId + 1 }

/-- The tags of formatting elements. -/
def IsFormatting (tag : Tag) : Prop :=
  tag = .a ∨ tag = .b ∨ tag = .i

instance : DecidablePred IsFormatting :=
  fun tag => inferInstanceAs (Decidable (tag = .a ∨ tag = .b ∨ tag = .i))

theorem token_startTag_formatting (htag : IsFormatting tag) (b : Builder) :
    b.token (.startTag tag attributes) =
      (b.beforeFormatting tag).withFormatting tag attributes [] := by
  rcases htag with rfl | rfl | rfl <;> rfl

theorem isStillOpen_withFormatting (b : Builder) (children : List Node) :
    (b.withFormatting tag attributes children).isStillOpen ⟨b.nextId, tag, attributes⟩ := by
  simp [isStillOpen, withFormatting, Spine.push]

/-- A character goes into the formatting element. -/
theorem token_char_withFormatting (hdrops : b.dropsNewline = false) {c : Char} (hc : c ≠ '\x00')
    (children : List Node) :
    (b.withFormatting tag attributes children).token (.char c) =
      b.withFormatting tag attributes (Spine.addChar c children) := by
  have hsame : { b.withFormatting tag attributes children with dropsNewline := false } =
      b.withFormatting tag attributes children := eq_of_dropsNewline hdrops
  have hdrop : (b.withFormatting tag attributes children).dropsNewline = false := hdrops
  simp only [token, hsame, hdrop, Bool.false_and, readChar, if_neg hc]
  rw [if_neg Bool.false_ne_true,
    reconstruct_of_isStillOpen rfl (isStillOpen_withFormatting b children)]
  rfl

theorem foldl_token_text (hdrops : b.dropsNewline = false) {cs : List Char} (hcs : '\x00' ∉ cs)
    (children : List Node) :
    (cs.map Token.char).foldl token (b.withFormatting tag attributes children) =
      b.withFormatting tag attributes
        (cs.foldl (fun nodes c => Spine.addChar c nodes) children) := by
  induction cs generalizing children with
  | nil => rfl
  | cons c cs ih =>
    rw [List.mem_cons, not_or] at hcs
    rw [List.map_cons, List.foldl_cons, List.foldl_cons,
      token_char_withFormatting hdrops (Ne.symm hcs.1), ih hcs.2]

/-- The end tag closes the formatting element, whatever has been opened and closed in it. -/
theorem token_endTag_withFormatting (htag : IsFormatting tag) (hdrops : b.dropsNewline = false)
    (children : List Node) (next : Nat) :
    { b.withFormatting tag attributes children with nextId := next }.token (.endTag tag) =
      { b with
        spine := b.spine.append [.element tag attributes children.reverse]
        formatting := (makeRoom tag attributes b.formatting).filter (·.id ≠ b.nextId)
        nextId := next } := by
  let inside : Builder := { b.withFormatting tag attributes children with nextId := next }
  have hsame : { inside with dropsNewline := false } = inside := eq_of_dropsNewline hdrops
  have hread : inside.token (.endTag tag) = inside.adopt tag := by
    rcases htag with rfl | rfl | rfl
    · exact congrArg (adopt .a) hsame
    · exact congrArg (adopt .b) hsame
    · exact congrArg (adopt .i) hsame
  have hadopt : inside.adopt tag = inside.adoptUpTo maxSplits tag := by
    simp [inside, adopt, withFormatting, Spine.push]
  rw [hread, hadopt, maxSplits, adoptUpTo]
  simp [inside, withFormatting, Spine.push, splitAt?, forget, onSpine, Spine.popMany, Spine.pop,
    OpenElement.close]

/-- **A piece of formatted text** becomes an element that holds the text, after what has been
read before. -/
theorem foldl_token_formatted (htag : IsFormatting tag) {cs : List Char} (hcs : '\x00' ∉ cs)
    (b : Builder) :
    (.startTag tag attributes :: (cs.map Token.char ++ [.endTag tag])).foldl token b =
      { b.beforeFormatting tag with
        spine := (b.beforeFormatting tag).spine.append [.element tag attributes (textNodes cs)]
        formatting := (makeRoom tag attributes (b.beforeFormatting tag).formatting).filter
          (·.id ≠ (b.beforeFormatting tag).nextId)
        nextId := (b.beforeFormatting tag).nextId + 1 } := by
  have hdrops := dropsNewline_beforeFormatting tag b
  have htext : cs.foldl (fun nodes c => Spine.addChar c nodes) [] = textNodes cs :=
    (foldl_addChar_textNodes (by simp) [] cs).trans (List.append_nil _)
  rw [List.foldl_cons, token_startTag_formatting htag, List.foldl_append,
    foldl_token_text hdrops hcs, htext, List.foldl_cons, List.foldl_nil]
  exact (token_endTag_withFormatting htag hdrops _ _).trans (by rw [reverse_textNodes])

end Builder

/-! ## Running text -/

/-- A character that is read as itself, wherever it stands. -/
def IsReadable (c : Char) : Prop :=
  c ≠ '\x00' ∧ c ≠ '\r'

instance : DecidablePred IsReadable :=
  fun c => inferInstanceAs (Decidable (c ≠ '\x00' ∧ c ≠ '\r'))

/-- A piece of running text as it is read: a character or bold text. -/
inductive Piece where
  | char (c : Char) (isReadable : IsReadable c)
  | bold (text : List Char) (notMem : '\x00' ∉ text)

namespace Piece

/-- The tokens of a piece. -/
def tokens : Piece → List Token
  | char c _ => [.char c]
  | bold text _ => .startTag .b [] :: (text.map Token.char ++ [.endTag .b])

/-- The text of a piece if it is bold. -/
def boldText? : Piece → Option (List Char)
  | char _ _ => none
  | bold text _ => some text

/-- Children with a piece after the last one, the last one first. -/
def addTo (children : List Node) : Piece → List Node
  | char c _ => Spine.addChar c children
  | bold text _ => .element .b [] (textNodes text) :: children

end Piece

namespace Builder

/-- **Running text goes into the innermost open element** while no formatting element is active. -/
theorem foldl_token_pieces {b : Builder} (hformatting : b.formatting = [])
    (hdrops : b.dropsNewline = false) {e : OpenElement} {outer : List OpenElement}
    (helements : b.spine.elements = e :: outer) (ps : List Piece) :
    ∃ n, (ps.flatMap Piece.tokens).foldl token b =
      { b with
        spine := ⟨b.spine.body, { e with children := ps.foldl Piece.addTo e.children } :: outer⟩
        nextId := n } := by
  obtain ⟨⟨body, elements⟩, formatting, nextId, dropsNewline, root, bodyAttributes⟩ := b
  obtain rfl : formatting = [] := hformatting
  obtain rfl : dropsNewline = false := hdrops
  obtain rfl : elements = e :: outer := helements
  induction ps generalizing e nextId with
  | nil => exact ⟨nextId, rfl⟩
  | cons p ps ih =>
    rw [List.flatMap_cons, List.foldl_append]
    cases p with
    | char c hc =>
      have hchar : token ⟨⟨body, e :: outer⟩, [], nextId, false, root, bodyAttributes⟩ (.char c) =
          ⟨⟨body, { e with children := Spine.addChar c e.children } :: outer⟩, [], nextId, false,
            root, bodyAttributes⟩ := by
        simp only [token, Bool.false_and, readChar, if_neg hc.1]
        rw [if_neg Bool.false_ne_true, reconstruct_of_formatting_eq_nil rfl]
        rfl
      rw [Piece.tokens, List.foldl_cons, List.foldl_nil, hchar]
      exact ih _
    | bold text htext =>
      have hready : beforeFormatting .b
          ⟨⟨body, e :: outer⟩, [], nextId, false, root, bodyAttributes⟩ =
            ⟨⟨body, e :: outer⟩, [], nextId, false, root, bodyAttributes⟩ :=
        reconstruct_of_formatting_eq_nil rfl
      have hbold : (Piece.bold text htext).tokens.foldl token
          ⟨⟨body, e :: outer⟩, [], nextId, false, root, bodyAttributes⟩ =
            ⟨⟨body, { e with children := .element .b [] (textNodes text) :: e.children } :: outer⟩,
              [], nextId + 1, false, root, bodyAttributes⟩ := by
        rw [Piece.tokens, foldl_token_formatted (Or.inr (Or.inl rfl)) htext, hready]
        rfl
      rw [hbold]
      exact ih _

end Builder

end Manpage.Html
