import Manpage.Html.Document
import Mathlib.Tactic.SplitIfs

/-!
# The construction of documents

How the whole tree of a document comes about, with all that can come to stand outside of its body.
A document is read in stages, from before its root to behind it. Tags of the root, the head and the
body that are missing are put in where a token needs them. Spaces can come to stand in the head, and
between the head and the body. What stands behind the end tags of the body and of the root goes into
the body after all. Elements of metadata and of frames, which no page has, are not told apart from
the elements of the body.

A text that starts with the tags of the root and of the body therefore has nothing outside of its
body, whatever follows: unclosed, stray and wrongly nested tags change the body only, and so does an
end of the text in the middle of a tag.

## Main definitions

* `Stage`, `Construction`: a document under construction
* `Construction.read`: what a token does
* `construct`: the document of some tokens

## Main results

* `Construction.read_eq`, `Construction.foldl_read_eq`: what is read in the body stays there
* `root_construct`: a document that starts with the tags of the root and the body
* `root_construct_eq`: without tags of the head, the document that is read is the one constructed
-/

namespace Manpage.Html

/-- How far the construction of a document has got. -/
inductive Stage where
  | beforeRoot
  | beforeHead
  | inHead
  | afterHead
  | inBody
  | afterBody
  | afterRoot
  deriving DecidableEq, Repr

/-- A document under construction. -/
structure Construction where
  stage : Stage := .beforeRoot
  headAttributes : List Attribute := []
  /-- The children of the head, the last one first. -/
  head : List Node := []
  /-- What stands between the head and the body, the last one first. -/
  between : List Node := []
  /-- The body, and the attributes of the root. -/
  body : Builder := {}

namespace Construction

/-- Adds the attributes of a start tag of the root that are not there yet. -/
def addToRoot (attributes : List Attribute) (c : Construction) : Construction :=
  { c with
    body.rootAttributes := Builder.addMissing attributes c.body.rootAttributes }

/-- Whether an end tag needs a body. Before the body all other end tags are passed over, but for the
end tag of the head. -/
def needsBody : Tag → Bool
  | .html | .body | .br => true
  | _ => false

/-- Reads a token in the body. The end tags of the body and of the root leave it open. -/
def readInBody (t : Token) (c : Construction) : Construction :=
  let stage := match t with
    | .endTag .body => .afterBody
    | .endTag .html => .afterRoot
    | _ => .inBody
  { c with stage, body := c.body.token t }

/-- Reads a token behind the end tag of the body or of the root. Spaces and start tags of the root
are read as in the body; anything else goes on with the body. -/
def readAfterBody (t : Token) (c : Construction) : Construction :=
  match t with
  | .char d =>
    if Builder.isLeadingSpace d then { c with body := c.body.token t } else c.readInBody t
  | .startTag .html _ => { c with body := c.body.token t }
  | _ => c.readInBody t

/-- Reads a token between the head and the body. -/
def readAfterHead (t : Token) (c : Construction) : Construction :=
  match t with
  | .char d =>
    if Builder.isLeadingSpace d then { c with between := Spine.addChar d c.between }
    else c.readInBody t
  | .startTag .html attributes => c.addToRoot attributes
  | .startTag .head _ => c
  | .startTag .body attributes => { c with stage := .inBody, body.bodyAttributes := attributes }
  | .startTag _ _ => c.readInBody t
  | .endTag tag => if needsBody tag then c.readInBody t else c

/-- Reads a token in the head. -/
def readInHead (t : Token) (c : Construction) : Construction :=
  match t with
  | .char d =>
    if Builder.isLeadingSpace d then { c with head := Spine.addChar d c.head }
    else { c with stage := .afterHead }.readAfterHead t
  | .startTag .html attributes => c.addToRoot attributes
  | .startTag .head _ => c
  | .startTag _ _ => { c with stage := .afterHead }.readAfterHead t
  | .endTag .head => { c with stage := .afterHead }
  | .endTag tag =>
    if needsBody tag then { c with stage := .afterHead }.readAfterHead t else c

/-- Reads a token before the head. -/
def readBeforeHead (t : Token) (c : Construction) : Construction :=
  match t with
  | .char d =>
    if Builder.isLeadingSpace d then c else { c with stage := .inHead }.readInHead t
  | .startTag .html attributes => c.addToRoot attributes
  | .startTag .head attributes => { c with stage := .inHead, headAttributes := attributes }
  | .startTag _ _ => { c with stage := .inHead }.readInHead t
  | .endTag tag =>
    if tag = .head ∨ needsBody tag then { c with stage := .inHead }.readInHead t else c

/-- Reads a token before the root. -/
def readBeforeRoot (t : Token) (c : Construction) : Construction :=
  match t with
  | .char d =>
    if Builder.isLeadingSpace d then c else { c with stage := .beforeHead }.readBeforeHead t
  | .startTag .html attributes =>
    { c with stage := .beforeHead, body.rootAttributes := attributes }
  | .startTag _ _ => { c with stage := .beforeHead }.readBeforeHead t
  | .endTag tag =>
    if tag = .head ∨ needsBody tag then { c with stage := .beforeHead }.readBeforeHead t else c

/-- Reads a token. -/
def read (c : Construction) (t : Token) : Construction :=
  match c.stage with
  | .beforeRoot => c.readBeforeRoot t
  | .beforeHead => c.readBeforeHead t
  | .inHead => c.readInHead t
  | .afterHead => c.readAfterHead t
  | .inBody => c.readInBody t
  | .afterBody | .afterRoot => c.readAfterBody t

/-- The document that is complete with what has been read. -/
def root (c : Construction) : Node :=
  .element .html c.body.rootAttributes
    (.element .head c.headAttributes c.head.reverse ::
      (c.between.reverse ++ [.element .body c.body.bodyAttributes c.body.spine.complete]))

end Construction

/-- The document of some tokens, under construction. -/
def construct (ts : List Token) : Construction :=
  ts.foldl Construction.read {}

/-! ## Inside the body -/

namespace Construction

/-- The stages from the start of the body on. -/
def HasBody (c : Construction) : Prop :=
  c.stage = .inBody ∨ c.stage = .afterBody ∨ c.stage = .afterRoot

theorem readInBody_eq (c : Construction) (t : Token) :
    ∃ stage, c.readInBody t = { c with stage, body := c.body.token t } ∧
      (c.readInBody t).HasBody := by
  refine ⟨_, rfl, ?_⟩
  unfold readInBody HasBody
  dsimp only
  split <;> simp

theorem readAfterBody_eq {c : Construction} (h : c.HasBody) (t : Token) :
    ∃ stage, c.readAfterBody t = { c with stage, body := c.body.token t } ∧
      (c.readAfterBody t).HasBody := by
  unfold readAfterBody
  split
  · split_ifs
    · exact ⟨c.stage, rfl, h⟩
    · exact c.readInBody_eq _
  · exact ⟨c.stage, rfl, h⟩
  · exact c.readInBody_eq t

/-- **A token that is read once the body has started changes the body only.** -/
theorem read_eq {c : Construction} (h : c.HasBody) (t : Token) :
    ∃ stage, c.read t = { c with stage, body := c.body.token t } ∧ (c.read t).HasBody := by
  unfold read
  rcases h with hstage | hstage | hstage
  · rw [hstage]
    exact c.readInBody_eq t
  · rw [hstage]
    exact readAfterBody_eq (Or.inr (Or.inl hstage)) t
  · rw [hstage]
    exact readAfterBody_eq (Or.inr (Or.inr hstage)) t

/-- Tokens that are read once the body has started change the body only. -/
theorem foldl_read_eq {c : Construction} (h : c.HasBody) (ts : List Token) :
    ∃ stage, ts.foldl read c = { c with stage, body := ts.foldl Builder.token c.body } := by
  induction ts generalizing c with
  | nil => exact ⟨c.stage, rfl⟩
  | cons t ts ih =>
    obtain ⟨stage, hread, hbody⟩ := read_eq h t
    obtain ⟨last, hrest⟩ := ih hbody
    rw [List.foldl_cons, hrest, hread]
    exact ⟨last, rfl⟩

/-- A document whose body has started is complete with what is read into the body. -/
theorem root_foldl_read {c : Construction} (h : c.HasBody) (ts : List Token) :
    (ts.foldl read c).root = { c with body := ts.foldl Builder.token c.body }.root := by
  obtain ⟨stage, hread⟩ := foldl_read_eq h ts
  rw [hread]
  rfl

end Construction

/-- **A document that starts with the tags of the root and the body** has an empty head, and all
that follows is in the body. -/
theorem root_construct (ts : List Token) :
    (construct (.startTag .html [] :: .startTag .body [] :: ts)).root =
      .element .html (ts.foldl Builder.token {}).rootAttributes
        [.element .head [] [],
          .element .body (ts.foldl Builder.token {}).bodyAttributes
            (ts.foldl Builder.token {}).spine.complete] := by
  have hstart : (construct [.startTag .html [], .startTag .body []]).HasBody := Or.inl rfl
  exact Construction.root_foldl_read hstart ts

/-! ## Before the body -/

/-- Whether a token is a tag of the head. -/
def Token.isHead : Token → Bool
  | .startTag .head _ | .endTag .head => true
  | _ => false

theorem Builder.addMissing_nil (attributes : List Attribute) :
    Builder.addMissing attributes [] = attributes := by
  simp [Builder.addMissing]

namespace Construction

variable {b : Builder} {stage : Stage} {t : Token} {ts : List Token}

/-- **Without tags of the head**, a document has an empty head and nothing between it and the body,
and what comes before the body is read as `Builder.beforeBody` reads it. -/
theorem root_foldl_read_beforeBody
    (hstage : stage = .beforeRoot ∧ b.rootAttributes = [] ∨ stage = .beforeHead)
    (hattributes : b.bodyAttributes = []) (hdrops : b.dropsNewline = false)
    (hts : ∀ t ∈ ts, t.isHead = false) :
    (ts.foldl read { stage, body := b }).root = (Document.ofBuilder (b.beforeBody ts)).root := by
  induction ts generalizing b stage with
  | nil => rfl
  | cons t ts ih =>
    have hstages : stage = .beforeRoot ∨ stage = .beforeHead := hstage.imp And.left id
    obtain ⟨ht, hrest⟩ := List.forall_mem_cons.mp hts
    rw [List.foldl_cons]
    have hbody : (∃ later, read { stage, body := b } t = { stage := later, body := b.token t } ∧
        Construction.HasBody { stage := later, body := b.token t }) →
        (ts.foldl read (read { stage, body := b } t)).root =
          (Document.ofBuilder (ts.foldl Builder.token (b.token t))).root := by
      rintro ⟨later, hread, hbody⟩
      rw [hread, root_foldl_read hbody]
      rfl
    cases t with
    | char d =>
      rw [Builder.beforeBody]
      split_ifs with hspace
      · have hread : read { stage, body := b } (.char d) = { stage, body := b } := by
          rcases hstages with rfl | rfl <;> simp [read, readBeforeRoot, readBeforeHead, hspace]
        rw [hread]
        exact ih hstage hattributes hdrops hrest
      · refine hbody ⟨.inBody, ?_, Or.inl rfl⟩
        rcases hstages with rfl | rfl <;>
          simp [read, readBeforeRoot, readBeforeHead, readInHead, readAfterHead, readInBody, hspace]
    | startTag tag attributes =>
      cases tag with
      | head => exact absurd ht (by simp [Token.isHead])
      | html =>
        have hread : read { stage, body := b } (.startTag .html attributes) =
            { stage := .beforeHead, body := { b with
              rootAttributes := Builder.addMissing attributes b.rootAttributes } } := by
          rcases hstage with ⟨rfl, hroot⟩ | rfl
          · rw [hroot, Builder.addMissing_nil]
            rfl
          · rfl
        rw [hread]
        exact ih (Or.inr rfl) hattributes hdrops hrest
      | body =>
        have htoken : b.token (.startTag .body attributes) =
            { b with bodyAttributes := attributes } := by
          rw [Builder.token, Builder.readStart, hattributes, Builder.addMissing_nil, ← hdrops]
        refine hbody ⟨.inBody, ?_, Or.inl rfl⟩
        rw [htoken]
        rcases hstages with rfl | rfl <;> rfl
      | _ =>
        refine hbody ⟨.inBody, ?_, Or.inl rfl⟩
        rcases hstages with rfl | rfl <;> rfl
    | endTag tag =>
      cases tag with
      | head => exact absurd ht (by simp [Token.isHead])
      | html =>
        refine hbody ⟨.afterRoot, ?_, Or.inr (Or.inr rfl)⟩
        rcases hstages with rfl | rfl <;> rfl
      | body =>
        refine hbody ⟨.afterBody, ?_, Or.inr (Or.inl rfl)⟩
        rcases hstages with rfl | rfl <;> rfl
      | br =>
        refine hbody ⟨.inBody, ?_, Or.inl rfl⟩
        rcases hstages with rfl | rfl <;> rfl
      | _ =>
        rcases hstages with rfl | rfl
        · exact ih hstage hattributes hdrops hrest
        · exact ih hstage hattributes hdrops hrest

end Construction

/-- **The document that is read is the one that is constructed**, as long as no tag of the head is
among its tokens. -/
theorem root_construct_eq {ts : List Token} (hts : ∀ t ∈ ts, t.isHead = false) :
    (construct ts).root = (Document.ofBuilder (Builder.beforeBody {} ts)).root :=
  Construction.root_foldl_read_beforeBody (Or.inl ⟨rfl, rfl⟩) rfl rfl hts

end Manpage.Html
