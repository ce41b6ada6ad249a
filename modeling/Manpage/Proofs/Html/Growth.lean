import Manpage.Proofs.Html.Elements
import Manpage.Proofs.Html.Runs

/-!
# Bodies grow

Whatever is read, a body under construction loses no element: a complete element stays as it is, and
an open one stays open until it is complete. Nothing comes from nowhere either: an element is of a
kind that a tag has brought, also one that is opened again or split.

## Main definitions

* `Builder.Within`: a body whose elements are of allowed kinds
* `Builder.Grows`: what a body does while it is read

## Main results

* `Builder.grows_adopt`: closing a formatting element, wherever it is open
* `Builder.grows_token`: reading a token
-/

namespace Manpage.Html.Builder

/-- The kinds of the elements that are open or can be opened again. -/
def knownKinds (b : Builder) : List Kind :=
  b.spine.openKinds ++ b.formatting.map FormattingElement.kind

/-- Whether all elements are of `allowed` kinds. Some complete ones can be `made` otherwise. -/
structure Within (allowed : Kind → Prop) (made : Node → Prop) (b : Builder) : Prop where
  known : ∀ k ∈ b.knownKinds, allowed k
  finished : ∀ x ∈ b.spine.finished, made x ∨ ∃ k, allowed k ∧ x.IsOfKind k

/-- Whether there is an element of the kind `k`, open or complete. -/
def Has (b : Builder) (k : Kind) : Prop :=
  k ∈ b.spine.openKinds ∨ ∃ x ∈ b.spine.finished, x.IsOfKind k

/-- **What a body does while it is read.** Complete elements stay as they are, open ones stay or
become complete, and all are of allowed kinds. The root and the body keep their attributes. -/
structure Grows (allowed : Kind → Prop) (made : Node → Prop) (b c : Builder) : Prop where
  within : c.Within allowed made
  kept : ∀ x ∈ b.spine.finished, x ∈ c.spine.finished
  present : ∀ k ∈ b.spine.openKinds, c.Has k
  rootAttributes : c.rootAttributes = b.rootAttributes
  bodyAttributes : c.bodyAttributes = b.bodyAttributes

variable {allowed : Kind → Prop} {made : Node → Prop} {b c d : Builder}

theorem mem_knownKinds_iff {k : Kind} :
    k ∈ b.knownKinds ↔ k ∈ b.spine.openKinds ∨ ∃ f ∈ b.formatting, f.kind = k := by
  rw [knownKinds, List.mem_append, List.mem_map]

namespace Within

theorem of_mem_openKinds (hb : b.Within allowed made) {k : Kind} (hk : k ∈ b.spine.openKinds) :
    allowed k :=
  hb.known k (mem_knownKinds_iff.mpr (Or.inl hk))

theorem of_mem_formatting (hb : b.Within allowed made) {f : FormattingElement}
    (hf : f ∈ b.formatting) : allowed f.kind :=
  hb.known f.kind (mem_knownKinds_iff.mpr (Or.inr ⟨f, hf, rfl⟩))

theorem of_mem_elements (hb : b.Within allowed made) {e : OpenElement}
    (he : e ∈ b.spine.elements) : allowed e.kind :=
  hb.of_mem_openKinds (List.mem_map_of_mem he)

end Within

namespace Grows

theorem refl (hb : b.Within allowed made) : Grows allowed made b b :=
  ⟨hb, fun _ hx => hx, fun _ hk => Or.inl hk, rfl, rfl⟩

theorem has (h : Grows allowed made b c) {k : Kind} (hk : b.Has k) : c.Has k := by
  rcases hk with hk | ⟨x, hx, hkind⟩
  · exact h.present k hk
  · exact Or.inr ⟨x, h.kept x hx, hkind⟩

theorem trans (h₁ : Grows allowed made b c) (h₂ : Grows allowed made c d) :
    Grows allowed made b d where
  within := h₂.within
  kept x hx := h₂.kept x (h₁.kept x hx)
  present k hk := h₂.has (h₁.present k hk)
  rootAttributes := h₂.rootAttributes.trans h₁.rootAttributes
  bodyAttributes := h₂.bodyAttributes.trans h₁.bodyAttributes

end Grows

/-! ## Opening and closing elements -/

/-- A step that leaves the elements alone. -/
theorem grows_of_spine_eq (hb : b.Within allowed made) (hspine : c.spine = b.spine)
    (hroot : c.rootAttributes = b.rootAttributes) (hbody : c.bodyAttributes = b.bodyAttributes)
    (hformatting : ∀ f ∈ c.formatting, allowed f.kind) : Grows allowed made b c := by
  refine ⟨⟨fun k hk => ?_, ?_⟩, ?_, fun k hk => Or.inl ?_, hroot, hbody⟩
  · rcases mem_knownKinds_iff.mp hk with hk | ⟨f, hf, rfl⟩
    · rw [hspine] at hk
      exact hb.of_mem_openKinds hk
    · exact hformatting f hf
  · rw [hspine]
    exact hb.finished
  · rw [hspine]
    exact fun _ hx => hx
  · rw [hspine]
    exact hk

/-- A step that adds complete elements and leaves the open ones alone. -/
theorem grows_onSpine (hb : b.Within allowed made) {f : Spine → Spine} {new : List Node}
    (hopen : (f b.spine).openKinds = b.spine.openKinds)
    (hfinished : ∀ x, x ∈ (f b.spine).finished ↔ x ∈ elementsAmong new ∨ x ∈ b.spine.finished)
    (hnew : ∀ x ∈ elementsAmong new, made x ∨ ∃ k, allowed k ∧ x.IsOfKind k) :
    Grows allowed made b (b.onSpine f) := by
  refine ⟨⟨fun k hk => ?_, fun x hx => ?_⟩, fun x hx => (hfinished x).mpr (Or.inr hx),
    fun k hk => Or.inl ?_, rfl, rfl⟩
  · rw [knownKinds, onSpine, hopen] at hk
    exact hb.known k hk
  · rcases (hfinished x).mp hx with hx | hx
    · exact hnew x hx
    · exact hb.finished x hx
  · rw [onSpine, hopen]
    exact hk

theorem grows_appendChar (hb : b.Within allowed made) (c : Char) :
    Grows allowed made b (b.onSpine (·.appendChar c)) := by
  have hnone : ∀ x, x ∈ (b.spine.appendChar c).finished ↔
      x ∈ elementsAmong [] ∨ x ∈ b.spine.finished := by
    intro x
    rw [Spine.mem_finished_appendChar]
    simp [elementsAmong]
  exact grows_onSpine hb (Spine.openKinds_modifyChildren _ _) hnone (by simp [elementsAmong])

theorem grows_append (hb : b.Within allowed made) {nodes : List Node}
    (h : ∀ x ∈ elementsAmong nodes, made x ∨ ∃ k, allowed k ∧ x.IsOfKind k) :
    Grows allowed made b (b.onSpine (·.append nodes)) :=
  grows_onSpine hb (Spine.openKinds_modifyChildren _ _) (fun _ => Spine.mem_finished_append) h

theorem grows_appendVoid (hb : b.Within allowed made) {tag : Tag} {attributes : List Attribute}
    (hk : allowed (tag, attributes)) : Grows allowed made b (b.appendVoid tag attributes) := by
  apply grows_append hb
  intro x hx
  obtain rfl : x = .element tag attributes [] := by simpa [elementsAmong, elementsIn] using hx
  exact Or.inr ⟨(tag, attributes), hk, [], rfl⟩

theorem grows_push (hb : b.Within allowed made) {tag : Tag} {attributes : List Attribute}
    (hk : allowed (tag, attributes)) : Grows allowed made b (b.push tag attributes) := by
  refine ⟨⟨fun k hmem => ?_, fun x hx => ?_⟩, fun x hx => ?_, fun k hmem => Or.inl ?_, rfl,
    rfl⟩
  · rcases mem_knownKinds_iff.mp hmem with hmem | ⟨f, hf, rfl⟩
    · rcases List.mem_cons.mp hmem with rfl | hmem
      · exact hk
      · exact hb.of_mem_openKinds hmem
    · exact hb.of_mem_formatting hf
  · exact hb.finished x ((Spine.mem_finished_push rfl).mp hx)
  · exact (Spine.mem_finished_push rfl).mpr hx
  · exact List.mem_cons_of_mem _ hmem

theorem grows_pop (hb : b.Within allowed made) : Grows allowed made b (b.onSpine Spine.pop) := by
  obtain ⟨⟨body, es⟩, formatting, nextId, dropsNewline, root, bodyAttributes⟩ := b
  cases es with
  | nil => exact .refl hb
  | cons e outer =>
    have hkind : allowed e.kind := hb.of_mem_elements List.mem_cons_self
    refine ⟨⟨fun k hk => ?_, fun x hx => ?_⟩, fun x hx => ?_, fun k hk => ?_, rfl, rfl⟩
    · rcases mem_knownKinds_iff.mp hk with hk | ⟨f, hf, rfl⟩
      · rw [onSpine, Spine.openKinds_pop] at hk
        exact hb.of_mem_openKinds (List.mem_cons_of_mem _ hk)
      · exact hb.of_mem_formatting hf
    · rcases Spine.mem_finished_pop.mp hx with rfl | hx
      · exact Or.inr ⟨e.kind, hkind, e.isOfKind_close []⟩
      · exact hb.finished x hx
    · exact Spine.mem_finished_pop.mpr (Or.inr hx)
    · rcases List.mem_cons.mp hk with rfl | hk
      · exact Or.inr ⟨e.close [], Spine.mem_finished_pop.mpr (Or.inl rfl), e.isOfKind_close []⟩
      · left
        rw [onSpine, Spine.openKinds_pop]
        exact hk

theorem grows_popMany (hb : b.Within allowed made) (n : Nat) :
    Grows allowed made b (b.onSpine (·.popMany n)) := by
  induction n generalizing b with
  | zero => exact .refl hb
  | succ n ih => exact (grows_pop hb).trans (ih (grows_pop hb).within)

theorem grows_closeThrough (hb : b.Within allowed made) (tag : Tag) :
    Grows allowed made b (b.closeThrough tag) :=
  grows_popMany hb _

theorem grows_closeOrdinary (hb : b.Within allowed made) (tag : Tag) :
    Grows allowed made b (b.closeOrdinary tag) := by
  unfold closeOrdinary
  split
  · split_ifs
    · exact grows_closeThrough hb tag
    · exact .refl hb
  · exact .refl hb

theorem grows_closeDefinition (hb : b.Within allowed made) :
    Grows allowed made b b.closeDefinition := by
  unfold closeDefinition
  dsimp only
  split
  · split_ifs
    · exact grows_closeThrough hb _
    · exact .refl hb
  · exact .refl hb

theorem grows_closeHeading (hb : b.Within allowed made) :
    Grows allowed made b b.closeHeading := by
  unfold closeHeading
  split
  · split_ifs
    · exact grows_pop hb
    · exact .refl hb
  · exact .refl hb

/-! ## Formatting elements -/

theorem grows_reopen (hb : b.Within allowed made) {fs : List FormattingElement}
    (hfs : ∀ f ∈ fs, allowed f.kind) : Grows allowed made b (b.reopen fs) := by
  induction fs generalizing b with
  | nil => exact .refl hb
  | cons f fs ih =>
    obtain ⟨hf, hrest⟩ := List.forall_mem_cons.mp hfs
    have hpush := grows_push hb hf
    have hactive : Grows allowed made (b.push f.tag f.attributes)
        { b.push f.tag f.attributes with
          formatting := { f with id := b.nextId } :: b.formatting } :=
      grows_of_spine_eq hpush.within rfl rfl rfl
        (List.forall_mem_cons.mpr ⟨hf, fun g hg => hb.of_mem_formatting hg⟩)
    exact (hpush.trans hactive).trans (ih hactive.within hrest)

theorem grows_reconstruct (hb : b.Within allowed made) :
    Grows allowed made b b.reconstruct := by
  unfold reconstruct
  dsimp only
  have hdrop : Grows allowed made b
      { b with formatting :=
          b.formatting.drop (b.formatting.takeWhile (!b.isStillOpen ·)).length } :=
    grows_of_spine_eq hb rfl rfl rfl fun f hf => hb.of_mem_formatting (List.mem_of_mem_drop hf)
  refine hdrop.trans (grows_reopen hdrop.within fun f hf => ?_)
  rw [List.mem_reverse] at hf
  exact hb.of_mem_formatting ((List.takeWhile_sublist _).subset hf)

theorem mem_of_mem_makeRoom {tag : Tag} {attributes : List Attribute}
    {fs : List FormattingElement} {f : FormattingElement} (hf : f ∈ makeRoom tag attributes fs) :
    f ∈ fs := by
  unfold makeRoom at hf
  dsimp only at hf
  split_ifs at hf
  · rw [List.mem_reverse] at hf
    exact List.mem_reverse.mp (List.mem_of_mem_eraseP hf)
  · exact hf

theorem grows_pushFormatting (hb : b.Within allowed made) {tag : Tag} {attributes : List Attribute}
    (hk : allowed (tag, attributes)) : Grows allowed made b (b.pushFormatting tag attributes) := by
  have hpush := grows_push hb hk
  refine hpush.trans (grows_of_spine_eq hpush.within rfl rfl rfl ?_)
  refine List.forall_mem_cons.mpr ⟨hk, fun f hf => ?_⟩
  exact hb.of_mem_formatting (mem_of_mem_makeRoom hf)

theorem grows_forget (hb : b.Within allowed made) (id : Nat) :
    Grows allowed made b (b.forget id) :=
  grows_of_spine_eq hb rfl rfl rfl fun _ hf => hb.of_mem_formatting (List.mem_filter.mp hf).1

/-! ### Splitting -/

theorem eq_of_splitAt? {α : Type} {p : α → Bool} {xs before after : List α} {x : α}
    (h : splitAt? p xs = some (before, x, after)) : xs = before ++ x :: after := by
  unfold splitAt? at h
  split at h
  · exact absurd h (Option.some_ne_none _).symm
  · next y rest hdrop =>
    obtain ⟨rfl, rfl, rfl⟩ := by simpa using h
    rw [← hdrop, List.takeWhile_append_dropWhile]

/-- What is opened again around a block is empty, and of the kinds that were open. -/
theorem reopenBetween_spec (left : Nat) (between : List OpenElement) (fs : List FormattingElement)
    (nextId : Nat) :
    (∀ e ∈ (reopenBetween left between fs nextId).1,
      e.children = [] ∧ ∃ d ∈ between, e.kind = d.kind) ∧
    ∀ f ∈ (reopenBetween left between fs nextId).2.1, ∃ g ∈ fs, f.kind = g.kind := by
  fun_induction reopenBetween left between fs nextId with
  | case1 left fs nextId => exact ⟨by simp, fun f hf => ⟨f, hf, rfl⟩⟩
  | case2 left e outer fs nextId hactive renamed reopened formatting next hrec ih =>
    rw [hrec] at ih
    obtain ⟨hopen, hkinds⟩ := ih
    refine ⟨List.forall_mem_cons.mpr ⟨⟨rfl, e, List.mem_cons_self, rfl⟩, fun d hd => ?_⟩,
      fun f hf => ?_⟩
    · obtain ⟨hempty, g, hg, hkind⟩ := hopen d hd
      exact ⟨hempty, g, List.mem_cons_of_mem _ hg, hkind⟩
    · obtain ⟨g, hg, hkind⟩ := hkinds f hf
      obtain ⟨g₀, hg₀, rfl⟩ := List.mem_map.mp hg
      refine ⟨g₀, hg₀, hkind.trans ?_⟩
      split_ifs <;> rfl
  | case3 left e outer fs nextId hinactive ih =>
    obtain ⟨hopen, hkinds⟩ := ih
    refine ⟨fun d hd => ?_, fun f hf => ?_⟩
    · obtain ⟨hempty, g, hg, hkind⟩ := hopen d hd
      exact ⟨hempty, g, List.mem_cons_of_mem _ hg, hkind⟩
    · obtain ⟨g, hg, hkind⟩ := hkinds f hf
      exact ⟨g, (List.mem_filter.mp hg).1, hkind⟩

theorem mem_replaceFormatting {old : Nat} {after? : Option Nat} {new f : FormattingElement}
    {fs : List FormattingElement} (hf : f ∈ replaceFormatting old after? new fs) :
    f = new ∨ f ∈ fs := by
  unfold replaceFormatting at hf
  split at hf
  · obtain ⟨g, hg, rfl⟩ := List.mem_map.mp hf
    split_ifs
    · exact Or.inl rfl
    · exact Or.inr hg
  · obtain ⟨g, hg, hf⟩ := List.mem_flatMap.mp hf
    have hmem := (List.mem_filter.mp hg).1
    split_ifs at hf
    · rcases List.mem_cons.mp hf with rfl | hf
      · exact Or.inl rfl
      · exact Or.inr (List.mem_singleton.mp hf ▸ hmem)
    · exact Or.inr (List.mem_singleton.mp hf ▸ hmem)

/-- The open elements when an element has been split around a block: the block goes on with `copy`
inside it, around what was open in the block. -/
def resumed (before : Spine) (inner : List OpenElement) (copy block : OpenElement)
    (reopened : List OpenElement) : Spine :=
  { before with
    elements := inner ++ [copy, { block with children := [] }] ++ reopened ++ before.elements }

section Resumed

variable {before : Spine} {inner reopened : List OpenElement} {copy block : OpenElement}

theorem mem_finished_resumed (hcopy : copy.children = block.children)
    (hopened : ∀ d ∈ reopened, d.children = []) {x : Node} :
    x ∈ (resumed before inner copy block reopened).finished ↔
      (∃ d ∈ inner, x ∈ elementsAmong d.children) ∨ x ∈ elementsAmong block.children ∨
        x ∈ before.finished := by
  have hnone : ¬ ∃ d ∈ reopened, x ∈ elementsAmong d.children := by
    rintro ⟨d, hd, hx⟩
    rw [hopened d hd, elementsAmong] at hx
    exact absurd hx List.not_mem_nil
  obtain ⟨body, outer⟩ := before
  simp only [resumed, Spine.mem_finished_iff, List.mem_append, List.mem_cons, List.not_mem_nil,
    or_false, false_or, or_and_right, exists_or, exists_eq_left, hcopy, elementsAmong, hnone,
    or_assoc, or_left_comm]

theorem mem_openKinds_resumed {k : Kind} :
    k ∈ (resumed before inner copy block reopened).openKinds ↔
      (∃ d ∈ inner, d.kind = k) ∨ copy.kind = k ∨ block.kind = k ∨
        (∃ d ∈ reopened, d.kind = k) ∨ k ∈ before.openKinds := by
  simp only [resumed, Spine.openKinds, List.map_append, List.map_cons, List.map_nil,
    List.mem_append, List.mem_cons, List.not_mem_nil, or_false, List.mem_map, or_assoc]
  rw [eq_comm (a := k), eq_comm (a := k)]
  rfl

end Resumed

/-- **A formatting element is split around a block**: what it holds before the block is closed, and
the block goes on with an element of the same kind inside it. -/
theorem grows_splitAround (hb : b.Within allowed made) {f : FormattingElement}
    (hf : f ∈ b.formatting) {inner between outer : List OpenElement} {block e : OpenElement}
    (helements : b.spine.elements = inner ++ block :: (between ++ e :: outer)) :
    Grows allowed made b (b.splitAround f inner block between e outer) := by
  have hreopen := reopenBetween_spec maxReopened between b.formatting b.nextId
  unfold splitAround
  generalize reopenBetween maxReopened between b.formatting b.nextId = opened at hreopen
  obtain ⟨reopened, formatting, nextId⟩ := opened
  obtain ⟨hopened, hkinds⟩ := hreopen
  dsimp only at hopened hkinds ⊢
  have houter := Spine.openKinds_modifyChildren { b.spine with elements := outer }
    (closeChain [] (between ++ [e]) ++ ·)
  have hbefore : ∀ x, x ∈ ({ b.spine with elements := outer }.append
      (closeChain [] (between ++ [e]))).finished ↔ _ := fun x => Spine.mem_finished_append
  change Spine.openKinds ({ b.spine with elements := outer }.append
    (closeChain [] (between ++ [e]))) = _ at houter
  generalize { b.spine with elements := outer }.append (closeChain [] (between ++ [e])) = before
    at houter hbefore ⊢
  have hmem : ∀ d, d ∈ b.spine.elements ↔
      d ∈ inner ∨ d = block ∨ d ∈ between ++ [e] ∨ d ∈ outer := by
    intro d
    rw [helements]
    simp only [List.mem_append, List.mem_cons, List.not_mem_nil, or_false, or_assoc]
  have hallowed : ∀ d, d ∈ inner ∨ d = block ∨ d ∈ between ++ [e] ∨ d ∈ outer → allowed d.kind :=
    fun d hd => hb.of_mem_elements ((hmem d).mpr hd)
  have hfinished : ∀ x, x ∈ b.spine.finished ↔ x ∈ elementsAmong b.spine.body ∨
      ∃ d, (d ∈ inner ∨ d = block ∨ d ∈ between ++ [e] ∨ d ∈ outer) ∧
        x ∈ elementsAmong d.children := by
    intro x
    rw [Spine.mem_finished_iff]
    simp only [hmem]
  have hcopy : allowed f.kind := hb.of_mem_formatting hf
  let copy : OpenElement :=
    { id := nextId, tag := f.tag, attributes := f.attributes, children := block.children }
  have hresult := fun x =>
    @mem_finished_resumed before inner reopened copy block rfl (fun d hd => (hopened d hd).1) x
  have hkept := fun k => @mem_openKinds_resumed before inner reopened copy block k
  refine ⟨⟨fun k hk => ?_, fun x hx => ?_⟩, fun x hx => ?_, fun k hk => ?_, rfl, rfl⟩
  · rcases mem_knownKinds_iff.mp hk with hk | ⟨g, hg, rfl⟩
    · rcases (hkept k).mp hk with ⟨d, hd, rfl⟩ | rfl | rfl | ⟨d, hd, rfl⟩ | hk
      · exact hallowed d (Or.inl hd)
      · exact hcopy
      · exact hallowed block (Or.inr (Or.inl rfl))
      · obtain ⟨-, d₀, hd₀, hkind⟩ := hopened d hd
        rw [hkind]
        exact hallowed d₀ (Or.inr (Or.inr (Or.inl (List.mem_append_left _ hd₀))))
      · obtain ⟨d, hd, rfl⟩ := List.mem_map.mp (houter ▸ hk)
        exact hallowed d (Or.inr (Or.inr (Or.inr hd)))
    · rcases mem_replaceFormatting hg with rfl | hg
      · exact hcopy
      · obtain ⟨g₀, hg₀, hkind⟩ := hkinds g hg
        rw [hkind]
        exact hb.of_mem_formatting hg₀
  · rcases (hresult x).mp hx with ⟨d, hd, hx⟩ | hx | hx
    · exact hb.finished x ((hfinished x).mpr (Or.inr ⟨d, Or.inl hd, hx⟩))
    · exact hb.finished x ((hfinished x).mpr (Or.inr ⟨block, Or.inr (Or.inl rfl), hx⟩))
    · rcases (hbefore x).mp hx with hx | hx
      · rcases mem_elementsAmong_closeChain hx with hx | ⟨d, hd, hkind | hx⟩
        · exact absurd hx List.not_mem_nil
        · exact Or.inr ⟨d.kind, hallowed d (Or.inr (Or.inr (Or.inl hd))), hkind⟩
        · exact hb.finished x ((hfinished x).mpr (Or.inr ⟨d, Or.inr (Or.inr (Or.inl hd)), hx⟩))
      · rcases Spine.mem_finished_iff.mp hx with hx | ⟨d, hd, hx⟩
        · exact hb.finished x ((hfinished x).mpr (Or.inl hx))
        · exact hb.finished x ((hfinished x).mpr (Or.inr ⟨d, Or.inr (Or.inr (Or.inr hd)), hx⟩))
  · refine (hresult x).mpr ?_
    rw [hbefore, Spine.mem_finished_iff]
    rcases (hfinished x).mp hx with hx | ⟨d, hd | rfl | hd | hd, hx⟩
    · exact Or.inr (Or.inr (Or.inr (Or.inl hx)))
    · exact Or.inl ⟨d, hd, hx⟩
    · exact Or.inr (Or.inl hx)
    · exact Or.inr (Or.inr (Or.inl (mem_closeChain (Or.inr ⟨d, hd, hx⟩))))
    · exact Or.inr (Or.inr (Or.inr (Or.inr ⟨d, hd, hx⟩)))
  · obtain ⟨d, hd, rfl⟩ := List.mem_map.mp hk
    rcases (hmem d).mp hd with hd | rfl | hd | hd
    · exact Or.inl ((hkept _).mpr (Or.inl ⟨d, hd, rfl⟩))
    · exact Or.inl ((hkept _).mpr (Or.inr (Or.inr (Or.inl rfl))))
    · obtain ⟨x, hx, hkind⟩ := @exists_isOfKind_closeChain [] (between ++ [e]) d hd
      exact Or.inr ⟨x, (hresult x).mpr (Or.inr (Or.inr ((hbefore x).mpr (Or.inl hx)))), hkind⟩
    · refine Or.inl ((hkept _).mpr (Or.inr (Or.inr (Or.inr (Or.inr ?_)))))
      rw [houter]
      exact List.mem_map_of_mem hd

theorem grows_adoptUpTo (hb : b.Within allowed made) (n : Nat) (tag : Tag) :
    Grows allowed made b (b.adoptUpTo n tag) := by
  induction n generalizing b with
  | zero => exact .refl hb
  | succ n ih =>
    rw [adoptUpTo]
    split
    · exact grows_closeOrdinary hb tag
    · next f hfind =>
      split
      · exact grows_forget hb f.id
      · next inside e outer hopen =>
        split
        · have hclose := grows_popMany hb (inside.length + 1)
          exact hclose.trans (grows_forget hclose.within f.id)
        · next between block inner hblock =>
          have hinside : inside = inner.reverse ++ block :: between.reverse := by
            rw [← List.reverse_reverse inside, eq_of_splitAt? hblock]
            simp
          have helements : b.spine.elements =
              inner.reverse ++ block :: (between.reverse ++ e :: outer) := by
            rw [eq_of_splitAt? hopen, hinside]
            simp
          have hsplit := grows_splitAround hb (List.mem_of_find?_eq_some hfind) helements
          exact hsplit.trans (ih hsplit.within)

/-- **Closing a formatting element**, wherever it is open. -/
theorem grows_adopt (hb : b.Within allowed made) (tag : Tag) :
    Grows allowed made b (b.adopt tag) := by
  unfold adopt
  split
  · split_ifs
    · exact grows_pop hb
    · exact grows_adoptUpTo hb maxSplits tag
  · exact grows_adoptUpTo hb maxSplits tag

/-! ## Tokens -/

theorem grows_readChar (hb : b.Within allowed made) (c : Char) :
    Grows allowed made b (b.readChar c) := by
  unfold readChar
  split_ifs
  · exact .refl hb
  · have hopen := grows_reconstruct hb
    exact hopen.trans (grows_appendChar hopen.within c)

theorem grows_closeAnchor (hb : b.Within allowed made) :
    Grows allowed made b b.closeAnchor := by
  unfold closeAnchor
  split
  · have hadopt := grows_adopt hb .a
    exact hadopt.trans (grows_forget hadopt.within _)
  · exact .refl hb

/-- Whether a start tag brings an element of the body. -/
def IsInBody (tag : Tag) : Prop :=
  tag ≠ .html ∧ tag ≠ .head ∧ tag ≠ .body

/-- A start tag brings its element. -/
theorem grows_readStart (hb : b.Within allowed made) {tag : Tag} {attributes : List Attribute}
    (htag : IsInBody tag) (hk : allowed (tag, attributes)) :
    Grows allowed made b (b.readStart tag attributes) ∧
      (b.readStart tag attributes).Has (tag, attributes) := by
  cases tag with
  | html => exact absurd rfl htag.1
  | head => exact absurd rfl htag.2.1
  | body => exact absurd rfl htag.2.2
  | div | dl | p =>
    have hclose := grows_closeThrough hb .p
    exact ⟨hclose.trans (grows_push hclose.within hk), Or.inl List.mem_cons_self⟩
  | h1 | h2 =>
    have hclose := grows_closeThrough hb .p
    have hheading := grows_closeHeading hclose.within
    exact ⟨(hclose.trans hheading).trans (grows_push hheading.within hk),
      Or.inl List.mem_cons_self⟩
  | pre =>
    have hclose := grows_closeThrough hb .p
    have hpush := grows_push hclose.within hk
    exact ⟨(hclose.trans hpush).trans (grows_of_spine_eq hpush.within rfl rfl rfl fun f hf =>
      hpush.within.of_mem_formatting hf), Or.inl List.mem_cons_self⟩
  | dd | dt =>
    have hdefinition := grows_closeDefinition hb
    have hclose := grows_closeThrough hdefinition.within .p
    exact ⟨(hdefinition.trans hclose).trans (grows_push hclose.within hk),
      Or.inl List.mem_cons_self⟩
  | a =>
    have hclose := grows_closeAnchor hb
    have hopen := grows_reconstruct hclose.within
    exact ⟨(hclose.trans hopen).trans (grows_pushFormatting hopen.within hk),
      Or.inl List.mem_cons_self⟩
  | b | i =>
    have hopen := grows_reconstruct hb
    exact ⟨hopen.trans (grows_pushFormatting hopen.within hk), Or.inl List.mem_cons_self⟩
  | br =>
    have hopen := grows_reconstruct hb
    refine ⟨hopen.trans (grows_appendVoid hopen.within hk),
      Or.inr ⟨.element .br attributes [], ?_, [], rfl⟩⟩
    exact Spine.mem_finished_append.mpr (Or.inl (by simp [elementsAmong, elementsIn]))
  | other name =>
    have hopen := grows_reconstruct hb
    exact ⟨hopen.trans (grows_push hopen.within hk), Or.inl List.mem_cons_self⟩

/-- Two end tags can bring an element by themselves. -/
theorem grows_readEnd (hb : b.Within allowed made) (hp : allowed (.p, [])) (hbr : allowed (.br, []))
    (tag : Tag) : Grows allowed made b (b.readEnd tag) := by
  cases tag with
  | html | body | head => exact .refl hb
  | div | dl | pre | dd | dt => exact grows_closeThrough hb _
  | p =>
    rw [readEnd]
    split_ifs
    · exact grows_closeThrough hb .p
    · exact grows_appendVoid hb hp
  | h1 | h2 => exact grows_popMany hb _
  | a | b | i => exact grows_adopt hb _
  | br =>
    have hopen := grows_reconstruct hb
    exact hopen.trans (grows_appendVoid hopen.within hbr)
  | other name => exact grows_closeOrdinary hb _

/-- Whether a token brings an element of the body of an allowed kind, if it brings one. -/
def Allows (allowed : Kind → Prop) : Token → Prop
  | .startTag tag attributes => IsInBody tag ∧ allowed (tag, attributes)
  | _ => True

/-- **Reading a token.** -/
theorem grows_token (hb : b.Within allowed made) (hp : allowed (.p, [])) (hbr : allowed (.br, []))
    {t : Token} (ht : Allows allowed t) : Grows allowed made b (b.token t) := by
  unfold token
  dsimp only
  have hreset : Grows allowed made b { b with dropsNewline := false } :=
    grows_of_spine_eq hb rfl rfl rfl fun f hf => hb.of_mem_formatting hf
  cases t with
  | char c =>
    dsimp only
    split_ifs
    · exact hreset
    · exact hreset.trans (grows_readChar hreset.within c)
  | startTag tag attributes => exact hreset.trans (grows_readStart hreset.within ht.1 ht.2).1
  | endTag tag => exact hreset.trans (grows_readEnd hreset.within hp hbr tag)

/-- **Reading tokens.** Every start tag brings its element, and it is still there in the end. -/
theorem grows_foldl_token (hb : b.Within allowed made) (hp : allowed (.p, []))
    (hbr : allowed (.br, [])) {ts : List Token} (hts : ∀ t ∈ ts, Allows allowed t) :
    Grows allowed made b (ts.foldl token b) ∧
      ∀ tag attributes, .startTag tag attributes ∈ ts →
        (ts.foldl token b).Has (tag, attributes) := by
  induction ts generalizing b with
  | nil => exact ⟨.refl hb, by simp⟩
  | cons t ts ih =>
    obtain ⟨ht, hrest⟩ := List.forall_mem_cons.mp hts
    have hfirst := grows_token hb hp hbr ht
    obtain ⟨hlater, hhas⟩ := ih hfirst.within hrest
    refine ⟨hfirst.trans hlater, fun tag attributes hmem => ?_⟩
    rcases List.mem_cons.mp hmem with rfl | hmem
    · have hreset : Grows allowed made b { b with dropsNewline := false } :=
        grows_of_spine_eq hb rfl rfl rfl fun f hf => hb.of_mem_formatting hf
      exact hlater.has (grows_readStart hreset.within ht.1 ht.2).2
    · exact hhas tag attributes hmem

theorem grows_beforeFormatting (hb : b.Within allowed made) (tag : Tag) :
    Grows allowed made b (b.beforeFormatting tag) := by
  have hreset : Grows allowed made b { b with dropsNewline := false } :=
    grows_of_spine_eq hb rfl rfl rfl fun f hf => hb.of_mem_formatting hf
  unfold beforeFormatting
  dsimp only
  split_ifs
  · have hclose := grows_closeAnchor hreset.within
    exact (hreset.trans hclose).trans (grows_reconstruct hclose.within)
  · exact hreset.trans (grows_reconstruct hreset.within)

/-- **Reading a piece of formatted text** completes its element, of a kind that need not be allowed
to stay open. -/
theorem grows_formatted (hb : b.Within allowed made) {tag : Tag} (htag : IsFormatting tag)
    {attributes : List Attribute} {cs : List Char} (hcs : '\x00' ∉ cs)
    (hmade : made (.element tag attributes (textNodes cs))) :
    Grows allowed made b
        ((.startTag tag attributes :: (cs.map Token.char ++ [.endTag tag])).foldl token b) ∧
      .element tag attributes (textNodes cs) ∈
        ((.startTag tag attributes :: (cs.map Token.char ++ [.endTag tag])).foldl token
          b).spine.finished := by
  have hready := grows_beforeFormatting hb tag
  have hone : ∀ x, x ∈ elementsAmong [.element tag attributes (textNodes cs)] ↔
      x = .element tag attributes (textNodes cs) := by
    intro x
    unfold textNodes
    split_ifs
    · simp [elementsAmong, elementsIn]
    · simp [elementsAmong, elementsIn]
  rw [foldl_token_formatted htag hcs]
  refine ⟨?_, Spine.mem_finished_append.mpr (Or.inl ((hone _).mpr rfl))⟩
  have happend := grows_append hready.within
    (fun x hx => Or.inl ((hone x).mp hx ▸ hmade) :
      ∀ x ∈ elementsAmong [.element tag attributes (textNodes cs)],
        made x ∨ ∃ k, allowed k ∧ x.IsOfKind k)
  refine (hready.trans happend).trans (grows_of_spine_eq happend.within rfl rfl rfl fun f hf => ?_)
  exact hready.within.of_mem_formatting (mem_of_mem_makeRoom (List.mem_filter.mp hf).1)

/-! ## Complete bodies -/

theorem mem_finished_popMany_iff {x : Node} :
    x ∈ (b.spine.popMany b.spine.elements.length).finished ↔
      x ∈ elementsAmong b.spine.complete := by
  rw [Spine.complete, mem_elementsAmong_reverse, Spine.finished, Spine.elements_popMany_length,
    List.flatMap_nil, List.append_nil]

/-- **The elements of a complete body**: those that were complete or open before, and no others. -/
theorem elements_complete (hb : b.Within allowed made) :
    (∀ x ∈ elementsAmong b.spine.complete, made x ∨ ∃ k, allowed k ∧ x.IsOfKind k) ∧
      (∀ x ∈ b.spine.finished, x ∈ elementsAmong b.spine.complete) ∧
      ∀ k, b.Has k → ∃ x ∈ elementsAmong b.spine.complete, x.IsOfKind k := by
  have hclose := grows_popMany hb b.spine.elements.length
  refine ⟨fun x hx => ?_, fun x hx => ?_, fun k hk => ?_⟩
  · exact hclose.within.finished x (mem_finished_popMany_iff.mpr hx)
  · exact mem_finished_popMany_iff.mp (hclose.kept x hx)
  · rcases hclose.has hk with hk | ⟨x, hx, hkind⟩
    · rw [onSpine, Spine.openKinds, Spine.elements_popMany_length] at hk
      exact absurd hk List.not_mem_nil
    · exact ⟨x, mem_finished_popMany_iff.mp hx, hkind⟩

end Manpage.Html.Builder
