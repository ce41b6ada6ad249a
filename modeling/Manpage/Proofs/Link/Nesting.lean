import Manpage.Proofs.Link.Anchors

/-!
# Nested anchors

When option links put anchors into anchors. A mention in an anchor or in a definition is left alone,
so it is never the inner one. But definitions are linked wherever they stand, and a mention is
linked without regard for what it contains, so bold text in bold text can give an anchor in an
anchor.

## Main definitions

* `NoneNested`: documents in which no element of a kind lies in another one
* `GetsAnchor`: the elements around which an anchor is added
* `AnchorsApart`: documents without nested anchors, by recursion on the document

## Main results

* `chosenAnchor_isSome_iff`: which elements get an anchor
* `anchorsApartAmong_results_iff`: when added anchors are nested
* `noneNested_linkOptions_iff`: when option links are nested
-/

namespace Manpage.Link

open Html (Node Tag Attribute)

/-! ## Elements in elements -/

/-- Whether an element lies in another one. -/
def LiesIn (p q : Path) : Prop :=
  q <:+ p ∧ q ≠ p

/-- Whether a path leads to an anchor. -/
def IsAnchor : Path → Prop
  | [] => False
  | level :: _ => level.tag = .a

/-- Whether none of the marked elements lies in another one. -/
def NoneNested (mark : Path → Prop) (nodes : List Node) : Prop :=
  ∀ p ∈ paths nodes, mark p → ∀ q, LiesIn p q → ¬ mark q

theorem liesIn_cons_iff {level : Level} {above q : Path} :
    LiesIn (level :: above) q ↔ q <:+ above := by
  rw [LiesIn, List.suffix_cons_iff]
  constructor
  · rintro ⟨rfl | h, hne⟩
    · exact absurd rfl hne
    · exact h
  · intro h
    refine ⟨Or.inr h, ?_⟩
    rintro rfl
    have := h.length_le
    rw [List.length_cons] at this
    omega

/-! ## The elements that get an anchor -/

/-- Whether a path leads to a definition. -/
def IsDefinition (p : Path) : Prop :=
  IsTerm p ∧ IsOptionText (textAt p)

/-- Whether a path leads to bold text that says an option of the document. -/
def IsMention (nodes : List Node) : Path → Prop
  | [] => False
  | level :: above => level.tag = .b ∧ textAt (level :: above) ∈ definedOptions nodes

/-- Whether an anchor is added around the element that a path leads to: it is a definition, or a
mention that lies in no anchor and in no definition. -/
def GetsAnchor (nodes : List Node) (p : Path) : Prop :=
  IsDefinition p ∨
    IsMention nodes p ∧ ∀ q, LiesIn p q → ¬ IsAnchor q ∧ ¬ IsDefinition q

theorem definedAt?_isSome_iff {p : Path} : (definedAt? p).isSome ↔ IsDefinition p := by
  rw [Option.isSome_iff_exists, IsDefinition]
  constructor
  · rintro ⟨option, h⟩
    obtain ⟨hterm, rfl, hoption⟩ := definedAt?_eq_some_iff.mp h
    exact ⟨hterm, hoption⟩
  · rintro ⟨hterm, hoption⟩
    exact ⟨_, definedAt?_eq_some_iff.mpr ⟨hterm, rfl, hoption⟩⟩

theorem sheltered_iff {p : Path} :
    sheltered p ↔ ∃ q, q <:+ p ∧ (IsAnchor q ∨ IsDefinition q) := by
  induction p with
  | nil => simp [sheltered, IsAnchor, IsDefinition, IsTerm]
  | cons level above ih =>
    rw [sheltered, Bool.or_eq_true, Bool.or_eq_true, definedAt?_isSome_iff, ih, beq_iff_eq]
    constructor
    · rintro (h | ⟨q, hq, h⟩ | h)
      · exact ⟨_, List.suffix_rfl, Or.inr h⟩
      · exact ⟨q, hq.trans (List.suffix_cons _ _), h⟩
      · exact ⟨_, List.suffix_rfl, Or.inl h⟩
    · rintro ⟨q, hq, h⟩
      rcases List.suffix_cons_iff.mp hq with rfl | hq
      · exact h.elim (fun h => Or.inr (Or.inr h)) Or.inl
      · exact Or.inr (Or.inl ⟨q, hq, h⟩)

/-- **Which elements get an anchor.** -/
theorem chosenAnchor_isSome_iff {nodes : List Node} {p : Path} :
    (chosenAnchor (definitions nodes).reverse p).isSome ↔ GetsAnchor nodes p := by
  cases p with
  | nil => simp [chosenAnchor, GetsAnchor, IsDefinition, IsTerm, IsMention]
  | cons level above =>
    rw [chosenAnchor, GetsAnchor, ← definedAt?_isSome_iff]
    have hfree : (∀ q, LiesIn (level :: above) q → ¬ IsAnchor q ∧ ¬ IsDefinition q) ↔
        ¬ sheltered above := by
      rw [sheltered_iff]
      simp only [liesIn_cons_iff, not_exists, not_and, not_or]
    have hmention : (mentionedOption? (definitions nodes).reverse level.tag level.children).isSome ↔
        IsMention nodes (level :: above) := by
      rw [Option.isSome_iff_exists, IsMention, textAt]
      simp only [mentionedOption?_eq_some_iff]
      constructor
      · rintro ⟨option, htag, rfl, h⟩
        exact ⟨htag, h⟩
      · rintro ⟨htag, h⟩
        exact ⟨_, htag, rfl, h⟩
    rw [hfree, ← hmention]
    cases definedAt? (level :: above) with
    | some option => simp
    | none => cases sheltered above <;> simp

/-! ## Documents without nested anchors -/

mutual

/-- Whether the anchors in a node do not lie in one another, and there are none if the node lies
`inside` one. -/
def AnchorsApart (inside : Prop) : Node → Prop
  | .text _ => True
  | .element tag _ children =>
    (tag = .a → ¬ inside) ∧ AnchorsApartAmong (inside ∨ tag = .a) children

/-- Whether the anchors in nodes do not lie in one another. -/
def AnchorsApartAmong (inside : Prop) : List Node → Prop
  | [] => True
  | node :: nodes => AnchorsApart inside node ∧ AnchorsApartAmong inside nodes

end

section Choice

variable (choose : Path → Option (List Attribute))

/-- Whether an element is an anchor or is put into one. -/
def IsMarked (p : Path) : Prop :=
  IsAnchor p ∨ (choose p).isSome

/-- Whether a path leads to a marked element or goes through one. -/
def HasMarked (p : Path) : Prop :=
  ∃ q, q <:+ p ∧ IsMarked choose q

theorem hasMarked_cons {level : Level} {above : Path} :
    HasMarked choose (level :: above) ↔
      HasMarked choose above ∨ IsMarked choose (level :: above) := by
  simp only [HasMarked, List.suffix_cons_iff, or_and_right, exists_or, exists_eq_left]
  exact or_comm

mutual

/-- The anchors around a node are apart exactly if no marked element in it lies in another one, be
that in the node or on the path above. -/
theorem anchorsApart_anchorIn (hchoose : ∀ p, (choose p).isSome → ¬ IsAnchor p) (above : Path)
    (index : Nat) :
    ∀ node : Node,
      AnchorsApart (HasMarked choose above) (anchorIn choose above index node).result ↔
        ∀ p ∈ pathsIn above index node, IsMarked choose p → ∀ q, LiesIn p q →
          ¬ IsMarked choose q
  | .text _ => by simp [anchorIn, Linked.result, AnchorsApart, pathsIn]
  | .element tag attributes children => by
    have ih := anchorsApartAmong_anchorAmong hchoose (⟨index, tag, attributes, children⟩ :: above)
      0 children
    have hmarked : HasMarked choose (⟨index, tag, attributes, children⟩ :: above) ↔
        HasMarked choose above ∨ IsMarked choose (⟨index, tag, attributes, children⟩ :: above) :=
      hasMarked_cons choose
    have houter : (∀ q, LiesIn (⟨index, tag, attributes, children⟩ :: above) q →
        ¬ IsMarked choose q) ↔ ¬ HasMarked choose above := by
      simp only [liesIn_cons_iff, HasMarked, not_exists, not_and]
    rw [pathsIn, List.forall_mem_cons, ← ih, houter, hmarked, anchorIn]
    cases hchosen : choose (⟨index, tag, attributes, children⟩ :: above) with
    | none =>
      have hself : IsMarked choose (⟨index, tag, attributes, children⟩ :: above) ↔ tag = .a := by
        simp [IsMarked, hchosen, IsAnchor]
      rw [hself]
      rfl
    | some chosen =>
      have hself : IsMarked choose (⟨index, tag, attributes, children⟩ :: above) :=
        Or.inr (by rw [hchosen]; rfl)
      have htag : tag ≠ .a :=
        hchoose (⟨index, tag, attributes, children⟩ :: above) (by rw [hchosen]; rfl)
      simp [Linked.result, AnchorsApart, AnchorsApartAmong, hself, htag]

theorem anchorsApartAmong_anchorAmong (hchoose : ∀ p, (choose p).isSome → ¬ IsAnchor p)
    (above : Path) (index : Nat) :
    ∀ nodes : List Node,
      AnchorsApartAmong (HasMarked choose above)
          (Linked.results (anchorAmong choose above index nodes)) ↔
        ∀ p ∈ pathsAmong above index nodes, IsMarked choose p → ∀ q, LiesIn p q →
          ¬ IsMarked choose q
  | [] => by simp [anchorAmong, Linked.results, AnchorsApartAmong, pathsAmong]
  | node :: nodes => by
    rw [anchorAmong, Linked.results, AnchorsApartAmong, pathsAmong, List.forall_mem_append,
      anchorsApart_anchorIn hchoose above index node,
      anchorsApartAmong_anchorAmong hchoose above (index + 1) nodes]

end

/-- **When added anchors are nested**: there is no anchor in an anchor exactly if no element that is
an anchor or is put into one lies in another such element. -/
theorem anchorsApartAmong_results_iff (hchoose : ∀ p, (choose p).isSome → ¬ IsAnchor p)
    (hnil : choose [] = none) (nodes : List Node) :
    AnchorsApartAmong False (Linked.results (anchorAmong choose [] 0 nodes)) ↔
      NoneNested (IsMarked choose) nodes := by
  have hnone : HasMarked choose [] ↔ False := by
    simp [HasMarked, IsMarked, IsAnchor, hnil]
  rw [← hnone]
  exact anchorsApartAmong_anchorAmong choose hchoose [] 0 nodes

end Choice

mutual

theorem result_anchorIn_none (above : Path) (index : Nat) :
    ∀ node : Node, (anchorIn (fun _ => none) above index node).result = node
  | .text _ => rfl
  | .element tag attributes children => by
    have ih := results_anchorAmong_none (⟨index, tag, attributes, children⟩ :: above) 0 children
    rw [anchorIn, Linked.result, ih]

theorem results_anchorAmong_none (above : Path) (index : Nat) :
    ∀ nodes : List Node, Linked.results (anchorAmong (fun _ => none) above index nodes) = nodes
  | [] => rfl
  | node :: nodes => by
    rw [anchorAmong, Linked.results, result_anchorIn_none above index node,
      results_anchorAmong_none above (index + 1) nodes]

end

/-- No anchor lies in another one exactly if a walk through the document meets none in another. -/
theorem noneNested_isAnchor_iff (nodes : List Node) :
    NoneNested IsAnchor nodes ↔ AnchorsApartAmong False nodes := by
  have h := anchorsApartAmong_results_iff (fun _ => none) (by simp) rfl nodes
  have hmarked : IsMarked (fun _ => none) = IsAnchor := by
    ext p
    simp [IsMarked]
  rw [results_anchorAmong_none, hmarked] at h
  exact h.symm

/-! ## Option links -/

/-- An anchor in the document gets no anchor. -/
theorem not_isAnchor_of_getsAnchor {nodes : List Node} {p : Path} (h : GetsAnchor nodes p) :
    ¬ IsAnchor p := by
  intro hanchor
  cases p with
  | nil => exact hanchor
  | cons level above =>
    have htag : level.tag = .b := by
      rcases h with ⟨hterm, -⟩ | ⟨hmention, -⟩
      · exact (isTerm_cons_iff.mp hterm).1
      · exact hmention.1
    exact absurd (htag.symm.trans hanchor) (by decide)

/-- **When option links are nested.** A document with its option links has no anchor in an anchor
exactly if it has none before, no element that is linked contains an anchor or another element that
is linked, and no definition lies in an anchor. -/
theorem noneNested_linkOptions_iff (nodes : List Node) :
    NoneNested IsAnchor (linkOptions nodes) ↔
      NoneNested IsAnchor nodes ∧ ∀ p ∈ paths nodes, ∀ q, LiesIn p q →
        (GetsAnchor nodes q → ¬ IsAnchor p ∧ ¬ GetsAnchor nodes p) ∧
        (IsAnchor q → ¬ IsDefinition p) := by
  have hmarked : ∀ p, IsMarked (chosenAnchor (definitions nodes).reverse) p ↔
      IsAnchor p ∨ GetsAnchor nodes p := fun p => or_congr_right chosenAnchor_isSome_iff
  have hapart := anchorsApartAmong_results_iff (chosenAnchor (definitions nodes).reverse)
    (fun p h => not_isAnchor_of_getsAnchor (chosenAnchor_isSome_iff.mp h)) rfl nodes
  rw [noneNested_isAnchor_iff, ← results_linkedNodes, linkedNodes, hapart]
  constructor
  · intro h
    refine ⟨fun p hp hanchor q hq hqanchor => ?_, fun p hp q hq => ⟨fun hgets => ?_, ?_⟩⟩
    · exact h p hp (Or.inl hanchor) q hq (Or.inl hqanchor)
    · have hqmarked := (hmarked q).mpr (Or.inr hgets)
      exact ⟨fun hanchor => h p hp (Or.inl hanchor) q hq hqmarked,
        fun hgets => h p hp ((hmarked p).mpr (Or.inr hgets)) q hq hqmarked⟩
    · intro hanchor hdefinition
      exact h p hp ((hmarked p).mpr (Or.inr (Or.inl hdefinition))) q hq (Or.inl hanchor)
  · rintro ⟨hbefore, hlinked⟩ p hp hpmarked q hq hqmarked
    rcases (hmarked q).mp hqmarked with hanchor | hgets
    · rcases (hmarked p).mp hpmarked with hpanchor | hdefinition | ⟨-, hfree⟩
      · exact hbefore p hp hpanchor q hq hanchor
      · exact (hlinked p hp q hq).2 hanchor hdefinition
      · exact (hfree q hq).1 hanchor
    · rcases (hmarked p).mp hpmarked with hpanchor | hpgets
      · exact ((hlinked p hp q hq).1 hgets).1 hpanchor
      · exact ((hlinked p hp q hq).1 hgets).2 hpgets

/-- Bold text in bold text that says a defined option gives an anchor in an anchor, in a document
that has none before. -/
theorem nested_linkOptions_bold_in_bold :
    NoneNested IsAnchor [.element .dl [] [.element .dt [] [.element .b [] [.text "-a"]]],
      .element .b [] [.element .b [] [.text "-a"]]] ∧
    ¬ NoneNested IsAnchor (linkOptions
      [.element .dl [] [.element .dt [] [.element .b [] [.text "-a"]]],
        .element .b [] [.element .b [] [.text "-a"]]]) := by
  have hlinked : linkOptions [.element .dl [] [.element .dt [] [.element .b [] [.text "-a"]]],
      .element .b [] [.element .b [] [.text "-a"]]] =
      [.element .dl [] [.element .dt []
        [anchor "-a".toList true (.element .b [] [.text "-a"])]],
        anchor "-a".toList false (.element .b []
          [anchor "-a".toList false (.element .b [] [.text "-a"])])] := by
    rfl
  rw [hlinked, noneNested_isAnchor_iff, noneNested_isAnchor_iff]
  constructor
  · simp [AnchorsApartAmong, AnchorsApart]
  · simp [AnchorsApartAmong, AnchorsApart, anchor]

end Manpage.Link
