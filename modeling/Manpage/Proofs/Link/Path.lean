import Manpage.Link.Option
import Mathlib.Data.List.Basic
import Mathlib.Data.List.Infix

/-!
# Paths to the elements of a document

An element of a document together with the elements that it lies in. The definitions that are
collected while a document is walked are those that a selector for bold text in the terms of
definition lists would pick out, in document order, and no two elements have one position.

## Main definitions

* `Path`: an element and the elements that it lies in
* `paths`: the paths to the elements of a document, in document order
* `definedAt?`: the option that an element defines

## Main results

* `definedAt?_eq_some_iff`: what a definition is
* `definitions_eq`: the collected definitions are those of the elements, in document order
* `nodup_position_paths`: elements are told apart by their positions
-/

namespace Manpage.Link

open Html (Node Tag Attribute)

/-- Options are compared as lists of characters. With an instance of its own, whether an option is
among others is decided the same way wherever it is asked. -/
instance lawfulBEqOption : LawfulBEq (List Char) :=
  inferInstance

/-- An element and its index among its siblings. -/
structure Level where
  index : Nat
  tag : Tag
  attributes : List Attribute
  children : List Node

/-- The path to an element: the element itself, then the elements that it lies in, the innermost
first. -/
abbrev Path := List Level

/-- The position of the element that a path leads to. -/
def position (path : Path) : Position :=
  path.map Level.index

mutual

/-- The paths to the elements of a node that lies at the end of the path `above`. -/
def pathsIn (above : Path) (index : Nat) : Node → List Path
  | .text _ => []
  | .element tag attributes children =>
    (⟨index, tag, attributes, children⟩ :: above) ::
      pathsAmong (⟨index, tag, attributes, children⟩ :: above) 0 children

/-- The paths to the elements among the children of an element from a given index on. -/
def pathsAmong (above : Path) (index : Nat) : List Node → List Path
  | [] => []
  | node :: nodes => pathsIn above index node ++ pathsAmong above (index + 1) nodes

end

/-- The paths to the elements of a document, in document order. -/
def paths (nodes : List Node) : List Path :=
  pathsAmong [] 0 nodes

/-! ## Positions -/

mutual

theorem suffix_of_mem_pathsIn {above p : Path} {index : Nat} :
    ∀ {node : Node}, p ∈ pathsIn above index node → index :: position above <:+ position p
  | .text _, h => absurd h List.not_mem_nil
  | .element tag attributes children, h => by
    rcases List.mem_cons.mp h with rfl | h
    · exact List.suffix_refl _
    · obtain ⟨i, -, hsuffix⟩ := suffix_of_mem_pathsAmong h
      exact (List.suffix_cons i _).trans hsuffix

theorem suffix_of_mem_pathsAmong {above p : Path} {index : Nat} :
    ∀ {nodes : List Node}, p ∈ pathsAmong above index nodes →
      ∃ i, index ≤ i ∧ i :: position above <:+ position p
  | [], h => absurd h List.not_mem_nil
  | node :: nodes, h => by
    rcases List.mem_append.mp h with h | h
    · exact ⟨index, Nat.le_refl _, suffix_of_mem_pathsIn h⟩
    · obtain ⟨i, hi, hsuffix⟩ := suffix_of_mem_pathsAmong h
      exact ⟨i, Nat.le_of_succ_le hi, hsuffix⟩

end

mutual

theorem nodup_position_pathsIn (above : Path) (index : Nat) :
    ∀ node : Node, ((pathsIn above index node).map position).Nodup
  | .text _ => List.nodup_nil
  | .element tag attributes children => by
    rw [pathsIn, List.map_cons, List.nodup_cons]
    refine ⟨fun hmem => ?_, nodup_position_pathsAmong _ 0 children⟩
    obtain ⟨p, hp, heq⟩ := List.mem_map.mp hmem
    obtain ⟨i, -, hsuffix⟩ := suffix_of_mem_pathsAmong hp
    have hlength := hsuffix.length_le
    rw [heq, List.length_cons] at hlength
    omega

theorem nodup_position_pathsAmong (above : Path) (index : Nat) :
    ∀ nodes : List Node, ((pathsAmong above index nodes).map position).Nodup
  | [] => List.nodup_nil
  | node :: nodes => by
    rw [pathsAmong, List.map_append, List.nodup_append]
    refine ⟨nodup_position_pathsIn above index node,
      nodup_position_pathsAmong above (index + 1) nodes, ?_⟩
    rintro x hx y hy rfl
    obtain ⟨p, hp, rfl⟩ := List.mem_map.mp hx
    obtain ⟨q, hq, heq⟩ := List.mem_map.mp hy
    obtain ⟨i, hi, hsuffix⟩ := suffix_of_mem_pathsAmong hq
    rw [heq] at hsuffix
    have hsame := List.suffix_of_suffix_length_le (suffix_of_mem_pathsIn hp) hsuffix (by simp)
    obtain ⟨rfl, -⟩ := List.cons.inj (hsame.eq_of_length (by simp))
    omega

end

/-- **Elements are told apart by their positions.** -/
theorem nodup_position_paths (nodes : List Node) : ((paths nodes).map position).Nodup :=
  nodup_position_pathsAmong [] 0 nodes

/-- What is found at some of the elements has their positions, in the same order. -/
theorem map_filterMap_sublist {α : Type} {found : Path → Option α} {origin : α → Position}
    (h : ∀ p x, found p = some x → origin x = position p) (ps : List Path) :
    ((ps.filterMap found).map origin).Sublist (ps.map position) := by
  induction ps with
  | nil => exact List.Sublist.refl _
  | cons p ps ih =>
    rw [List.filterMap_cons, List.map_cons]
    cases hfound : found p with
    | none => exact ih.cons _
    | some x =>
      rw [List.map_cons, h p x hfound]
      exact ih.cons_cons _

/-! ## Terms and options -/

/-- The text of the element that a path leads to, without the blanks at its ends. -/
def textAt : Path → List Char
  | [] => []
  | level :: _ => trimmedText level.children

/-- Whether a path leads to a `b` element directly in a `dt` element directly in a `dl` element. -/
def IsTerm : Path → Prop
  | bold :: term :: list :: _ => bold.tag = .b ∧ term.tag = .dt ∧ list.tag = .dl
  | _ => False

theorem isTerm_cons_iff {bold : Level} {above : Path} :
    IsTerm (bold :: above) ↔ bold.tag = .b ∧
      ∃ term list up, above = term :: list :: up ∧ term.tag = .dt ∧ list.tag = .dl := by
  rcases above with - | ⟨term, - | ⟨list, up⟩⟩
  · simp [IsTerm]
  · simp [IsTerm]
  · simp [IsTerm]

/-- Whether a text is one dash or two, followed by letters, equals signs and dashes, at least
one. -/
def IsOptionText (text : List Char) : Prop :=
  ∃ cs : List Char, cs ≠ [] ∧
    (∀ c ∈ cs, ('a' ≤ c ∧ c ≤ 'z') ∨ ('A' ≤ c ∧ c ≤ 'Z') ∨ c = '=' ∨ c = '-') ∧
    (text = '-' :: cs ∨ text = '-' :: '-' :: cs)

theorem isOptionChar_iff {c : Char} :
    isOptionChar c ↔ ('a' ≤ c ∧ c ≤ 'z') ∨ ('A' ≤ c ∧ c ≤ 'Z') ∨ c = '=' ∨ c = '-' := by
  have hletter : c.isAlpha = (decide (c.val ≥ 'A'.val ∧ c.val ≤ 'Z'.val) ||
      (decide (c.val ≥ 'a'.val) && decide (c.val ≤ 'z'.val))) := rfl
  simp only [isOptionChar, hletter, Bool.or_eq_true, Bool.and_eq_true, decide_eq_true_eq,
    beq_iff_eq, Char.le_def, ge_iff_le, or_assoc]
  exact or_left_comm

/-- The form of an option allows a second dash. -/
theorem isOption_iff {text : List Char} : isOption text ↔ IsOptionText text := by
  constructor
  · intro h
    unfold isOption at h
    split at h
    · next c cs =>
      exact ⟨c :: cs, List.cons_ne_nil _ _,
        fun d hd => isOptionChar_iff.mp (List.all_eq_true.mp h d hd), Or.inl rfl⟩
    · exact absurd h Bool.false_ne_true
  · rintro ⟨cs, hne, hcs, htext⟩
    have hall : cs.all isOptionChar := List.all_eq_true.mpr fun d hd =>
      isOptionChar_iff.mpr (hcs d hd)
    obtain ⟨c, cs, rfl⟩ := List.exists_cons_of_ne_nil hne
    rcases htext with rfl | rfl
    · exact hall
    · rw [isOption, List.all_cons, hall]
      rfl

/-! ### Characters of options -/

/-- What holds of the characters of options, they being ASCII, can be checked one by one. -/
theorem of_isOptionChar {p : Char → Bool}
    (h : ∀ n : Fin 128, isOptionChar (Char.ofNat n) → p (Char.ofNat n)) {c : Char}
    (hc : isOptionChar c) : p c := by
  have hascii : c.toNat < 128 := by
    rcases isOptionChar_iff.mp hc with ⟨-, hle⟩ | ⟨-, hle⟩ | rfl | rfl
    · exact Nat.lt_of_le_of_lt (UInt32.le_iff_toNat_le.mp hle) (by decide)
    · exact Nat.lt_of_le_of_lt (UInt32.le_iff_toNat_le.mp hle) (by decide)
    · decide
    · decide
  have hall := h ⟨c.toNat, hascii⟩
  rw [Char.ofNat_toNat] at hall
  exact hall hc

theorem isBlank_of_isOptionChar {c : Char} (hc : isOptionChar c) : Text.isBlank c = false := by
  have h : (!Text.isBlank c) = true :=
    of_isOptionChar (p := fun c => !Text.isBlank c) (by decide) hc
  simpa using h

theorem ne_of_isOptionChar {c d : Char} (hc : isOptionChar c) (hd : isOptionChar d = false) :
    c ≠ d := by
  rintro rfl
  rw [hd] at hc
  exact Bool.false_ne_true hc

theorem isOptionChar_of_mem {option : List Char} (h : IsOptionText option) :
    ∀ c ∈ option, isOptionChar c := by
  obtain ⟨cs, -, hcs, htext⟩ := h
  have hall : ∀ c ∈ cs, isOptionChar c := fun c hc => isOptionChar_iff.mpr (hcs c hc)
  rcases htext with rfl | rfl
  · exact List.forall_mem_cons.mpr ⟨by decide, hall⟩
  · exact List.forall_mem_cons.mpr ⟨by decide, List.forall_mem_cons.mpr ⟨by decide, hall⟩⟩

/-! ## Definitions -/

/-- Where the children of an element stand. -/
def placeBelow : Path → Place
  | [] => .elsewhere
  | level :: above => (placeBelow above).inside level.tag

/-- The option that an element defines, if it is a definition. -/
def definedAt? : Path → Option (List Char)
  | [] => none
  | level :: above => definedOption? (placeBelow above) level.tag level.children

theorem placeBelow_eq_inList_iff {p : Path} :
    placeBelow p = .inList ↔ ∃ list above, p = list :: above ∧ list.tag = .dl := by
  cases p with
  | nil => simp [placeBelow]
  | cons list above =>
    simp only [placeBelow, Place.inside, List.cons.injEq]
    split <;> simp_all

theorem placeBelow_eq_inTerm_iff {p : Path} :
    placeBelow p = .inTerm ↔
      ∃ term list above, p = term :: list :: above ∧ term.tag = .dt ∧ list.tag = .dl := by
  cases p with
  | nil => simp [placeBelow]
  | cons term above =>
    unfold placeBelow Place.inside
    split
    · simp_all
    · next hterm hlist =>
      obtain ⟨list, above, rfl, htag⟩ := placeBelow_eq_inList_iff.mp hlist
      simp [hterm, htag]
    · next hlist hterm =>
      constructor
      · intro h
        cases h
      · rintro ⟨_, list, up, heq, htag, hdl⟩
        obtain ⟨rfl, rfl⟩ := List.cons.inj heq
        exact absurd (placeBelow_eq_inList_iff.mpr ⟨list, up, rfl, hdl⟩) (hterm htag)

/-- **A definition** is bold text directly in a term of a definition list that has the form of an
option. -/
theorem definedAt?_eq_some_iff {p : Path} {option : List Char} :
    definedAt? p = some option ↔ IsTerm p ∧ textAt p = option ∧ IsOptionText option := by
  cases p with
  | nil => simp [definedAt?, IsTerm]
  | cons bold above =>
    rw [isTerm_cons_iff, ← placeBelow_eq_inTerm_iff, and_comm (a := bold.tag = .b), ← isOption_iff,
      definedAt?, definedOption?, textAt]
    by_cases hplace : placeBelow above = .inTerm ∧ bold.tag = .b
    · rw [if_pos hplace, Option.filter_eq_some_iff, Option.some.injEq, and_iff_right hplace]
    · rw [if_neg hplace]
      constructor
      · intro h
        exact absurd h (Option.some_ne_none _).symm
      · rintro ⟨h, -⟩
        exact absurd h hplace

mutual

theorem definitionsIn_eq (above : Path) (index : Nat) :
    ∀ node : Node, definitionsIn (placeBelow above) (index :: position above) node =
      (pathsIn above index node).filterMap fun p => (definedAt? p).map (position p, ·)
  | .text _ => rfl
  | .element tag attributes children => by
    have ih := definitionsAmong_eq (⟨index, tag, attributes, children⟩ :: above) 0 children
    rw [definitionsIn, pathsIn, List.filterMap_cons, ← ih]
    cases h : definedOption? (placeBelow above) tag children with
    | none => simp [definedAt?, h, placeBelow, position]
    | some option => simp [definedAt?, h, placeBelow, position]

theorem definitionsAmong_eq (above : Path) (index : Nat) :
    ∀ nodes : List Node, definitionsAmong (placeBelow above) (position above) index nodes =
      (pathsAmong above index nodes).filterMap fun p => (definedAt? p).map (position p, ·)
  | [] => rfl
  | node :: nodes => by
    rw [definitionsAmong, pathsAmong, List.filterMap_append, definitionsIn_eq above index node,
      definitionsAmong_eq above (index + 1) nodes]

end

/-- **The collected definitions** are those of the elements, in document order. -/
theorem definitions_eq (nodes : List Node) :
    definitions nodes =
      (paths nodes).filterMap fun p => (definedAt? p).map (position p, ·) :=
  definitionsAmong_eq [] 0 nodes

theorem mem_definedOptions_iff {nodes : List Node} {option : List Char} :
    option ∈ definedOptions nodes ↔ ∃ p ∈ paths nodes, definedAt? p = some option := by
  simp only [definedOptions, definitions_eq, List.mem_map, List.mem_filterMap,
    Option.map_eq_some_iff]
  constructor
  · rintro ⟨_, ⟨p, hp, _, hdefined, rfl⟩, rfl⟩
    exact ⟨p, hp, hdefined⟩
  · rintro ⟨p, hp, hdefined⟩
    exact ⟨_, ⟨p, hp, _, hdefined, rfl⟩, rfl⟩

/-- The options of a document are the texts of bold terms that have the form of an option. -/
theorem mem_definedOptions_iff_isTerm {nodes : List Node} {option : List Char} :
    option ∈ definedOptions nodes ↔
      IsOptionText option ∧ ∃ p ∈ paths nodes, IsTerm p ∧ textAt p = option := by
  rw [mem_definedOptions_iff]
  constructor
  · rintro ⟨p, hp, hdefined⟩
    obtain ⟨hterm, htext, hoption⟩ := definedAt?_eq_some_iff.mp hdefined
    exact ⟨hoption, p, hp, hterm, htext⟩
  · rintro ⟨hoption, p, hp, hterm, htext⟩
    exact ⟨p, hp, definedAt?_eq_some_iff.mpr ⟨hterm, htext, hoption⟩⟩

end Manpage.Link
