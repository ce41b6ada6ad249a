import Manpage.Html.Formatting
import Mathlib.Data.List.Basic
import Mathlib.Tactic.Tauto

/-!
# The elements of a body under construction

While a body is read, an element is open until it is closed, and complete from then on. Complete
elements do not change any more: text and elements are only ever added to what is open.

## Main definitions

* `elementsAmong`: the elements of nodes
* `Kind`: a tag with its attributes
* `Spine.finished`, `Spine.openKinds`: the complete elements of a body, and its open ones

## Main results

* `Spine.mem_finished_append`, `Spine.mem_finished_pop`: what becomes complete
-/

namespace Manpage.Html

mutual

/-- A node and the elements inside it. -/
def elementsIn : Node → List Node
  | .text _ => []
  | .element tag attributes children =>
    .element tag attributes children :: elementsAmong children

/-- The elements of nodes, in document order. -/
def elementsAmong : List Node → List Node
  | [] => []
  | node :: nodes => elementsIn node ++ elementsAmong nodes

end

section

variable {x : Node} {xs ys : List Node}

theorem mem_elementsAmong_iff : x ∈ elementsAmong xs ↔ ∃ node ∈ xs, x ∈ elementsIn node := by
  induction xs with
  | nil => simp [elementsAmong]
  | cons node xs ih => simp [elementsAmong, ih]

theorem mem_elementsAmong_append :
    x ∈ elementsAmong (xs ++ ys) ↔ x ∈ elementsAmong xs ∨ x ∈ elementsAmong ys := by
  simp only [mem_elementsAmong_iff, List.mem_append, or_and_right, exists_or]

theorem mem_elementsAmong_reverse : x ∈ elementsAmong xs.reverse ↔ x ∈ elementsAmong xs := by
  simp only [mem_elementsAmong_iff, List.mem_reverse]

end

/-! ## Open and complete elements -/

/-- A tag with its attributes: what is known of an element before it is complete. -/
abbrev Kind : Type := Tag × List Attribute

/-- The kind of an open element. -/
def OpenElement.kind (e : OpenElement) : Kind := (e.tag, e.attributes)

/-- The kind of an active formatting element. -/
def FormattingElement.kind (f : FormattingElement) : Kind := (f.tag, f.attributes)

/-- Whether a node is an element of the kind `k`. -/
def Node.IsOfKind (x : Node) (k : Kind) : Prop :=
  ∃ children, x = .element k.1 k.2 children

/-- An open element is closed as an element of its kind, which holds what it held. -/
theorem OpenElement.mem_elementsIn_close {e : OpenElement} {last : List Node} {x : Node} :
    x ∈ elementsIn (e.close last) ↔
      x = e.close last ∨ x ∈ elementsAmong last ∨ x ∈ elementsAmong e.children := by
  rw [close, elementsIn, List.mem_cons, mem_elementsAmong_reverse, mem_elementsAmong_append]

theorem OpenElement.isOfKind_close (e : OpenElement) (last : List Node) :
    (e.close last).IsOfKind e.kind :=
  ⟨_, rfl⟩

namespace Spine

/-- **The complete elements** of a body under construction. -/
def finished (s : Spine) : List Node :=
  elementsAmong s.body ++ s.elements.flatMap fun e => elementsAmong e.children

/-- The kinds of the open elements. -/
def openKinds (s : Spine) : List Kind :=
  s.elements.map OpenElement.kind

variable {s : Spine} {x : Node}

theorem mem_finished_iff {body : List Node} {es : List OpenElement} :
    x ∈ finished ⟨body, es⟩ ↔
      x ∈ elementsAmong body ∨ ∃ e ∈ es, x ∈ elementsAmong e.children := by
  rw [finished, List.mem_append, List.mem_flatMap]

/-- Children that are added in one place become complete, and nothing else does. -/
theorem mem_finished_modifyChildren {f : List Node → List Node} {new : List Node}
    (hf : ∀ children, x ∈ elementsAmong (f children) ↔
      x ∈ elementsAmong new ∨ x ∈ elementsAmong children) :
    x ∈ (s.modifyChildren f).finished ↔ x ∈ elementsAmong new ∨ x ∈ s.finished := by
  obtain ⟨body, es⟩ := s
  cases es with
  | nil => simp [modifyChildren, mem_finished_iff, hf]
  | cons e outer =>
    simp only [modifyChildren, mem_finished_iff, List.exists_mem_cons_iff, hf]
    tauto

theorem mem_finished_append {nodes : List Node} :
    x ∈ (s.append nodes).finished ↔ x ∈ elementsAmong nodes ∨ x ∈ s.finished :=
  mem_finished_modifyChildren fun _ => mem_elementsAmong_append

/-- Text completes no element. -/
theorem mem_finished_appendChar {c : Char} : x ∈ (s.appendChar c).finished ↔ x ∈ s.finished := by
  have hchar : ∀ children, x ∈ elementsAmong (addChar c children) ↔
      x ∈ elementsAmong [] ∨ x ∈ elementsAmong children := by
    intro children
    unfold addChar
    split
    · simp [elementsAmong, elementsIn]
    · simp [elementsAmong, elementsIn]
  rw [appendChar, mem_finished_modifyChildren hchar]
  simp [elementsAmong]

@[simp] theorem openKinds_modifyChildren (s : Spine) (f : List Node → List Node) :
    (s.modifyChildren f).openKinds = s.openKinds := by
  obtain ⟨body, es⟩ := s
  cases es <;> rfl

/-- An element that is opened is empty. -/
theorem mem_finished_push {e : OpenElement} (he : e.children = []) :
    x ∈ (s.push e).finished ↔ x ∈ s.finished := by
  obtain ⟨body, es⟩ := s
  simp [push, mem_finished_iff, he, elementsAmong]

/-- **What is closed becomes complete**, with what it holds. -/
theorem mem_finished_pop {body : List Node} {e : OpenElement} {outer : List OpenElement} :
    x ∈ (pop ⟨body, e :: outer⟩).finished ↔
      x = e.close [] ∨ x ∈ finished ⟨body, e :: outer⟩ := by
  have hclose : x ∈ elementsAmong [e.close []] ↔
      x = e.close [] ∨ x ∈ elementsAmong e.children := by
    simp [elementsAmong, OpenElement.mem_elementsIn_close]
  rw [pop, mem_finished_append, hclose]
  simp only [mem_finished_iff, List.exists_mem_cons_iff]
  tauto

theorem openKinds_pop {body : List Node} {e : OpenElement} {outer : List OpenElement} :
    (pop ⟨body, e :: outer⟩).openKinds = outer.map OpenElement.kind := by
  exact openKinds_modifyChildren _ _

theorem length_elements_popMany (s : Spine) (n : Nat) :
    (s.popMany n).elements.length = s.elements.length - n := by
  induction n generalizing s with
  | zero => rfl
  | succ n ih =>
    have hpop : s.pop.elements.length = s.elements.length - 1 := by
      obtain ⟨body, es⟩ := s
      rcases es with - | ⟨e, - | ⟨d, outer⟩⟩
      · rfl
      · rfl
      · simp [pop, append, modifyChildren]
    rw [popMany, ih, hpop, Nat.sub_sub, Nat.add_comm 1 n]

/-- Nothing is open once as many elements have been closed as were open. -/
theorem elements_popMany_length (s : Spine) : (s.popMany s.elements.length).elements = [] := by
  rw [← List.length_eq_zero_iff, length_elements_popMany, Nat.sub_self]

end Spine

/-- A chain of open elements is closed as elements of their kinds, which hold what they held. -/
theorem mem_elementsAmong_closeChain {x : Node} {last : List Node} {es : List OpenElement}
    (h : x ∈ elementsAmong (closeChain last es)) :
    x ∈ elementsAmong last ∨
      ∃ e ∈ es, x.IsOfKind e.kind ∨ x ∈ elementsAmong e.children := by
  induction es generalizing last with
  | nil => exact Or.inl h
  | cons e es ih =>
    rw [List.exists_mem_cons_iff]
    rcases ih h with h | h
    · rw [elementsAmong, elementsAmong, List.append_nil, OpenElement.mem_elementsIn_close] at h
      rcases h with rfl | h | h
      · exact Or.inr (Or.inl (Or.inl (e.isOfKind_close last)))
      · exact Or.inl h
      · exact Or.inr (Or.inl (Or.inr h))
    · exact Or.inr (Or.inr h)

/-- A chain of open elements loses nothing when it is closed. -/
theorem mem_closeChain {x : Node} {last : List Node} {es : List OpenElement}
    (h : x ∈ elementsAmong last ∨ ∃ e ∈ es, x ∈ elementsAmong e.children) :
    x ∈ elementsAmong (closeChain last es) := by
  induction es generalizing last with
  | nil =>
    rcases h with h | ⟨e, he, -⟩
    · exact h
    · exact absurd he List.not_mem_nil
  | cons e es ih =>
    rw [List.exists_mem_cons_iff] at h
    apply ih
    rw [elementsAmong, elementsAmong, List.append_nil, OpenElement.mem_elementsIn_close]
    tauto

/-- Every element of a chain is there once the chain is closed. -/
theorem exists_isOfKind_closeChain {last : List Node} {es : List OpenElement} {e : OpenElement}
    (he : e ∈ es) : ∃ x ∈ elementsAmong (closeChain last es), x.IsOfKind e.kind := by
  induction es generalizing last with
  | nil => exact absurd he List.not_mem_nil
  | cons d es ih =>
    rcases List.mem_cons.mp he with rfl | he
    · have hclosed : e.close last ∈ elementsAmong [e.close last] := by
        simp [elementsAmong, OpenElement.mem_elementsIn_close]
      have hchain : e.close last ∈ elementsAmong (closeChain [e.close last] es) :=
        mem_closeChain (Or.inl hclosed)
      exact ⟨e.close last, hchain, e.isOfKind_close last⟩
    · exact ih he

end Manpage.Html
