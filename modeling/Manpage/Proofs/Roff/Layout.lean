import Manpage.Proofs.Markup.Content
import Manpage.Roff.Block

/-!
# The layout of a page

The content of a page by the values that it writes. Values come in two forms only: the name of a
section, in the head that links to itself, and the target of a link to another page. Layouts are
closed under appending, and then the names follow one another, and so do the targets.

## Main definitions

* `Layout`: content with the names of its sections and the targets of its links

## Main results

* `Layout.append`: layouts follow one another
* `Layout.content`: a layout is content
-/

namespace Manpage.Markup

/-- **The layout of a page**: running text, whole tags, the heads of sections and links to other
pages. The names of the sections and the targets of the links are listed in the order in which they
are written. -/
inductive Layout (newlines : Bool) :
    List (List Fragment) → List (List Fragment) → List Fragment → Prop
  | nil : Layout newlines [] [] []
  | flow {f : Fragment} {fs : List Fragment} {names targets : List (List Fragment)} :
      f.isFlow newlines → Layout newlines names targets fs →
      Layout newlines names targets (f :: fs)
  | head {name fs : List Fragment} {names targets : List (List Fragment)} :
      IsInline newlines name → Layout newlines names targets fs →
      Layout newlines (name :: names) targets (Block.sectionFrame name ++ fs)
  | link {target fs : List Fragment} {names targets : List (List Fragment)} :
      IsInline newlines target → Layout newlines names targets fs →
      Layout newlines names (target :: targets) (.anchorStart :: (target ++ .valueEnd :: fs))

/-- A section head around any running text: the name is written as the value of the `id`, as the
value of the `href`, and as the text of the heading. -/
theorem content_sectionFrame {newlines : Bool} {name : List Fragment}
    (h : IsInline newlines name) : Content newlines (Block.sectionFrame name) := by
  have hend : Content newlines (name ++ [.anchorEnd, .closing .h2]) :=
    .inline_append h (.of_flow (by simp [Fragment.isFlow]))
  have htarget : IsInline newlines (.char '#' :: name) := isInline_cons.mpr ⟨rfl, h⟩
  have hlink : Content newlines (.opening .h2 :: .anchorStart ::
      (.char '#' :: name ++ .valueEnd :: (name ++ [.anchorEnd, .closing .h2]))) :=
    .flow rfl (.anchorTag htarget hend)
  simpa [Block.sectionFrame] using Content.sectionTag h hlink

namespace Layout

variable {newlines : Bool} {fs gs : List Fragment}
  {names targets moreNames moreTargets : List (List Fragment)}

theorem of_flow (h : ∀ f ∈ fs, f.isFlow newlines) : Layout newlines [] [] fs := by
  induction fs with
  | nil => exact nil
  | cons f fs ih =>
    obtain ⟨hf, hfs⟩ := List.forall_mem_cons.mp h
    exact flow hf (ih hfs)

theorem of_inline (h : IsInline newlines fs) : Layout newlines [] [] fs :=
  of_flow fun f hf => Fragment.isFlow_of_isInline (h f hf)

theorem append (hf : Layout newlines names targets fs)
    (hg : Layout newlines moreNames moreTargets gs) :
    Layout newlines (names ++ moreNames) (targets ++ moreTargets) (fs ++ gs) := by
  induction hf with
  | nil => exact hg
  | flow h _ ih => exact flow h ih
  | head h _ ih => simpa using head h ih
  | link h _ ih => simpa using link h ih

theorem append_inline (hf : Layout newlines names targets fs) (hg : IsInline newlines gs) :
    Layout newlines names targets (fs ++ gs) := by
  simpa using hf.append (of_inline hg)

theorem inline_append (hf : IsInline newlines fs) (hg : Layout newlines names targets gs) :
    Layout newlines names targets (fs ++ gs) :=
  (of_inline hf).append hg

theorem mono {more : Bool} (h : Layout newlines names targets fs) (hle : newlines → more) :
    Layout more names targets fs := by
  induction h with
  | nil => exact nil
  | flow hf _ ih => exact flow (Fragment.isFlow_mono hle hf) ih
  | head hn _ ih => exact head (hn.mono hle) ih
  | link ht _ ih => exact link (ht.mono hle) ih

/-- A layout is content. -/
theorem content (h : Layout newlines names targets fs) : Content newlines fs := by
  induction h with
  | nil => exact .nil
  | flow hf _ ih => exact .flow hf ih
  | head hn _ ih => exact (content_sectionFrame hn).append ih
  | link ht _ ih => exact .anchorTag ht ih

end Layout

end Manpage.Markup
