import Manpage.Proofs.Files.Growth
import Manpage.Proofs.Text.Lines
import Manpage.Source
import Mathlib.Tactic.Set

/-!
# Files in a directory

A name that is put behind the path of a directory leads to the entry of that name, however the path
of the directory is written. The name of a page's output is always such a name.

## Main results

* `Path.exists_components_join`: the components of a path inside a directory
* `Source.isName_outputName`: the name of a page's output is that of a file
* `FileTree.locate_join`: where a name in a directory leads
-/

namespace Manpage

namespace Path

variable {directory path name : Path}

theorem IsName.ne_nil (h : IsName name) : name ≠ [] := by
  rintro rfl
  exact absurd h.here (by decide)

theorem IsName.isAbsolute (h : IsName name) : isAbsolute name = false := by
  obtain ⟨c, rest, rfl⟩ := List.exists_cons_of_ne_nil h.ne_nil
  have hc : c ≠ '/' := fun hc => h.slash (hc ▸ List.mem_cons_self)
  simpa [Path.isAbsolute] using hc

/-- A name is its only component. -/
theorem IsName.components (h : IsName name) : components name = [name] := by
  rw [Path.components, Text.pieces_of_notMem h.slash]

/-- **The components of a path inside a directory** are those of the directory and the name, but for
components that stand for the directory they are in. -/
theorem exists_components_join (directory : Path) :
    ∃ before, before.filter (!isHere ·) = (components directory).filter (!isHere ·) ∧
      ∀ name, IsName name → components (join directory name) = before ++ [name] := by
  have hcut : ∀ before after : List Char, components (before ++ '/' :: after) =
      components before ++ components after := fun before after =>
    Text.pieces_append_cons rfl before after
  by_cases hempty : directory = []
  · subst hempty
    refine ⟨[], rfl, fun name h => ?_⟩
    have hjoin : join [] name = name := by
      rw [join, h.isAbsolute]
      rfl
    rw [hjoin, h.components, List.nil_append]
  by_cases hslash : directory.getLast? = some '/'
  · obtain ⟨before, rfl⟩ := List.getLast?_eq_some_iff.mp hslash
    refine ⟨components before, ?_, fun name h => ?_⟩
    · rw [hcut, List.filter_append]
      exact (List.append_nil _).symm
    · rw [join, h.isAbsolute, Bool.false_or, if_neg (by simp),
        if_pos (beq_iff_eq.mpr hslash), List.append_assoc, List.singleton_append, hcut,
        h.components]
  · refine ⟨components directory, rfl, fun name h => ?_⟩
    rw [join, h.isAbsolute, Bool.false_or, if_neg (by simpa using hempty),
      if_neg (by simpa using hslash), hcut, h.components]

theorem isAbsolute_join (h : IsName name) (directory : Path) :
    Path.isAbsolute (join directory name) = Path.isAbsolute directory := by
  rw [join, h.isAbsolute, Bool.false_or]
  split_ifs with hempty hslash
  · rw [eq_of_beq hempty, h.isAbsolute]
    rfl
  all_goals
    cases directory with
    | nil => exact absurd rfl hempty
    | cons c rest => rfl

theorem join_ne_nil (h : IsName name) (directory : Path) : join directory name ≠ [] := by
  rw [join, h.isAbsolute, Bool.false_or]
  split_ifs with hempty hslash
  · exact h.ne_nil
  · exact List.append_ne_nil_of_right_ne_nil _ h.ne_nil
  · exact List.append_ne_nil_of_right_ne_nil _ (List.cons_ne_nil _ _)

/-- A path inside a directory has the characters of both, and a slash. -/
theorem mem_join {c : Char} (hc : c ∈ join directory path) :
    c ∈ directory ∨ c ∈ path ∨ c = '/' := by
  rw [join] at hc
  split_ifs at hc with hempty hslash
  · exact Or.inr (Or.inl hc)
  · exact (List.mem_append.mp hc).imp_right Or.inl
  · rcases List.mem_append.mp hc with hc | hc
    · exact Or.inl hc
    · exact Or.inr ((List.mem_cons.mp hc).symm)

/-- The name of a file is one of the components of its path. -/
theorem fileName?_spec (h : fileName? path = some name) :
    name ∈ components path ∧ IsName name := by
  obtain ⟨hfind, habove⟩ := Option.filter_eq_some_iff.mp h
  have hmem : name ∈ components path := List.mem_reverse.mp (List.mem_of_find?_eq_some hfind)
  refine ⟨hmem, fun hslash => ?_, ?_, ?_⟩
  · exact absurd (Text.sep_of_mem_pieces hmem hslash) (by decide)
  · simpa using List.find?_some hfind
  · simpa using habove

/-- The part of a name before its last period is part of it. -/
theorem mem_of_mem_splitExtension {c : Char} (hc : c ∈ (splitExtension name).1) : c ∈ name := by
  unfold splitExtension at hc
  split at hc
  · next after before hcut =>
    split_ifs at hc
    · exact hc
    · obtain ⟨x, hx⟩ := Text.eq_of_cut?_eq_some hcut
      have hmem : c ∈ name.reverse := by
        rw [hx]
        exact List.mem_append_right _ (List.mem_cons_of_mem _ (List.mem_reverse.mp hc))
      exact List.mem_reverse.mp hmem
  · exact hc

end Path

/-- **The name of a page's output** can be the name of a file, and has no characters but those of
the page's path and of the ending. -/
theorem Source.isName_outputName {path : Path} {name : List Char}
    (h : Source.outputName? path = some name) :
    Path.IsName name ∧ ∀ c ∈ name, c ∈ path ∨ c ∈ ".html".toList := by
  obtain ⟨file, hfile, rfl⟩ := Option.map_eq_some_iff.mp h
  obtain ⟨hmem, hname⟩ := Path.fileName?_spec hfile
  set base := if (Source.formatOfPath? path).isSome then (Path.splitExtension file).1 else file
    with hbase
  have hsub : ∀ c ∈ base, c ∈ file := by
    intro c hc
    rw [hbase] at hc
    split_ifs at hc
    · exact Path.mem_of_mem_splitExtension hc
    · exact hc
  have hlength : 5 ≤ (base ++ ".html".toList).length := by
    rw [List.length_append]
    exact Nat.le_add_left 5 _
  have hne : ∀ other : List Char, other.length < 5 → base ++ ".html".toList ≠ other := by
    rintro other hother rfl
    exact absurd hlength (Nat.not_le.mpr hother)
  refine ⟨⟨fun hslash => ?_, ?_, ?_⟩, fun c hc => ?_⟩
  · rcases List.mem_append.mp hslash with hslash | hslash
    · exact hname.slash (hsub _ hslash)
    · exact absurd hslash (by decide)
  · simpa [Path.isHere] using hne ['.'] (by decide)
  · simpa [Path.isAbove] using hne ['.', '.'] (by decide)
  · exact (List.mem_append.mp hc).imp_left fun hc => Text.mem_of_mem_pieces hmem (hsub c hc)

namespace FileTree

variable {tree : FileTree} {here there : Location} {directory : Path} {name : List Char}

/-- Components lead on from directories only. -/
theorem shapeAt_of_foldlM_enter {components : List (List Char)} (hne : components ≠ [])
    (h : components.foldlM tree.enter here = .ok there) :
    tree.shapeAt here = some .directory := by
  obtain ⟨component, rest, rfl⟩ := List.exists_cons_of_ne_nil hne
  rw [List.foldlM_cons] at h
  obtain ⟨next, hnext, -⟩ := bind_eq_ok_iff.mp h
  exact shapeAt_of_enter hnext

/-- Components that stand for the directory they are in lead nowhere else. -/
theorem foldlM_enter_of_filter {components : List (List Char)}
    (h : (components.filter (!Path.isHere ·)).foldlM tree.enter here = .ok there)
    (hdir : tree.shapeAt there = some .directory) :
    components.foldlM tree.enter here = .ok there := by
  induction components generalizing here with
  | nil => exact h
  | cons component components ih =>
    rw [List.foldlM_cons]
    by_cases hcurrent : Path.isHere component
    · rw [List.filter_cons_of_neg (by simp [hcurrent])] at h
      have hhere : tree.shapeAt here = some .directory := by
        by_cases hrest : components.filter (!Path.isHere ·) = []
        · rw [hrest] at h
          rw [Except.ok.inj h]
          exact hdir
        · exact shapeAt_of_foldlM_enter hrest h
      refine bind_eq_ok_iff.mpr ⟨here, ?_, ih h⟩
      rw [enter_eq, hhere]
      exact if_pos hcurrent
    · rw [List.filter_cons_of_pos (by simp [hcurrent]), List.foldlM_cons] at h
      obtain ⟨next, hnext, hwalk⟩ := bind_eq_ok_iff.mp h
      exact bind_eq_ok_iff.mpr ⟨next, hnext, ih hwalk⟩

theorem checkPath_eq_ok_iff {path : Path} :
    checkPath path = .ok () ↔ '\x00' ∉ path ∧ path.isTooLong = false := by
  unfold checkPath
  split_ifs with hnul hlong
  · simp_all
  · simp_all
  · simp_all

/-- **Where a name in a directory leads**: to the entry of that name. -/
theorem locate_join (hname : Path.IsName name) (hnul : '\x00' ∉ name)
    (hshort : Path.isTooLongName name = false)
    (hlong : (Path.join directory name).isTooLong = false) (hcheck : checkPath directory = .ok ())
    (hwalk : (directory.components.filter (!Path.isHere ·)).foldlM tree.enter
      (tree.start directory) = .ok here)
    (hdir : tree.shapeAt here = some .directory) (hthere : (tree.shapeAt (here ++ [name])).isSome) :
    tree.locate (Path.join directory name) = .ok (here ++ [name]) := by
  have hnul' : '\x00' ∉ Path.join directory name := by
    intro hmem
    rcases Path.mem_join hmem with hmem | hmem | hslash
    · exact (checkPath_eq_ok_iff.mp hcheck).1 hmem
    · exact hnul hmem
    · exact absurd hslash (by decide)
  have hstart : tree.start (Path.join directory name) = tree.start directory := by
    rw [start, start, Path.isAbsolute_join hname]
  have henter : tree.enter here name = .ok (here ++ [name]) := by
    rw [enter_eq, hdir]
    simp [hname.here, hname.above, hshort, hthere]
  obtain ⟨before, hbefore, hcomponents⟩ := Path.exists_components_join directory
  refine locate_eq_ok_iff.mpr
    ⟨checkPath_eq_ok_iff.mpr ⟨hnul', hlong⟩, Path.join_ne_nil hname directory, ?_⟩
  rw [hstart, hcomponents name hname, List.foldlM_append]
  refine bind_eq_ok_iff.mpr ⟨here, foldlM_enter_of_filter (hbefore ▸ hwalk) hdir, ?_⟩
  rw [List.foldlM_cons, henter]
  rfl

end FileTree

end Manpage
