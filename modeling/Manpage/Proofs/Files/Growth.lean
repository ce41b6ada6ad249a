import Manpage.Proofs.Files.Tree

/-!
# Growing trees

While files are written into it, a tree grows: directories and files stay where they are, and only
the files that are written change their contents. So a path that leads somewhere leads there
afterwards, and a file that is not written has the content that it had. Creating directories is a
growth in which nothing is written.

## Main definitions

* `FileTree.Grows`: a tree grows, and files are written at certain locations only

## Main results

* `Grows.put`: what is put where it may be written, or where nothing was, makes a tree grow
* `Grows.locate`, `Grows.contentOf`: paths and contents in a tree that grows
* `createDirectories_spec`: a directory that is created is there, and the path leads to it
-/

namespace Manpage

/-- Two steps that can fail succeed if both do. -/
theorem bind_eq_ok_iff {ε α β : Type} {x : Except ε α} {f : α → Except ε β} {b : β} :
    x >>= f = .ok b ↔ ∃ a, x = .ok a ∧ f a = .ok b := by
  cases x with
  | error e =>
    constructor
    · intro h
      cases h
    · rintro ⟨_, h, _⟩
      cases h
  | ok a =>
    constructor
    · exact fun h => ⟨a, rfl, h⟩
    · rintro ⟨_, h, hf⟩
      rw [Except.ok.inj h]
      exact hf

namespace FileTree

variable {written : Location → Prop} {tree later last : FileTree} {here there : Location}
  {path : Path} {component name : List Char} {new : Entry}

/-- **A tree grows**: what is there stays there, directories stay directories, and files keep their
contents, except where they may be `written`. -/
structure Grows (written : Location → Prop) (tree later : FileTree) : Prop where
  workingDirectory : later.workingDirectory = tree.workingDirectory
  directory : ∀ {there}, tree.shapeAt there = some .directory →
    later.shapeAt there = some .directory
  isSome : ∀ {there}, (tree.shapeAt there).isSome → (later.shapeAt there).isSome
  file : ∀ {there content}, ¬ written there → tree.shapeAt there = some (.file content) →
    later.shapeAt there = some (.file content)

theorem Grows.refl (written : Location → Prop) (tree : FileTree) : Grows written tree tree :=
  ⟨rfl, id, id, fun _ h => h⟩

theorem Grows.trans (h : Grows written tree later) (h' : Grows written later last) :
    Grows written tree last where
  workingDirectory := h'.workingDirectory.trans h.workingDirectory
  directory hdir := h'.directory (h.directory hdir)
  isSome hsome := h'.isSome (h.isSome hsome)
  file hfree hfile := h'.file hfree (h.file hfree hfile)

theorem Grows.mono {more : Location → Prop} (h : Grows written tree later)
    (hmore : ∀ there, written there → more there) : Grows more tree later where
  workingDirectory := h.workingDirectory
  directory := h.directory
  isSome := h.isSome
  file hfree := h.file fun hwritten => hfree (hmore _ hwritten)

/-- What stands where after an entry is put into a directory. -/
theorem shapeAt_put (hnew : new.entries = []) (hdir : tree.shapeAt here = some .directory)
    (hold : tree.shapeAt (here ++ [name]) ≠ some .directory) (there : Location) :
    (tree.put new (here ++ [name])).shapeAt there =
      if there = here ++ [name] then some new.shape else tree.shapeAt there :=
  Entry.shapeAt_put hnew hdir hold

/-- **What is put** into a directory where it may be written, or where nothing was, makes a tree
grow. -/
theorem Grows.put (hnew : new.entries = []) (hdir : tree.shapeAt here = some .directory)
    (hold : tree.shapeAt (here ++ [name]) ≠ some .directory)
    (hfree : written (here ++ [name]) ∨ tree.shapeAt (here ++ [name]) = none) :
    Grows written tree (tree.put new (here ++ [name])) where
  workingDirectory := rfl
  directory {there} hthere := by
    have hne : there ≠ here ++ [name] := by
      rintro rfl
      exact hold hthere
    rw [shapeAt_put hnew hdir hold, if_neg hne]
    exact hthere
  isSome {there} hthere := by
    rw [shapeAt_put hnew hdir hold]
    split
    · rfl
    · exact hthere
  file {there content} hthere hfile := by
    have hne : there ≠ here ++ [name] := by
      rintro rfl
      exact hfree.elim hthere fun hnone => by rw [hnone] at hfile; cases hfile
    rw [shapeAt_put hnew hdir hold, if_neg hne]
    exact hfile

/-! ## Paths -/

theorem Grows.enter (h : Grows written tree later)
    (henter : tree.enter here component = .ok there) :
    later.enter here component = .ok there := by
  have hdir := shapeAt_of_enter henter
  rw [enter_eq, hdir] at henter
  rw [enter_eq, h.directory hdir]
  split_ifs at henter with hcurrent habove hlong hsome
  · rw [if_pos hcurrent]
    exact henter
  · rw [if_neg hcurrent, if_pos habove]
    exact henter
  · rw [if_neg hcurrent, if_neg habove, if_neg hlong, if_pos (h.isSome hsome)]
    exact henter

theorem Grows.foldlM_enter (h : Grows written tree later) {components : List (List Char)}
    (hwalk : components.foldlM tree.enter here = .ok there) :
    components.foldlM later.enter here = .ok there := by
  induction components generalizing here with
  | nil => exact hwalk
  | cons component components ih =>
    rw [List.foldlM_cons] at hwalk ⊢
    obtain ⟨next, hnext, hrest⟩ := bind_eq_ok_iff.mp hwalk
    exact bind_eq_ok_iff.mpr ⟨next, h.enter hnext, ih hrest⟩

theorem start_eq (hdir : later.workingDirectory = tree.workingDirectory) (path : Path) :
    later.start path = tree.start path := by
  rw [start, start, hdir]

/-- A path leads somewhere if it is one that a file can have and its components lead there. -/
theorem locate_eq_ok_iff :
    tree.locate path = .ok there ↔
      checkPath path = .ok () ∧ path ≠ [] ∧
        path.components.foldlM tree.enter (tree.start path) = .ok there := by
  unfold locate
  rw [bind_eq_ok_iff]
  constructor
  · rintro ⟨⟨⟩, hcheck, hrest⟩
    split at hrest
    · cases hrest
    · next hpath => exact ⟨hcheck, hpath, hrest⟩
  · rintro ⟨hcheck, hpath, hwalk⟩
    refine ⟨(), hcheck, ?_⟩
    rw [if_neg hpath]
    exact hwalk

/-- **A path** leads where it led before the tree grew. -/
theorem Grows.locate (h : Grows written tree later) (hlocate : tree.locate path = .ok there) :
    later.locate path = .ok there := by
  obtain ⟨hcheck, hpath, hwalk⟩ := locate_eq_ok_iff.mp hlocate
  refine locate_eq_ok_iff.mpr ⟨hcheck, hpath, ?_⟩
  rw [start_eq h.workingDirectory]
  exact h.foldlM_enter hwalk

/-- **A file** that is not written has the content that it had before the tree grew. -/
theorem Grows.contentOf {content : Bytes} (h : Grows written tree later)
    (hfree : ∀ there, tree.locate path = .ok there → ¬ written there)
    (hcontent : tree.contentOf path = .ok content) : later.contentOf path = .ok content := by
  obtain ⟨there, hlocate, hfile⟩ := contentOf_eq_ok_iff.mp hcontent
  exact contentOf_eq_ok_iff.mpr ⟨there, h.locate hlocate, h.file (hfree there hlocate) hfile⟩

/-! ## Creating directories -/

/-- Nothing is written. -/
def Nowhere : Location → Prop := fun _ => False

/-- One step on the way to a directory: the tree may grow, and then the component leads there. -/
structure Enters (tree : FileTree) (here : Location) (component : List Char) (later : FileTree)
    (there : Location) : Prop where
  grows : Grows Nowhere tree later
  directory : later.shapeAt there = some .directory
  enter : later.enter here component = .ok there

theorem enters_of_enterDirectory
    (h : enterDirectory (tree, here) component = .ok (later, there)) :
    Enters tree here component later there := by
  unfold enterDirectory at h
  obtain ⟨next, hnext, hrest⟩ := bind_eq_ok_iff.mp h
  rw [any_isDirectory_eq] at hrest
  split at hrest
  · next hdir =>
    obtain ⟨rfl, rfl⟩ := Prod.mk.inj (Except.ok.inj hrest)
    exact ⟨.refl _ _, of_decide_eq_true hdir, hnext⟩
  · cases hrest

/-- A component leads nowhere from a directory if nothing has its name. -/
theorem of_enter_eq_notFound (hhere : tree.shapeAt here = some .directory)
    (h : tree.enter here component = .error .notFound) :
    Path.isHere component = false ∧ Path.isAbove component = false ∧
      Path.isTooLongName component = false ∧ tree.shapeAt (here ++ [component]) = none := by
  rw [enter_eq, hhere] at h
  simp only at h
  split_ifs at h with hcurrent habove hlong hsome
  · cases h
  · exact ⟨by simpa using hcurrent, by simpa using habove, by simpa using hlong,
      by simpa using hsome⟩

theorem enter_of_enterDirectory_eq_notFound
    (h : enterDirectory (tree, here) component = .error .notFound) :
    tree.enter here component = .error .notFound := by
  unfold enterDirectory at h
  cases henter : tree.enter here component with
  | error e =>
    simp only [henter, bind, Except.bind] at h
    rw [Except.error.inj h]
  | ok there =>
    simp only [henter, bind, Except.bind] at h
    split_ifs at h
    · cases h
    · cases h

/-- A directory that is missing is created if its name can be that of a file. -/
theorem enters_of_enterOrCreate (hhere : tree.shapeAt here = some .directory)
    (h : enterOrCreate (tree, here) component = .ok (later, there)) :
    Enters tree here component later there := by
  unfold enterOrCreate at h
  split at h
  · next hmissing =>
    obtain ⟨hnotHere, hnotAbove, hshort, hnone⟩ :=
      of_enter_eq_notFound hhere (enter_of_enterDirectory_eq_notFound hmissing)
    obtain ⟨rfl, rfl⟩ := Prod.mk.inj (Except.ok.inj h)
    have hold : tree.shapeAt (here ++ [component]) ≠ some .directory := by simp [hnone]
    have hgrows : Grows Nowhere tree (tree.put (.directory []) (here ++ [component])) :=
      .put rfl hhere hold (Or.inr hnone)
    have hthere : (tree.put (.directory []) (here ++ [component])).shapeAt (here ++ [component]) =
        some .directory := by
      rw [shapeAt_put rfl hhere hold, if_pos rfl]
      rfl
    refine ⟨hgrows, hthere, ?_⟩
    rw [enter_eq, hgrows.directory hhere]
    simp [hnotHere, hnotAbove, hshort, hthere]
  · exact enters_of_enterDirectory h

/-- The way to a directory, step by step. -/
theorem enters_foldlM
    {step : FileTree × Location → List Char → Except FileError (FileTree × Location)}
    (hstep : ∀ {tree here component later there}, tree.shapeAt here = some .directory →
      step (tree, here) component = .ok (later, there) → Enters tree here component later there)
    {names : List (List Char)} (hhere : tree.shapeAt here = some .directory)
    (h : names.foldlM step (tree, here) = .ok (later, there)) :
    Grows Nowhere tree later ∧ later.shapeAt there = some .directory ∧
      names.foldlM later.enter here = .ok there := by
  induction names generalizing tree here with
  | nil =>
    obtain ⟨rfl, rfl⟩ := Prod.mk.inj (Except.ok.inj h)
    exact ⟨.refl _ _, hhere, rfl⟩
  | cons component names ih =>
    rw [List.foldlM_cons] at h
    obtain ⟨⟨next, place⟩, hnext, hrest⟩ := bind_eq_ok_iff.mp h
    have henters := hstep hhere hnext
    obtain ⟨hgrows, hdir, hwalk⟩ := ih henters.directory hrest
    refine ⟨henters.grows.trans hgrows, hdir, ?_⟩
    rw [List.foldlM_cons]
    exact bind_eq_ok_iff.mpr ⟨place, hgrows.enter henters.enter, hwalk⟩

/-- **A directory that is created** is there, nothing else is changed, and the components of the
path lead to it. -/
theorem createDirectories_spec (hstart : tree.StartsInDirectory)
    (h : tree.createDirectories path = .ok (later, there)) :
    checkPath path = .ok () ∧ Grows Nowhere tree later ∧ later.shapeAt there = some .directory ∧
      (path.components.filter (!Path.isHere ·)).foldlM later.enter (later.start path) =
        .ok there := by
  unfold createDirectories at h
  obtain ⟨⟨⟩, hcheck, hrest⟩ := bind_eq_ok_iff.mp h
  have hfirst := shapeAt_start hstart path
  refine ⟨hcheck, ?_⟩
  generalize hnames : path.components.filter (!Path.isHere ·) = names at hrest ⊢
  split at hrest
  · obtain ⟨⟨next, place⟩, hnext, hlast⟩ := bind_eq_ok_iff.mp hrest
    obtain ⟨hgrows, hdir, hwalk⟩ := enters_foldlM enters_of_enterOrCreate hfirst hnext
    obtain ⟨hgrows', hdir', hwalk'⟩ :=
      enters_foldlM (fun _ => enters_of_enterDirectory) hdir hlast
    refine ⟨hgrows.trans hgrows', hdir', ?_⟩
    rw [start_eq (hgrows.trans hgrows').workingDirectory, ← List.take_append_drop
      (names.length - 1) names, ← List.dropLast_eq_take, List.foldlM_append]
    exact bind_eq_ok_iff.mpr ⟨place, hgrows'.foldlM_enter hwalk, hwalk'⟩
  · obtain ⟨hgrows, hdir, hwalk⟩ := enters_foldlM enters_of_enterOrCreate hfirst hrest
    refine ⟨hgrows, hdir, ?_⟩
    rw [start_eq hgrows.workingDirectory]
    exact hwalk

end FileTree

end Manpage
