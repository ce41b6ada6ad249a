import Manpage.Files.Tree
import Mathlib.Data.List.Infix

/-!
# What is at a location

From outside, a tree of files is known by what stands at each location: nothing, a directory, or a
file with its content. Where a path leads depends on no more than that. An entry without entries of
its own that is put into a directory changes what stands at its location and nothing else.

## Main definitions

* `Entry.shapeAt`, `FileTree.shapeAt`: what stands at a location

## Main results

* `Entry.shapeAt_put`: putting an entry changes what stands at its location and nothing else
* `Entry.put_put`: an entry that is put over another one leaves no trace of it
* `FileTree.enter_eq`, `FileTree.contentOf_eq_ok_iff`: paths and contents by what stands where
-/

namespace Manpage

/-- What an entry is from outside. -/
inductive Shape where
  | directory
  | file (content : Bytes)
  deriving DecidableEq, Repr

namespace Entry

variable {name : List Char} {there : Location} {e new : Entry}
  {entries : List (List Char × Entry)}

/-- What an entry is from outside. -/
def shape : Entry → Shape
  | file content => .file content
  | directory _ => .directory

/-- **What stands at a location**, if anything does. -/
def shapeAt (there : Location) (e : Entry) : Option Shape :=
  (e.get? there).map shape

/-! ## Entries of a directory -/

/-- An entry is found under its name. -/
theorem lookup_replaceEntry_self (name : List Char) (e : Entry)
    (entries : List (List Char × Entry)) : (replaceEntry name e entries).lookup name = some e := by
  unfold replaceEntry
  split
  · next h =>
    induction entries with
    | nil => exact absurd h (by simp)
    | cons old entries ih =>
      obtain ⟨oldName, old⟩ := old
      by_cases hname : oldName = name
      · simp [hname]
      · have hne : name ≠ oldName := Ne.symm hname
        have hrest : entries.any (·.1 == name) := by simpa [hname] using h
        simpa [hname, List.lookup_cons, beq_false_of_ne hne] using ih hrest
  · next h =>
    have hnone : entries.lookup name = none := by
      refine List.lookup_eq_none_iff.mpr fun old hold => ?_
      have hne : ¬ old.1 = name := fun heq => h (List.any_eq_true.mpr ⟨old, hold, by simp [heq]⟩)
      simpa using fun heq => hne heq.symm
    simp [List.lookup_append, hnone]

/-- Entries of other names stay as they are. -/
theorem lookup_replaceEntry_of_ne {other : List Char} (h : other ≠ name) (e : Entry)
    (entries : List (List Char × Entry)) :
    (replaceEntry name e entries).lookup other = entries.lookup other := by
  have hother : (other == name) = false := beq_false_of_ne h
  unfold replaceEntry
  split
  · next hany =>
    clear hany
    induction entries with
    | nil => rfl
    | cons old entries ih =>
      obtain ⟨oldName, old⟩ := old
      rw [List.map_cons, List.lookup_cons, ih]
      by_cases hname : oldName = name
      · simp [hname, List.lookup_cons, hother]
      · simp [hname, List.lookup_cons]
  · simp [List.lookup_append, List.lookup_cons, hother]

/-- Of two entries that take the place of the same one, the second stays. -/
theorem replaceEntry_replaceEntry (name : List Char) (first second : Entry)
    (entries : List (List Char × Entry)) :
    replaceEntry name second (replaceEntry name first entries) =
      replaceEntry name second entries := by
  have hany : (replaceEntry name first entries).any (·.1 == name) := by
    unfold replaceEntry
    split
    · next h =>
      obtain ⟨old, hold, heq⟩ := List.any_eq_true.mp h
      refine List.any_eq_true.mpr ⟨(name, first), List.mem_map.mpr ⟨old, hold, ?_⟩, by simp⟩
      rw [if_pos heq]
    · simp
  rw [replaceEntry, if_pos hany]
  unfold replaceEntry
  split
  · rw [List.map_map]
    refine List.map_congr_left fun old _ => ?_
    by_cases hold : old.1 = name <;> simp [hold]
  · next h =>
    rw [List.map_append]
    have hkeep : entries.map (fun old => if old.1 == name then (name, second) else old) =
        entries := by
      refine (List.map_congr_left fun old hold => ?_).trans (List.map_id _)
      exact if_neg fun heq => h (List.any_eq_true.mpr ⟨old, hold, heq⟩)
    rw [hkeep]
    simp

/-! ## Locations -/

theorem get?_append (here rest : Location) (e : Entry) :
    e.get? (here ++ rest) = (e.get? here).bind (get? rest) := by
  induction here generalizing e with
  | nil => rfl
  | cons name here ih =>
    rw [List.cons_append, get?, get?]
    cases e.entries.lookup name with
    | none => rfl
    | some below => exact ih below

theorem shapeAt_nil (e : Entry) : shapeAt [] e = some e.shape := rfl

theorem shapeAt_cons (name : List Char) (rest : Location) (e : Entry) :
    shapeAt (name :: rest) e = (e.entries.lookup name).bind (shapeAt rest) := by
  rw [shapeAt, get?]
  cases e.entries.lookup name <;> rfl

/-- Nothing stands below an entry without entries. -/
theorem shapeAt_cons_of_entries_eq_nil (h : e.entries = []) (name : List Char) (rest : Location) :
    shapeAt (name :: rest) e = none := by
  rw [shapeAt_cons, h]
  rfl

theorem entries_eq_nil_of_shape_ne (h : e.shape ≠ .directory) : e.entries = [] := by
  cases e with
  | file content => rfl
  | directory entries => exact absurd rfl h

/-- What anything stands below is a directory. -/
theorem shapeAt_of_shapeAt_append {here rest : Location} (hrest : rest ≠ [])
    (h : (shapeAt (here ++ rest) e).isSome) : shapeAt here e = some .directory := by
  rw [shapeAt, get?_append] at h
  rw [shapeAt]
  cases hhere : e.get? here with
  | none =>
    rw [hhere] at h
    exact absurd h (by simp)
  | some found =>
    by_contra hne
    obtain ⟨name, rest, rfl⟩ := List.exists_cons_of_ne_nil hrest
    have hshape : found.shape ≠ .directory := fun heq => hne (congrArg some heq)
    have hnothing : shapeAt (name :: rest) found = none :=
      shapeAt_cons_of_entries_eq_nil (entries_eq_nil_of_shape_ne hshape) name rest
    rw [hhere, Option.bind_some, ← shapeAt, hnothing] at h
    exact absurd h (by simp)

/-- **Putting an entry** without entries of its own into a directory changes what stands at its
location, where no directory was, and nothing else. -/
theorem shapeAt_put {here : Location} (hnew : new.entries = [])
    (hdir : shapeAt here e = some .directory)
    (hold : shapeAt (here ++ [name]) e ≠ some .directory) :
    shapeAt there (put new (here ++ [name]) e) =
      if there = here ++ [name] then some new.shape else shapeAt there e := by
  induction here generalizing e there with
  | nil =>
    have hshape : e.shape = .directory := Option.some.inj hdir
    cases there with
    | nil => exact congrArg some hshape.symm
    | cons other rest =>
      rw [List.nil_append, put, put, shapeAt_cons, shapeAt_cons, entries]
      by_cases hname : other = name
      · rw [hname, lookup_replaceEntry_self, Option.bind_some]
        cases rest with
        | nil => simp [shapeAt_nil]
        | cons next rest =>
          rw [shapeAt_cons_of_entries_eq_nil hnew, if_neg (by simp)]
          rw [List.nil_append, shapeAt_cons] at hold
          cases hentry : e.entries.lookup name with
          | none => rfl
          | some old =>
            rw [hentry] at hold
            have hold' : old.shape ≠ .directory := fun heq => hold (congrArg some heq)
            exact (shapeAt_cons_of_entries_eq_nil (entries_eq_nil_of_shape_ne hold') _ _).symm
      · rw [lookup_replaceEntry_of_ne hname, if_neg (by simp [hname])]
  | cons first here ih =>
    rw [shapeAt_cons] at hdir
    rw [List.cons_append, shapeAt_cons] at hold
    cases hentry : e.entries.lookup first with
    | none =>
      rw [hentry] at hdir
      exact absurd hdir (by simp)
    | some below =>
      rw [hentry, Option.bind_some] at hdir hold
      have hshape : e.shape = .directory := by
        by_contra hne
        rw [entries_eq_nil_of_shape_ne hne] at hentry
        exact absurd hentry (by simp)
      cases there with
      | nil => exact congrArg some hshape.symm
      | cons other rest =>
        rw [List.cons_append, put, shapeAt_cons, shapeAt_cons, entries, hentry, Option.getD_some]
        by_cases hname : other = first
        · rw [hname, lookup_replaceEntry_self, Option.bind_some, ih hdir hold, hentry,
            Option.bind_some]
          simp
        · rw [lookup_replaceEntry_of_ne hname, if_neg (by simp [hname])]

/-- What is put at a location is there. -/
theorem get?_put_self (new : Entry) (there : Location) (e : Entry) :
    (put new there e).get? there = some new := by
  induction there generalizing e with
  | nil => rfl
  | cons name rest ih =>
    rw [put, get?, entries, lookup_replaceEntry_self, Option.bind_some, ih]

/-- **An entry that is put over another one** leaves no trace of it. -/
theorem put_put (first second : Entry) (there : Location) (e : Entry) :
    put second there (put first there e) = put second there e := by
  induction there generalizing e with
  | nil => rfl
  | cons name rest ih =>
    rw [put, put, entries, lookup_replaceEntry_self, Option.getD_some, ih,
      replaceEntry_replaceEntry, ← put]

end Entry

/-! ## Trees -/

namespace FileTree

variable {tree : FileTree} {here there : Location} {path : Path} {component : List Char}

/-- **What stands at a location**, if anything does. -/
def shapeAt (tree : FileTree) (there : Location) : Option Shape :=
  tree.root.shapeAt there

/-- Whether relative paths start from a directory. -/
def StartsInDirectory (tree : FileTree) : Prop :=
  tree.shapeAt tree.workingDirectory = some .directory

instance (tree : FileTree) : Decidable tree.StartsInDirectory :=
  inferInstanceAs (Decidable (_ = _))

theorem shapeAt_start (h : tree.StartsInDirectory) (path : Path) :
    tree.shapeAt (tree.start path) = some .directory := by
  unfold start
  split
  · by_cases hroot : tree.workingDirectory = []
    · rw [← hroot]
      exact h
    · have hthere : (tree.root.shapeAt ([] ++ tree.workingDirectory)).isSome :=
        Option.isSome_iff_exists.mpr ⟨_, h⟩
      exact Entry.shapeAt_of_shapeAt_append hroot hthere
  · exact h

theorem shapeAt_put_self (tree : FileTree) (e : Entry) (there : Location) :
    (tree.put e there).shapeAt there = some e.shape :=
  congrArg (Option.map Entry.shape) (Entry.get?_put_self e there tree.root)

theorem put_put (tree : FileTree) (first second : Entry) (there : Location) :
    (tree.put first there).put second there = tree.put second there :=
  congrArg (FileTree.mk · tree.workingDirectory) (Entry.put_put first second there tree.root)

theorem any_isDirectory_eq (tree : FileTree) (there : Location) :
    (tree.root.get? there).any Entry.isDirectory =
      decide (tree.shapeAt there = some .directory) := by
  rw [shapeAt, Entry.shapeAt]
  cases tree.root.get? there with
  | none => rfl
  | some e => cases e <;> rfl

/-- Where a component leads depends on what stands where. -/
theorem enter_eq (tree : FileTree) (here : Location) (component : List Char) :
    tree.enter here component =
      match tree.shapeAt here with
      | some .directory =>
        if Path.isHere component then .ok here
        else if Path.isAbove component then .ok here.dropLast
        else if Path.isTooLongName component then .error .nameTooLong
        else if (tree.shapeAt (here ++ [component])).isSome then .ok (here ++ [component])
        else .error .notFound
      | some (.file _) => .error .notDirectory
      | none => .error .notFound := by
  rw [enter, shapeAt, shapeAt, Entry.shapeAt, Entry.shapeAt, Entry.get?_append]
  cases hhere : tree.root.get? here with
  | none => rfl
  | some e =>
    cases e with
    | file content => rfl
    | directory entries =>
      have hentry : ((some (Entry.directory entries)).bind (Entry.get? [component])).isSome =
          (entries.lookup component).isSome := by
        change ((entries.lookup component).bind some).isSome = _
        cases entries.lookup component <;> rfl
      simp only [Option.map_some, Entry.shape, Option.isSome_map, hentry]

/-- A component leads on from directories only. -/
theorem shapeAt_of_enter (h : tree.enter here component = .ok there) :
    tree.shapeAt here = some .directory := by
  rw [enter_eq] at h
  split at h
  · assumption
  · cases h
  · cases h

/-- The content of a file depends on where the path leads and on what stands there. -/
theorem contentOf_eq (tree : FileTree) (path : Path) :
    tree.contentOf path =
      match tree.locate path with
      | .error e => .error e
      | .ok there =>
        match tree.shapeAt there with
        | some (.file content) => .ok content
        | some .directory => .error .isDirectory
        | none => .error .notFound := by
  unfold contentOf find
  cases tree.locate path with
  | error e => rfl
  | ok there =>
    simp only [bind, Except.bind, shapeAt, Entry.shapeAt]
    cases tree.root.get? there with
    | none => rfl
    | some e => cases e <;> rfl

theorem contentOf_eq_ok_iff {content : Bytes} :
    tree.contentOf path = .ok content ↔
      ∃ there, tree.locate path = .ok there ∧ tree.shapeAt there = some (.file content) := by
  rw [contentOf_eq]
  constructor
  · intro h
    split at h
    · cases h
    · next there hlocate =>
      refine ⟨there, hlocate, ?_⟩
      split at h
      · next found hfound => rw [hfound, Except.ok.inj h]
      · cases h
      · cases h
  · rintro ⟨there, hlocate, hshape⟩
    simp only [hlocate, hshape]

end FileTree

end Manpage
