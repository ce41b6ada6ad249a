import Manpage.Files.ManualPath
import Manpage.Proofs.Charset.Order
import Manpage.Proofs.Files.Path
import Manpage.Proofs.Text.Order
import Mathlib.Data.List.Forall2

/-!
# The pages of the manual path

Directories are searched in their order, and in each of them the sections in theirs. What a section
gives does not depend on the others: nothing if its directory cannot be read, and otherwise the
entries that are known to be no directories. These are sorted by their paths, and since all the
paths of a section go through the same directory, that is the order of the names, and of their
bytes. A directory has no two entries of one name, so a section has only one such list.

## Main definitions

* `ManualPath.ListsPages`: the names of the pages that a directory lists
* `ManualPath.IsSection`: the pages of a section
* `ManualPath.IsPageList`: the pages of all sections

## Main results

* `Path.sorted_map_join`: paths in one directory are in the order of their names
* `FileTree.readDirectory_eq_ok_iff`, `Entry.mem_listing_iff`: what a directory in a tree lists
* `ManualPath.pagesBy_spec`: the pages of the manual path
-/

namespace Manpage

namespace Path

variable {names : List (List Char)} {a b : List Char}

/-! ## Paths in one directory -/

theorem isBefore_self (part : Part) : part.isBefore part = false := by
  cases part with
  | name text => exact decide_eq_false (List.lt_irrefl text)
  | root | here | above => rfl

/-- Behind the same components, names are compared. -/
theorem lex_append_name (front : List Part) (a b : List Char) :
    List.lex (front ++ [.name a]) (front ++ [.name b]) Part.isBefore = decide (a < b) := by
  induction front with
  | nil => simp [List.lex, Part.isBefore]
  | cons part front ih =>
    rw [List.cons_append, List.cons_append, List.cons_lex_cons, isBefore_self, ih]
    simp

/-- A path inside a directory counts for what the directory counts for, and for its name. -/
theorem exists_parts_join (directory : Path) :
    ∃ front, ∀ name, IsName name → parts (join directory name) = front ++ [.name name] := by
  obtain ⟨before, -, hcomponents⟩ := exists_components_join directory
  have hhead : ∀ name, IsName name →
      ((before ++ [name]).head? == some ['.']) = (before.head? == some ['.']) := by
    intro name hname
    cases before with
    | nil =>
      have hperiod : name ≠ ['.'] := by
        rintro rfl
        exact Bool.noConfusion hname.here
      simpa using hperiod
    | cons first before => rfl
  refine ⟨(if isAbsolute directory then [.root]
      else if before.head? == some ['.'] then [.here] else []) ++
    (before.filter (!isHere ·)).map fun component =>
      if isAbove component then .above else .name component, fun name hname => ?_⟩
  rw [parts, hcomponents name hname, isAbsolute_join hname, hhead name hname, List.filter_append,
    List.filter_cons_of_pos (by simp [hname.here]), List.filter_nil, List.map_append,
    List.map_singleton, hname.above]
  exact (List.append_assoc _ _ _).symm

/-- **Paths in one directory** are in the order of their names. -/
theorem sorted_map_join (directory : Path) (h : ∀ name ∈ names, IsName name) :
    sorted (names.map (join directory)) = (Text.sorted names).map (join directory) := by
  obtain ⟨front, hfront⟩ := exists_parts_join directory
  refine (List.map_mergeSort fun a ha b hb => ?_).symm
  rw [Text.notAfter, notAfter, hfront a (h a ha), hfront b (h b hb), lex_append_name]

end Path

/-! ## Directories in a tree -/

namespace Entry

theorem mem_listed_iff {entries : List (List Char × Entry)} {e : ListedEntry FileError} :
    e ∈ listed entries ↔
      ∃ found, entries.lookup e.name = some found ∧ e.isDirectory = .ok found.isDirectory := by
  induction entries with
  | nil => simp [listed]
  | cons entry entries ih =>
    obtain ⟨name, first⟩ := entry
    by_cases hname : e.name = name
    · have hlookup : ((name, first) :: entries).lookup e.name = some first := by
        rw [List.lookup_cons, hname, beq_self_eq_true]
      have hothers : e ∉ (listed entries).filter (·.name ≠ name) := fun hmem =>
        of_decide_eq_true (List.mem_filter.mp hmem).2 hname
      rw [listed, dif_pos (hname ▸ e.isName), hlookup, List.mem_cons, or_iff_left hothers]
      obtain ⟨eName, eIsName, eIsDirectory⟩ := e
      obtain rfl : eName = name := hname
      simp
    · have hlookup : ((name, first) :: entries).lookup e.name = entries.lookup e.name := by
        rw [List.lookup_cons, beq_false_of_ne hname]
      have hothers : e ∈ (listed entries).filter (·.name ≠ name) ↔ e ∈ listed entries := by
        rw [List.mem_filter, and_iff_left (decide_eq_true hname)]
      rw [hlookup, ← ih, ← hothers, listed]
      split_ifs with hisName
      · rw [List.mem_cons, or_iff_right]
        rintro rfl
        exact hname rfl
      · exact Iff.rfl

/-- **What a directory lists**: under each name, what is found there. -/
theorem mem_listing_iff {entries : List (List Char × Entry)} {e : ListedEntry FileError} :
    .ok e ∈ (listing entries).items ↔
      ∃ found, entries.lookup e.name = some found ∧ e.isDirectory = .ok found.isDirectory := by
  rw [← mem_listed_iff, listing]
  simp

end Entry

/-- A tree lists the directories that paths lead to. -/
theorem FileTree.readDirectory_eq_ok_iff {tree : FileTree} {path : Path}
    {listing : DirectoryListing FileError} :
    tree.readDirectory path = .ok listing ↔
      ∃ entries, tree.find path = .ok (.directory entries) ∧ listing = Entry.listing entries := by
  rw [readDirectory, bind_eq_ok_iff]
  constructor
  · rintro ⟨found, hfind, h⟩
    cases found with
    | file content => cases h
    | directory entries => exact ⟨entries, hfind, (Except.ok.inj h).symm⟩
  · rintro ⟨entries, hfind, rfl⟩
    exact ⟨.directory entries, hfind, rfl⟩

namespace ManualPath

variable {ε : Type} {read : DirectoryReader ε} {listing : DirectoryListing ε} {directory : Path}
  {directories paths : List Path} {names : List (List Char)} {name : List Char}

/-- The names of the sections, in their order. -/
def sectionNames : List (List Char) :=
  ["man1".toList, "man2".toList, "man3".toList, "man4".toList, "man5".toList, "man6".toList,
    "man7".toList, "man8".toList, "man9".toList]

/-- The paths of the directories of all sections: in their order for each directory in its. -/
def sectionPaths (directories : List Path) : List Path :=
  directories.flatMap fun directory => sectionNames.map (Path.join directory)

/-- **The names of the pages that a directory lists**: the readable entries that are known to be no
directories, each once, in the order of their bytes. -/
structure ListsPages (listing : DirectoryListing ε) (names : List (List Char)) : Prop where
  mem_iff : ∀ name, name ∈ names ↔
    ∃ e, .ok e ∈ listing.items ∧ e.name = name ∧ e.isDirectory = .ok false
  in_order : names.Pairwise fun a b => Utf8.encode a < Utf8.encode b

/-- **The pages of a section**, by the path of its directory. -/
inductive IsSection (read : DirectoryReader ε) (directory : Path) : List Path → Prop
  | unreadable {e : ε} : read directory = .error e → IsSection read directory []
  | readable {listing : DirectoryListing ε} {names : List (List Char)} :
      read directory = .ok listing → ListsPages listing names →
        IsSection read directory (names.map (Path.join directory))

/-- **The pages of all sections** in directories: those of one section behind those of the sections
before it and of the directories before its own. -/
def IsPageList (read : DirectoryReader ε) (directories paths : List Path) : Prop :=
  ∃ blocks, List.Forall₂ (IsSection read) (sectionPaths directories) blocks ∧
    paths = blocks.flatten

theorem sections_eq : sections = sectionNames := by decide

/-! ## One section -/

/-- The names of the pages that a directory lists, in the order of the listing. -/
def pageNames (listing : DirectoryListing ε) : List (List Char) :=
  ((listing.items.filterMap Except.toOption).filter isPage).map ListedEntry.name

theorem mem_readable_iff {items : List (Except ε (ListedEntry ε))} {e : ListedEntry ε} :
    e ∈ items.filterMap Except.toOption ↔ .ok e ∈ items := by
  rw [List.mem_filterMap]
  constructor
  · rintro ⟨item, hitem, hok⟩
    cases item with
    | error _ => exact absurd hok (Option.some_ne_none e).symm
    | ok _ => exact Option.some.inj hok ▸ hitem
  · exact fun h => ⟨_, h, rfl⟩

theorem isPage_iff {e : ListedEntry ε} : isPage e ↔ e.isDirectory = .ok false := by
  unfold isPage
  cases e.isDirectory with
  | error _ => simp
  | ok isDirectory => cases isDirectory <;> simp

theorem mem_pageNames_iff :
    name ∈ pageNames listing ↔
      ∃ e, .ok e ∈ listing.items ∧ e.name = name ∧ e.isDirectory = .ok false := by
  simp only [pageNames, List.mem_map, List.mem_filter, mem_readable_iff, isPage_iff]
  exact exists_congr fun e => ⟨fun ⟨⟨he, hpage⟩, hname⟩ => ⟨he, hname, hpage⟩,
    fun ⟨he, hname, hpage⟩ => ⟨⟨he, hpage⟩, hname⟩⟩

theorem nodup_pageNames (listing : DirectoryListing ε) : (pageNames listing).Nodup :=
  listing.nodup.sublist (List.filter_sublist.map _)

/-- Names in order of which none is repeated are in strict order. -/
theorem pairwise_sorted_pageNames (listing : DirectoryListing ε) :
    (Text.sorted (pageNames listing)).Pairwise (· < ·) := by
  have hnodup : (Text.sorted (pageNames listing)).Nodup :=
    (List.mergeSort_perm _ _).nodup_iff.mpr (nodup_pageNames listing)
  refine ((Text.pairwise_sorted _).and hnodup).imp fun {a b} h => ?_
  exact (List.le_iff_lt_or_eq.mp (List.not_lt.mp h.1)).resolve_right h.2

/-- A directory lists its pages in one way only. -/
theorem listsPages_iff : ListsPages listing names ↔ names = Text.sorted (pageNames listing) := by
  have hmem : ∀ name, name ∈ Text.sorted (pageNames listing) ↔
      ∃ e, .ok e ∈ listing.items ∧ e.name = name ∧ e.isDirectory = .ok false := fun name =>
    List.mem_mergeSort.trans mem_pageNames_iff
  have horder := pairwise_sorted_pageNames listing
  constructor
  · rintro ⟨hnames, hin⟩
    exact Text.eq_of_pairwise_lt (hin.imp Utf8.encode_lt_encode_iff.mp) horder fun name =>
      (hnames name).trans (hmem name).symm
  · rintro rfl
    exact ⟨hmem, horder.imp Utf8.encode_lt_encode⟩

theorem pagesOfSection_ok (h : read directory = .ok listing) :
    pagesOfSection read directory =
      (Text.sorted (pageNames listing)).map (Path.join directory) := by
  have hnames : ∀ name ∈ pageNames listing, Path.IsName name := by
    intro name hname
    obtain ⟨e, -, rfl, -⟩ := mem_pageNames_iff.mp hname
    exact e.isName
  rw [pagesOfSection, h, ← Path.sorted_map_join directory hnames, pageNames, List.map_map]
  rfl

theorem pagesOfSection_error {e : ε} (h : read directory = .error e) :
    pagesOfSection read directory = [] := by
  rw [pagesOfSection, h]

theorem isSection_iff : IsSection read directory paths ↔ pagesOfSection read directory = paths := by
  constructor
  · rintro (⟨herror⟩ | ⟨hok, hlists⟩)
    · exact pagesOfSection_error herror
    · rw [pagesOfSection_ok hok, listsPages_iff.mp hlists]
  · rintro rfl
    cases hread : read directory with
    | error e =>
      rw [pagesOfSection_error hread]
      exact .unreadable hread
    | ok listing =>
      rw [pagesOfSection_ok hread]
      exact .readable hread (listsPages_iff.mpr rfl)

/-- A section has no pages if its directory cannot be read or lists none. -/
theorem pagesOfSection_eq_nil_iff :
    pagesOfSection read directory = [] ↔
      ∀ listing, read directory = .ok listing → ∀ e, .ok e ∈ listing.items →
        e.isDirectory ≠ .ok false := by
  cases hread : read directory with
  | error e =>
    refine iff_of_true (pagesOfSection_error hread) ?_
    rintro listing ⟨⟩
  | ok listing =>
    rw [pagesOfSection_ok hread, List.map_eq_nil_iff, List.eq_nil_iff_forall_not_mem]
    constructor
    · intro hnone other hother e he hpage
      obtain rfl := Except.ok.inj hother
      exact hnone e.name (List.mem_mergeSort.mpr (mem_pageNames_iff.mpr ⟨e, he, rfl, hpage⟩))
    · intro hnone name hname
      obtain ⟨e, he, -, hpage⟩ := mem_pageNames_iff.mp (List.mem_mergeSort.mp hname)
      exact hnone listing rfl e he hpage

/-! ## All sections -/

theorem flatMap_pagesIn :
    directories.flatMap (pagesIn read) =
      ((sectionPaths directories).map (pagesOfSection read)).flatten := by
  rw [← List.flatMap_def, sectionPaths, List.flatMap_assoc]
  refine List.flatMap_congr fun directory _ => ?_
  rw [pagesIn, sections_eq, List.flatMap_map]

theorem forall₂_isSection_iff {sects : List Path} {blocks : List (List Path)} :
    List.Forall₂ (IsSection read) sects blocks ↔ sects.map (pagesOfSection read) = blocks := by
  have hrel : IsSection read = fun directory block => pagesOfSection read directory = block := by
    funext directory block
    exact propext isSection_iff
  rw [hrel, ← List.forall₂_map_left_iff (f := pagesOfSection read) (R := Eq),
    List.forall₂_eq_eq_eq]

theorem isPageList_iff :
    IsPageList read directories paths ↔ directories.flatMap (pagesIn read) = paths := by
  rw [flatMap_pagesIn]
  constructor
  · rintro ⟨blocks, hall, rfl⟩
    rw [forall₂_isSection_iff.mp hall]
  · rintro rfl
    exact ⟨_, forall₂_isSection_iff.mpr rfl, rfl⟩

/-- There are no pages if no section has any. -/
theorem flatMap_pagesIn_eq_nil_iff :
    directories.flatMap (pagesIn read) = [] ↔
      ∀ directory ∈ directories, ∀ sect ∈ sectionNames,
        pagesOfSection read (Path.join directory sect) = [] := by
  simp only [List.flatMap_eq_nil_iff, pagesIn, sections_eq]

theorem pagesBy_eq (read : DirectoryReader ε) (directories : List Path) :
    pagesBy read directories =
      if directories.flatMap (pagesIn read) = [] then .error .noPages
      else .ok (directories.flatMap (pagesIn read)) := by
  unfold pagesBy
  cases directories.flatMap (pagesIn read) with
  | nil => rfl
  | cons path paths => rfl

/-- **The pages of the manual path.** They are the pages of all sections, and it is a failure if
there are none, which is so exactly if no section lists an entry that is known to be no directory.
There is no other failure. -/
theorem pagesBy_spec (read : DirectoryReader ε) (directories : List Path) :
    (∀ paths, pagesBy read directories = .ok paths ↔
      IsPageList read directories paths ∧ paths ≠ []) ∧
    (∀ e, pagesBy read directories = .error e ↔
      e = .noPages ∧ ∀ directory ∈ directories, ∀ sect ∈ sectionNames, ∀ listing,
        read (Path.join directory sect) = .ok listing → ∀ entry, .ok entry ∈ listing.items →
          entry.isDirectory ≠ .ok false) := by
  simp only [isPageList_iff, ← pagesOfSection_eq_nil_iff, ← flatMap_pagesIn_eq_nil_iff]
  rw [pagesBy_eq]
  split_ifs with hnone
  · refine ⟨fun paths => iff_of_false (fun h => ?_) ?_, fun e => ?_⟩
    · cases h
    · rintro ⟨rfl, hne⟩
      exact hne hnone
    · exact ⟨fun h => ⟨(Except.error.inj h).symm, hnone⟩, fun h => congrArg Except.error h.1.symm⟩
  · refine ⟨fun paths => ?_, fun e => iff_of_false (fun h => ?_) fun h => hnone h.2⟩
    · constructor
      · intro h
        obtain rfl := Except.ok.inj h
        exact ⟨rfl, hnone⟩
      · rintro ⟨rfl, -⟩
        rfl
    · cases h

/-- Sections come in their order and not in that of the tree, and a directory in one is no page. -/
example :
    pages
      { root := .directory [("m".toList, .directory [
          ("man3".toList, .directory [("b.3".toList, .file []), ("a.3".toList, .file [])]),
          ("man1".toList, .directory [("old".toList, .directory []), ("z.1".toList, .file [])])])] }
      ["m".toList, "n".toList] =
      .ok ["m/man1/z.1".toList, "m/man3/a.3".toList, "m/man3/b.3".toList] := by cbv

end ManualPath

end Manpage
