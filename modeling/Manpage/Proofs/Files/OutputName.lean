import Manpage.Proofs.Files.Path
import Mathlib.Data.List.Infix

/-!
# Names of output files

The file that a path leads to is named by what stands between its last slashes, and slashes after
the name count for nothing, nor do single periods between them. A path has no such name if it leads
above at its end, or if nothing is left of it. The name of a page's output is made from that name
alone: it loses the ending of an archive, and no other ending, and not if nothing stands before it.
Only slashes, periods and those endings count in a path, so it may be one of bytes as well, each of
them a character of its own.

## Main definitions

* `Path.NamesFile`: the name of the file that a path leads to
* `Source.archiveEndings`: the endings of archives

## Main results

* `Path.fileName?_eq_some_iff`: a path has the name that it ends in
* `Path.splitExtension_eq_iff`: the ending of a name
* `Source.outputName?_spec`: the name of a page's output
-/

namespace Manpage

namespace Path

/-- Texts behind a path that lead no further: slashes, with single periods between them. -/
inductive StaysHere : List Char → Prop
  | nil : StaysHere []
  | slash {rest : List Char} : StaysHere rest → StaysHere ('/' :: rest)
  | period {rest : List Char} : StaysHere rest → StaysHere ('/' :: '.' :: rest)

/-- Texts in front of a name that lead to a directory: nothing, or what ends in a slash. -/
def LeadsInto (front : List Char) : Prop :=
  front = [] ∨ ∃ directory, front = directory ++ ['/']

/-- **The name of the file that a path leads to**: what leads into its directory stands before it,
and what stands behind it leads no further. -/
inductive NamesFile : Path → List Char → Prop
  | intro {front name rest : List Char} : LeadsInto front → IsName name → StaysHere rest →
      NamesFile (front ++ (name ++ rest)) name

variable {path : Path} {front name base ending rest piece : List Char} {after : List (List Char)}

/-! ## Components -/

theorem components_append_slash (h : '/' ∉ piece) (next : List Char) :
    components (piece ++ '/' :: next) = piece :: components next :=
  Text.pieces_append_sep h next

/-- What leads no further ends the component before it, and all that follow stand for the directory
they are in. -/
theorem StaysHere.exists_components (h : StaysHere rest) (hpiece : '/' ∉ piece) :
    ∃ after, components (piece ++ rest) = piece :: after ∧ ∀ c ∈ after, isHere c := by
  induction h generalizing piece with
  | nil =>
    refine ⟨[], ?_, fun _ hc => absurd hc List.not_mem_nil⟩
    rw [List.append_nil, components, Text.pieces_of_notMem hpiece]
  | @slash rest _ ih =>
    have hempty : '/' ∉ ([] : List Char) := List.not_mem_nil
    obtain ⟨after, hafter, hall⟩ := ih hempty
    refine ⟨[] :: after, ?_, List.forall_mem_cons.mpr ⟨rfl, hall⟩⟩
    rw [components_append_slash hpiece, ← hafter, List.nil_append]
  | @period rest _ ih =>
    have hperiod : '/' ∉ ['.'] := by decide
    obtain ⟨after, hafter, hall⟩ := ih hperiod
    refine ⟨['.'] :: after, ?_, List.forall_mem_cons.mpr ⟨rfl, hall⟩⟩
    rw [components_append_slash hpiece, ← hafter, List.singleton_append]

/-- Components that stand for the directory they are in are written by what leads no further. -/
theorem exists_staysHere (h : Text.IsCut (· == '/') path (piece :: after))
    (hall : ∀ c ∈ after, isHere c) : ∃ rest, path = piece ++ rest ∧ StaysHere rest := by
  induction after generalizing path piece with
  | nil =>
    cases h with
    | last => exact ⟨[], (List.append_nil _).symm, .nil⟩
    | cons _ _ hrest => cases hrest
  | cons next after ih =>
    cases h with
    | @cons _ more x _ _ hx hmore =>
      obtain rfl : x = '/' := eq_of_beq hx
      obtain ⟨hnext, hafter⟩ := List.forall_mem_cons.mp hall
      obtain ⟨rest, rfl, hrest⟩ := ih hmore hafter
      rw [isHere, Bool.or_eq_true, beq_iff_eq, beq_iff_eq] at hnext
      rcases hnext with rfl | rfl
      · exact ⟨'/' :: rest, rfl, .slash hrest⟩
      · exact ⟨'/' :: '.' :: rest, rfl, .period hrest⟩

/-- The name of the file is the last component that leads elsewhere, if it does not lead above. -/
theorem fileName?_eq_some_iff_components :
    fileName? path = some name ↔
      IsName name ∧ ∃ before after, components path = before ++ name :: after ∧
        ∀ c ∈ after, isHere c := by
  constructor
  · intro h
    refine ⟨(fileName?_spec h).2, ?_⟩
    obtain ⟨hfind, -⟩ := Option.filter_eq_some_iff.mp h
    obtain ⟨-, after, before, hreverse, hafter⟩ := List.find?_eq_some_iff_append.mp hfind
    refine ⟨before.reverse, after.reverse, ?_, fun c hc => ?_⟩
    · rw [← List.reverse_reverse (components path), hreverse]
      simp
    · simpa using hafter c (List.mem_reverse.mp hc)
  · rintro ⟨hname, before, after, hcomponents, hafter⟩
    refine Option.filter_eq_some_iff.mpr ⟨?_, by rw [hname.above]; rfl⟩
    refine List.find?_eq_some_iff_append.mpr
      ⟨by rw [hname.here]; rfl, after.reverse, before.reverse, ?_, fun c hc => ?_⟩
    · rw [hcomponents]
      simp
    · rw [hafter c (List.mem_reverse.mp hc)]
      rfl

/-- **A path has the name that it ends in.** -/
theorem fileName?_eq_some_iff : fileName? path = some name ↔ NamesFile path name := by
  rw [fileName?_eq_some_iff_components]
  constructor
  · rintro ⟨hname, before, after, hcomponents, hafter⟩
    have hcut : Text.IsCut (· == '/') path (before ++ name :: after) :=
      Text.isCut_iff.mpr hcomponents
    by_cases hbefore : before = []
    · rw [hbefore, List.nil_append] at hcut
      obtain ⟨rest, rfl, hrest⟩ := exists_staysHere hcut hafter
      exact .intro (Or.inl rfl) hname hrest
    · obtain ⟨directory, x, more, rfl, hx, hmore⟩ :=
        hcut.exists_append_cons hbefore (List.cons_ne_nil name after)
      obtain rfl : x = '/' := eq_of_beq hx
      obtain ⟨rest, rfl, hrest⟩ := exists_staysHere hmore hafter
      rw [← List.singleton_append, ← List.append_assoc]
      exact .intro (Or.inr ⟨directory, rfl⟩) hname hrest
  · rintro ⟨hfront, hname, hrest⟩
    obtain ⟨after, hcomponents, hafter⟩ := hrest.exists_components hname.slash
    refine ⟨hname, ?_⟩
    rcases hfront with rfl | ⟨directory, rfl⟩
    · exact ⟨[], after, hcomponents, hafter⟩
    · refine ⟨components directory, after, ?_, hafter⟩
      rw [List.append_assoc, List.singleton_append, components, Text.pieces_append_cons rfl,
        ← components, ← components, hcomponents]

/-! ## Endings -/

/-- **The ending of a name** is what stands behind its last period, if something stands before
it. -/
theorem splitExtension_eq_iff :
    splitExtension name = (base, some ending) ↔
      name = base ++ '.' :: ending ∧ base ≠ [] ∧ '.' ∉ ending := by
  have hreverse : ∀ front back : List Char, name.reverse = back ++ '.' :: front ↔
      name = front.reverse ++ '.' :: back.reverse := by
    intro front back
    rw [← List.reverse_inj, List.reverse_reverse]
    simp
  constructor
  · intro h
    unfold splitExtension at h
    split at h
    · next back front hcut =>
      obtain ⟨hname, hback⟩ := Text.cut?_eq_some_iff.mp hcut
      split_ifs at h with hfront
      · exact absurd (congrArg Prod.snd h) (Option.some_ne_none _).symm
      · obtain ⟨rfl, hending⟩ := Prod.mk.inj h
        obtain rfl := Option.some.inj hending
        exact ⟨(hreverse front back).mp hname, List.reverse_ne_nil_iff.mpr hfront,
          fun hmem => hback (List.mem_reverse.mp hmem)⟩
    · exact absurd (congrArg Prod.snd h) (Option.some_ne_none _).symm
  · rintro ⟨hname, hbase, hending⟩
    have hcut : Text.cut? (· == '.') name.reverse = some (ending.reverse, base.reverse) := by
      refine Text.cut?_eq_some_iff.mpr ⟨(hreverse _ _).mpr ?_, fun hmem => ?_⟩
      · rwa [List.reverse_reverse, List.reverse_reverse]
      · exact hending (List.mem_reverse.mp hmem)
    rw [splitExtension, hcut]
    dsimp only
    rw [if_neg (List.reverse_ne_nil_iff.mpr hbase), List.reverse_reverse, List.reverse_reverse]

end Path

namespace Source

variable {path : Path} {name base ending : List Char}

/-- The endings of archives. -/
def archiveEndings : List (List Char) :=
  ["gz".toList, "bz2".toList, "xz".toList, "lzma".toList]

theorem isSome_ofExtension?_iff :
    (Archive.Format.ofExtension? ending).isSome ↔ ending ∈ archiveEndings := by
  have hkey : ∀ key : String, (String.ofList ending == key) = true ↔ ending = key.toList := by
    intro key
    rw [beq_iff_eq, ← String.ofList_toList (s := key), String.ofList_inj, String.toList_ofList]
  rw [Archive.Format.ofExtension?, List.lookup_isSome_iff]
  simp [hkey, archiveEndings]

/-- The ending of an archive has no period. -/
theorem period_notMem_of_mem_archiveEndings (h : ending ∈ archiveEndings) : '.' ∉ ending := by
  have hall : ∀ e ∈ archiveEndings, '.' ∉ e := by decide
  exact hall ending h

/-- A page is an archive by its name if that has the ending of one, behind something else. -/
theorem isSome_formatOfPath?_iff (hname : path.fileName? = some name) :
    (formatOfPath? path).isSome ↔
      ∃ base ending, base ≠ [] ∧ ending ∈ archiveEndings ∧ name = base ++ '.' :: ending := by
  rw [formatOfPath?, Path.extension?, hname, Option.bind_some]
  constructor
  · intro h
    obtain ⟨format, hformat⟩ := Option.isSome_iff_exists.mp h
    obtain ⟨ending, hending, hof⟩ := Option.bind_eq_some_iff.mp hformat
    have hsplit : Path.splitExtension name = ((Path.splitExtension name).1, some ending) :=
      Prod.ext rfl hending
    obtain ⟨heq, hbase, -⟩ := Path.splitExtension_eq_iff.mp hsplit
    refine ⟨_, ending, hbase, isSome_ofExtension?_iff.mp ?_, heq⟩
    rw [hof]
    rfl
  · rintro ⟨base, ending, hbase, hending, heq⟩
    have hsplit := Path.splitExtension_eq_iff.mpr
      ⟨heq, hbase, period_notMem_of_mem_archiveEndings hending⟩
    rw [hsplit, Option.bind_some]
    exact isSome_ofExtension?_iff.mpr hending

/-- The name of an archive without its ending is that of a file. -/
theorem isName_archive (hbase : base ≠ []) (hslash : '/' ∉ base)
    (hending : ending ∈ archiveEndings) :
    Path.IsName (base ++ '.' :: ending) := by
  have hall : ∀ e ∈ archiveEndings, '/' ∉ e ∧ 2 ≤ e.length := by decide
  obtain ⟨hendingSlash, hlength⟩ := hall ending hending
  have hlong : 3 < (base ++ '.' :: ending).length := by
    rw [List.length_append, List.length_cons]
    have := List.length_pos_iff.mpr hbase
    omega
  have hne : ∀ other : List Char, other.length ≤ 3 → base ++ '.' :: ending ≠ other := by
    rintro other hother rfl
    exact absurd hlong (Nat.not_lt.mpr hother)
  refine ⟨fun hmem => ?_, ?_, ?_⟩
  · rcases List.mem_append.mp hmem with hmem | hmem
    · exact hslash hmem
    · rcases List.mem_cons.mp hmem with hmem | hmem
      · exact absurd hmem (by decide)
      · exact hendingSlash hmem
  · simpa [Path.isHere] using hne ['.'] (by decide)
  · simpa [Path.isAbove] using hne ['.', '.'] (by decide)

/-- The name of the output of an archive. -/
theorem outputName?_archive (hname : path.fileName? = some (base ++ '.' :: ending))
    (hbase : base ≠ []) (hending : ending ∈ archiveEndings) :
    outputName? path = some (base ++ ".html".toList) := by
  have hsplit := Path.splitExtension_eq_iff.mpr
    ⟨rfl, hbase, period_notMem_of_mem_archiveEndings hending⟩
  rw [outputName?, hname, Option.map_some,
    if_pos ((isSome_formatOfPath?_iff hname).mpr ⟨base, ending, hbase, hending, rfl⟩), hsplit]

/-- The name of the output of any other page. -/
theorem outputName?_plain (hname : path.fileName? = some name)
    (hplain : ∀ base ending, base ≠ [] → ending ∈ archiveEndings → name ≠ base ++ '.' :: ending) :
    outputName? path = some (name ++ ".html".toList) := by
  rw [outputName?, hname, Option.map_some, if_neg]
  intro hformat
  obtain ⟨base, ending, hbase, hending, heq⟩ := (isSome_formatOfPath?_iff hname).mp hformat
  exact hplain base ending hbase hending heq

/-- **The name of a page's output.** There is one exactly if the page's path leads to a file by
name, and then it is the name of a file that ends in `.html`. An archive's name, however the path
leads to it, loses the ending of the archive; any other name loses nothing. -/
theorem outputName?_spec :
    (∀ path, outputName? path = none ↔ ¬ ∃ name, Path.NamesFile path name) ∧
    (∀ path name, outputName? path = some name → Path.IsName name ∧ ".html".toList <:+ name) ∧
    (∀ front base ending rest, Path.LeadsInto front → base ≠ [] → '/' ∉ base →
      ending ∈ archiveEndings → Path.StaysHere rest →
        outputName? (front ++ (base ++ '.' :: ending ++ rest)) = some (base ++ ".html".toList)) ∧
    (∀ path name, Path.NamesFile path name →
      (∀ base ending, base ≠ [] → ending ∈ archiveEndings → name ≠ base ++ '.' :: ending) →
        outputName? path = some (name ++ ".html".toList)) := by
  refine ⟨fun path => ?_, fun path name h => ?_, ?_, fun path name hname => ?_⟩
  · rw [outputName?, Option.map_eq_none_iff, Option.eq_none_iff_forall_ne_some, not_exists]
    exact forall_congr' fun name => not_congr Path.fileName?_eq_some_iff
  · refine ⟨(isName_outputName h).1, ?_⟩
    obtain ⟨file, -, rfl⟩ := Option.map_eq_some_iff.mp h
    exact List.suffix_append _ _
  · intro front base ending rest hfront hbase hslash hending hrest
    have hname := Path.NamesFile.intro hfront (isName_archive hbase hslash hending) hrest
    exact outputName?_archive (Path.fileName?_eq_some_iff.mpr hname) hbase hending
  · exact outputName?_plain (Path.fileName?_eq_some_iff.mpr hname)

/-- Periods at the front of a name are part of what stands before the ending. -/
example : outputName? "a/...gz/.".toList = some "...html".toList ∧
    outputName? "a/.gz".toList = some ".gz.html".toList ∧ outputName? "a/../.".toList = none := by
  decide

end Source

end Manpage
