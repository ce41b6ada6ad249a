import Manpage.Files.ManualPath
import Manpage.Proofs.Text.Lines

/-!
# The directories of the manual path

A text lists the names that stand between its colons, and empty ones do not count. So the setting,
or what a program tells, may be there and yet list nothing: it may be blank or hold colons only. The
directories are those of the first text that lists any, which makes them names that are not empty,
and the usual directories are the last to be tried, so there are always some. Before them comes the
configuration file, which gives the second word of each line that speaks of the manual path.

## Main definitions

* `ManualPath.Lists`: the names that a text lists
* `ManualPath.told?`: the text that a program tells
* `ManualPath.FirstListed`: the names that the first of several texts lists

## Main results

* `ManualPath.lists_iff`: the names in a list
* `ManualPath.ofConfigurationLine?_eq_some_iff`: what a line of the configuration file gives
* `ManualPath.directories_eq_of_configuration`: when the configuration file is followed
* `ManualPath.directories_ofSystem`: where the directories of the manual path come from
-/

namespace Manpage.ManualPath

/-- **The names that a text lists**: what stands between its colons, where that is not empty. -/
inductive Lists : List Char → List Path → Prop
  | nil : Lists [] []
  | colon {text : List Char} {names : List Path} : Lists text names → Lists (':' :: text) names
  | last {name : List Char} : name ≠ [] → ':' ∉ name → Lists name [name]
  | cons {name text : List Char} {names : List Path} : name ≠ [] → ':' ∉ name →
      Lists text names → Lists (name ++ ':' :: text) (name :: names)

/-- The text that a program tells: what it wrote, without the blanks at its ends. A program that
does not exist or that failed tells none. -/
def told? : Option ProgramResult → Option (List Char)
  | some r => if r.status = 0 then some (Text.trim r.stdout) else none
  | none => none

/-- **The names that the first of several texts lists** of those that list any. Texts may be
missing, and if none lists a name, the usual directories are taken. -/
inductive FirstListed : List (Option (List Char)) → List Path → Prop
  | usual : FirstListed [] ["/usr/share/man".toList, "/usr/local/share/man".toList]
  | missing {texts : List (Option (List Char))} {names : List Path} : FirstListed texts names →
      FirstListed (none :: texts) names
  | skip {text : List Char} {texts : List (Option (List Char))} {names : List Path} :
      Lists text [] → FirstListed texts names → FirstListed (some text :: texts) names
  | here {text : List Char} {texts : List (Option (List Char))} {names : List Path} :
      Lists text names → names ≠ [] → FirstListed (some text :: texts) names

variable {text name : List Char} {names : List Path} {texts : List (Option (List Char))}

/-! ## Lists with colons -/

/-- A name that is not empty is kept. -/
theorem filter_name_cons (h : name ≠ []) (pieces : List (List Char)) :
    (name :: pieces).filter (· ≠ []) = name :: pieces.filter (· ≠ []) :=
  List.filter_cons_of_pos (by simpa using h)

theorem split_colon (text : List Char) : split (':' :: text) = split text := by
  rw [split, Text.pieces_cons, if_pos (beq_self_eq_true _)]
  rfl

/-- **The names in a list** are those that the text lists. -/
theorem lists_iff : Lists text names ↔ split text = names := by
  constructor
  · intro h
    induction h with
    | nil => rfl
    | @colon text names _ ih => rw [split_colon, ih]
    | last hne hcolon =>
      rw [split, Text.pieces_of_notMem hcolon]
      exact filter_name_cons hne []
    | @cons name text names hne hcolon _ ih =>
      rw [split, Text.pieces_append_sep hcolon, filter_name_cons hne, ← split, ih]
  · rintro rfl
    induction text using Text.pieces_induction ':' with
    | last piece hpiece =>
      rw [split, Text.pieces_of_notMem hpiece]
      by_cases hne : piece = []
      · subst hne
        exact .nil
      · rw [filter_name_cons hne]
        exact .last hne hpiece
    | cons piece rest hpiece ih =>
      rw [split, Text.pieces_append_sep hpiece]
      by_cases hne : piece = []
      · subst hne
        exact .colon ih
      · rw [filter_name_cons hne]
        exact .cons hne hpiece ih

theorem ne_nil_of_lists (h : Lists text names) : ∀ name ∈ names, name ≠ [] := by
  rw [← lists_iff.mp h]
  exact fun name hname => of_decide_eq_true (List.mem_filter.mp hname).2

/-! ## The first text that lists a name -/

/-- The names that a text lists, if there is a text. -/
def listed (text : Option (List Char)) : List Path :=
  (text.map split).getD []

theorem ofProgram_eq (result : Option ProgramResult) :
    ofProgram result = listed (told? result) := by
  cases result with
  | none => rfl
  | some r =>
    rw [ofProgram, told?]
    split_ifs <;> rfl

theorem firstListed_iff :
    FirstListed texts names ↔ ((texts.map listed).find? (· ≠ [])).getD usual = names := by
  induction texts with
  | nil => exact ⟨fun | .usual => rfl, fun h => h ▸ .usual⟩
  | cons text texts ih =>
    rw [List.map_cons, List.find?_cons]
    by_cases hempty : listed text = []
    · rw [decide_eq_false (not_not_intro hempty), ← ih]
      cases text with
      | none => exact ⟨fun | .missing h => h, .missing⟩
      | some text =>
        refine ⟨fun h => ?_, .skip (lists_iff.mpr hempty)⟩
        cases h with
        | skip _ h => exact h
        | here hlists hne => exact absurd ((lists_iff.mp hlists).symm.trans hempty) hne
    · rw [decide_eq_true hempty]
      cases text with
      | none => exact absurd rfl hempty
      | some text =>
        refine ⟨fun h => ?_, fun h => .here (lists_iff.mpr h) (h ▸ hempty)⟩
        cases h with
        | skip hlists _ => exact absurd (lists_iff.mp hlists) hempty
        | here hlists _ => exact lists_iff.mp hlists

/-- Some names are always listed, and none is empty. -/
theorem FirstListed.ne_nil (h : FirstListed texts names) :
    names ≠ [] ∧ ∀ name ∈ names, name ≠ [] := by
  induction h with
  | usual => exact ⟨List.cons_ne_nil _ _, by decide⟩
  | missing _ ih => exact ih
  | skip _ _ ih => exact ih
  | here hlists hne => exact ⟨hne, ne_nil_of_lists hlists⟩

/-! ## The configuration file -/

/-- **What a line of the configuration file gives**: its second word, if it speaks of the manual
path and is no comment. -/
theorem ofConfigurationLine?_eq_some_iff {line : List Char} :
    ofConfigurationLine? line = some name ↔
      (Text.trimStart line).head? ≠ some '#' ∧
        ("manpath".toList <:+: line ∨ "MANPATH".toList <:+: line) ∧
        ((Text.pieces Text.isBlank line).filter (· ≠ []))[1]? = some name := by
  rw [ofConfigurationLine?, ← Text.holds_iff, ← Text.holds_iff, ← Bool.or_eq_true]
  split_ifs with h
  · rw [Bool.or_eq_true, decide_eq_true_eq, Bool.not_eq_true'] at h
    refine iff_of_false nofun ?_
    rintro ⟨hcomment, hspeaks, -⟩
    rcases h with h | h
    · exact hcomment h
    · exact Bool.false_ne_true (h.symm.trans hspeaks)
  · rw [Bool.or_eq_true, decide_eq_true_eq, Bool.not_eq_true', not_or, Bool.not_eq_false] at h
    exact ⟨fun hname => ⟨h.1, h.2, hname⟩, fun hline => hline.2.2⟩

theorem ne_nil_of_mem_ofConfiguration {text : Option (List Char)}
    (h : name ∈ ofConfiguration text) : name ≠ [] := by
  cases text with
  | none => cases h
  | some text =>
    obtain ⟨line, -, hline⟩ := List.mem_filterMap.mp h
    have hword := List.mem_of_getElem? (ofConfigurationLine?_eq_some_iff.mp hline).2.2
    exact of_decide_eq_true (List.mem_filter.mp hword).2

/-- What is tried before the configuration file, and then that file. -/
theorem directories_eq (e : Environment) :
    directories e =
      ((((e.setting? :: e.programs.map told?).map listed).find? (· ≠ [])).or
        ([ofConfiguration e.configuration?].find? (· ≠ []))).getD usual := by
  have hprograms : e.programs.map ofProgram = (e.programs.map told?).map listed := by
    rw [List.map_map]
    exact List.map_congr_left fun result _ => ofProgram_eq result
  rw [← List.find?_append, List.map_cons, ← hprograms]
  rfl

/-- The texts are tried in their order: the setting first, and then what the programs tell. -/
theorem directories_eq_iff {e : Environment} (h : ofConfiguration e.configuration? = []) :
    directories e = names ↔ FirstListed (e.setting? :: e.programs.map told?) names := by
  rw [firstListed_iff, directories_eq, h]
  exact Iff.of_eq (congrArg (Option.getD · usual = names) (Option.or_none))

/-- **The configuration file is followed** if neither the setting nor a program lists a name and the
file gives one, and otherwise it changes nothing. -/
theorem directories_eq_of_configuration (e : Environment) :
    directories e =
      if (∀ text ∈ e.setting? :: e.programs.map told?, listed text = []) ∧
          ofConfiguration e.configuration? ≠ [] then ofConfiguration e.configuration?
      else directories { e with configuration? := none } := by
  rw [directories_eq, directories_eq]
  dsimp only
  cases hfind : ((e.setting? :: e.programs.map told?).map listed).find? (· ≠ []) with
  | some found =>
    have hlisted : ¬ ∀ text ∈ e.setting? :: e.programs.map told?, listed text = [] := by
      intro hnone
      obtain ⟨text, htext, rfl⟩ := List.mem_map.mp (List.mem_of_find?_eq_some hfind)
      have hnames := List.find?_some hfind
      exact of_decide_eq_true hnames (hnone text htext)
    rw [if_neg fun h => hlisted h.1]
    rfl
  | none =>
    have hlisted : ∀ text ∈ e.setting? :: e.programs.map told?, listed text = [] := by
      intro text htext
      simpa using List.find?_eq_none.mp hfind (listed text) (List.mem_map_of_mem htext)
    by_cases hgiven : ofConfiguration e.configuration? = []
    · rw [if_neg fun h => h.2 hgiven, hgiven]
      rfl
    · rw [if_pos ⟨hlisted, hgiven⟩, Option.none_or, List.find?_cons_of_pos (by simpa using hgiven)]
      rfl

/-- **There is always a directory**, and none has an empty name. -/
theorem directories_ne_nil (e : Environment) :
    directories e ≠ [] ∧ ∀ name ∈ directories e, name ≠ [] := by
  rw [directories_eq_of_configuration]
  split_ifs with h
  · exact ⟨h.2, fun name hname => ne_nil_of_mem_ofConfiguration hname⟩
  · exact ((directories_eq_iff rfl).mp rfl).ne_nil

/-- Comments and other settings give no directories. -/
example :
    directories
      { configuration? := some
          "# manpath /a\nmanpath /usr/share/man\nMANPATH /opt/man\noutput width 78\n".toList } =
      ["/usr/share/man".toList, "/opt/man".toList] := by decide +kernel

/-! ## Where the directories come from -/

/-- **Where the directories of the manual path come from**: they are the names that the first text
lists that lists any, of the setting and of what the two programs tell, or else the usual
directories. There is always a directory, and none has an empty name. -/
theorem directories_ofSystem (setting? : Option (List Char))
    (run : List String → Option ProgramResult) :
    directories (.ofSystem setting? run) ≠ [] ∧
      (∀ name ∈ directories (.ofSystem setting? run), name ≠ []) ∧
      ∀ names, directories (.ofSystem setting? run) = names ↔
        FirstListed [setting?, told? (run ["manpath"]), told? (run ["man", "--path"])] names := by
  obtain ⟨hsome, hnames⟩ := directories_ne_nil (.ofSystem setting? run)
  exact ⟨hsome, hnames, fun names => directories_eq_iff rfl⟩

/-- A setting of colons and a program that failed are passed over, and blanks around what a program
wrote are no part of a name. -/
example :
    directories
      (.ofSystem (some "::".toList) fun command =>
        if command = ["manpath"] then some ⟨"/a".toList, 1⟩ else some ⟨" :/b::/c\n".toList, 0⟩) =
      ["/b".toList, "/c".toList] := by decide

end Manpage.ManualPath
