import Manpage.Proofs.Command.Schedule

/-!
# Pages on the standard output

Pages that go to the standard output leave the files alone, so what each page comes to is settled by
the files that the run starts with, and the order in which the pages take their steps is not to be
seen in the end. What is printed are the rendered pages in the order in which they are given; pages
that cannot be read are left out, and they make the run fail.

## Main definitions

* `Command.Prints`: a page that is being converted to the standard output
* `Command.IsPrinted`: what a run to the standard output comes to

## Main results

* `Progress.prints_run`: what every step of a run to the standard output keeps
* `run_isPrinted`: the outcome, whatever the schedule
-/

namespace Manpage.Command

variable {codecs : Codecs} {o : Options} {tree : FileTree} {w : World} {path : Path} {stage : Stage}
  {paths : List Path} {schedule : List Nat} {outcome : Outcome}

/-- **A page that is being converted** to the standard output, from the files that are there. -/
def Prints (codecs : Codecs) (o : Options) (tree : FileTree) (path : Path) : Stage → Prop
  | .waiting => True
  | .rendered text => renderFile codecs o tree path = .ok text
  | .opened _ _ => False
  | .done result => result = (renderFile codecs o tree path).map some

/-- The next step leaves the files alone. -/
theorem Prints.next (h : Prints codecs o tree path stage) :
    (stage.next codecs o none path tree).1 = tree ∧
      Prints codecs o tree path (stage.next codecs o none path tree).2 := by
  cases stage with
  | waiting =>
    cases hrender : renderFile codecs o tree path with
    | ok text =>
      have hnext : Stage.waiting.next codecs o none path tree = (tree, .rendered text) := by
        simp only [Stage.next, hrender]
      rw [hnext]
      exact ⟨rfl, hrender⟩
    | error e =>
      have hnext : Stage.waiting.next codecs o none path tree = (tree, .done (.error e)) := by
        simp only [Stage.next, hrender]
      rw [hnext]
      refine ⟨rfl, ?_⟩
      rw [Prints, hrender]
      rfl
  | rendered text =>
    have hrender : renderFile codecs o tree path = .ok text := h
    refine ⟨rfl, ?_⟩
    rw [Stage.next, Prints, hrender]
    rfl
  | opened there content => exact h.elim
  | done result => exact ⟨rfl, h⟩

namespace Progress

/-- **What every step keeps**: the files, and what each page comes to from them. -/
theorem prints_run (codecs : Codecs) (o : Options) (tree : FileTree) (paths : List Path)
    (schedule : List Nat) :
    ((start tree paths).run codecs o none schedule).tree = tree ∧
      ∀ page ∈ ((start tree paths).run codecs o none schedule).pages,
        Prints codecs o tree page.1 page.2 := by
  refine @forall_pages_run codecs o none tree (· = tree) (Prints codecs o tree) ?_ rfl paths
    (fun _ _ => trivial) schedule
  rintro now path stage rfl h
  exact h.next

/-- Pages that are done have come to what they come to by themselves. -/
theorem results_eq_of_prints {pages : List (Path × Stage)} {results : List Result}
    (hpages : ∀ page ∈ pages, Prints codecs o tree page.1 page.2)
    (hdone : pages.map Prod.snd = results.map .done) :
    results = (pages.map Prod.fst).map fun path => (renderFile codecs o tree path).map some := by
  induction pages generalizing results with
  | nil => exact List.map_eq_nil_iff.mp hdone.symm
  | cons page pages ih =>
    obtain ⟨path, stage⟩ := page
    obtain ⟨result, rest, rfl, rfl, hrest⟩ := List.map_eq_cons_iff.mp hdone.symm
    have hresult : result = (renderFile codecs o tree path).map some := hpages _ List.mem_cons_self
    rw [ih (fun page hpage => hpages page (List.mem_cons_of_mem _ hpage)) hrest.symm, hresult]
    rfl

/-- **The schedule does not matter** to pages that go to the standard output. -/
theorem eq_convertToStdout_of_outcome?
    (h : ((start tree paths).run codecs o none schedule).outcome? = some outcome) :
    outcome = convertToStdout codecs o tree paths := by
  obtain ⟨results, hdone, rfl⟩ := outcome?_eq_some_iff.mp h
  obtain ⟨htree, hpages⟩ := prints_run codecs o tree paths schedule
  have hresults : results = paths.map fun path => (renderFile codecs o tree path).map some := by
    rw [results_eq_of_prints hpages hdone, map_fst_pages_run]
  rw [convertToStdout_eq, htree, hresults, List.length_map]

end Progress

/-! ## What is printed -/

/-- **What a run to the standard output comes to**: the pages that can be read are printed, in the
order in which they are given, and no file is created. It fails if there is a page that cannot be
read. -/
structure IsPrinted (codecs : Codecs) (o : Options) (w : World) (outcome : Outcome) : Prop where
  stdout : outcome.stdout =
    (o.files.filterMap fun path => (Source.readPage codecs w.tree path).toOption).flatMap (render o)
  tree : outcome.tree = w.tree
  failed : outcome.status = 1 ↔
    ∃ path ∈ o.files, ∃ e, Source.readPage codecs w.tree path = .error e
  succeeded : outcome.status = 0 ↔
    ∀ path ∈ o.files, ∃ text, Source.readPage codecs w.tree path = .ok text

theorem printed_map_renderFile (codecs : Codecs) (o : Options) (tree : FileTree)
    (paths : List Path) :
    printed (paths.map fun path => (renderFile codecs o tree path).map some) =
      (paths.filterMap fun path =>
        (Source.readPage codecs tree path).toOption).flatMap (render o) := by
  induction paths with
  | nil => rfl
  | cons path paths ih =>
    rw [List.map_cons, printed, List.flatMap_cons, ← printed, ih, List.filterMap_cons, renderFile]
    cases Source.readPage codecs tree path with
    | ok text => rfl
    | error e => rfl

/-- Nothing has failed if all pages can be read. -/
theorem failuresOf_map_renderFile_eq_nil_iff (codecs : Codecs) (o : Options) (tree : FileTree)
    (paths : List Path) :
    failuresOf (paths.map fun path => (renderFile codecs o tree path).map some) = [] ↔
      ∀ path ∈ paths, ∃ text, Source.readPage codecs tree path = .ok text := by
  induction paths with
  | nil => simp [failuresOf]
  | cons path paths ih =>
    rw [List.forall_mem_cons, ← ih, List.map_cons, failuresOf, List.filterMap_cons, renderFile]
    cases Source.readPage codecs tree path with
    | ok text => simp [Except.map, failuresOf]
    | error e => simp [Except.map]

theorem isPrinted_convertToStdout (codecs : Codecs) (o : Options) (w : World) :
    IsPrinted codecs o w (convertToStdout codecs o w.tree o.files) := by
  rw [convertToStdout_eq]
  have hread := failuresOf_map_renderFile_eq_nil_iff codecs o w.tree o.files
  have herror : (∃ path ∈ o.files, ∃ e, Source.readPage codecs w.tree path = .error e) ↔
      ¬ ∀ path ∈ o.files, ∃ text, Source.readPage codecs w.tree path = .ok text := by
    rw [not_forall]
    refine exists_congr fun path => ?_
    cases Source.readPage codecs w.tree path <;> simp
  refine ⟨printed_map_renderFile codecs o w.tree o.files, rfl, ?_, ?_⟩
  · rw [status_batchOutcome, herror, ← hread]
    split_ifs with h <;> simp [h]
  · rw [status_batchOutcome, ← hread]
    split_ifs with h <;> simp [h]

/-! ## The command -/

theorem Options.foldlM_addFile (h : [] ∉ paths) :
    paths.foldlM Options.addFile o = .ok { o with files := o.files ++ paths } := by
  induction paths generalizing o with
  | nil => rw [List.append_nil]; rfl
  | cons path paths ih =>
    obtain ⟨hpath, hpaths⟩ := not_or.mp (List.mem_cons.not.mp h)
    rw [List.foldlM_cons, Options.addFile, if_neg fun heq => hpath heq.symm]
    change paths.foldlM Options.addFile { o with files := o.files ++ [path] } = _
    rw [ih hpaths, List.append_assoc, List.singleton_append]

/-- **All files can be given**, whatever their names begin with: two dashes go before them. -/
theorem Options.parse_stdout (h : [] ∉ paths) :
    Options.parse ("-s".toList :: "--".toList :: paths) =
      .ok { files := paths, stdout := true } :=
  @Options.foldlM_addFile { stdout := true } paths h

/-- Without the pages of the manual path, a run to the standard output is one over the files that
are given. -/
theorem performBy_stdout (hcompletions : o.completions = none) (hfiles : o.files ≠ [])
    (hmanual : o.manualPath = false) (hstdout : o.stdout = true ∨ o.links = true)
    (schedule : List Nat) :
    performBy codecs schedule o w =
      ((Progress.start w.tree o.files).run codecs o none schedule).outcome? := by
  have hstdin : o.readsStdin = false := by simp [Options.readsStdin, hfiles]
  have hpaths : pagePaths o w = .ok o.files := by simp [pagePaths, hmanual, pure, Except.pure]
  have hdirectory : o.outputDirectory w.dataDirectory = none := by
    rw [Options.outputDirectory, if_pos (by simpa using hstdout)]
  unfold performBy
  simp [hcompletions, hstdin, hpaths, hdirectory]

/-- **A run to the standard output** prints the pages that can be read, in the order of the
arguments, whatever the order in which they are converted: each schedule that ends leaves the same
outcome, and each can be brought to its end. -/
theorem run_isPrinted {arguments : List (List Char)} (hparse : Options.parse arguments = .ok o)
    (hfiles : o.files ≠ []) (hmanual : o.manualPath = false) (hcompletions : o.completions = none)
    (hstdout : o.stdout = true ∨ o.links = true) :
    (∀ schedule outcome, performBy codecs schedule o w = some outcome →
        outcome = run codecs arguments w) ∧
      (∀ schedule, ∃ more,
        performBy codecs (schedule ++ more) o w = some (run codecs arguments w)) ∧
      IsPrinted codecs o w (run codecs arguments w) := by
  have hschedules : ∀ schedule outcome, performBy codecs schedule o w = some outcome →
      outcome = convertToStdout codecs o w.tree o.files := by
    intro schedule outcome h
    rw [performBy_stdout hcompletions hfiles hmanual hstdout] at h
    exact Progress.eq_convertToStdout_of_outcome? h
  have hrun : run codecs arguments w = convertToStdout codecs o w.tree o.files := by
    obtain ⟨schedule, hschedule⟩ := exists_performBy_eq codecs o w
    rw [run, hparse]
    exact hschedules schedule _ hschedule
  rw [hrun]
  refine ⟨hschedules, fun schedule => ?_, isPrinted_convertToStdout codecs o w⟩
  obtain ⟨more, outcome, h⟩ := exists_performBy_append codecs schedule o w
  exact ⟨more, hschedules _ outcome h ▸ h⟩

/-- A page that is missing and one in a character set that is not known, between a page and the same
page again. -/
theorem run_isPrinted_missing :
    let codecs : Codecs := .bare
    let o : Options :=
      { files := ["a".toList, "b".toList, "c".toList, "a".toList], stdout := true }
    let w : World :=
      { tree := { root := .directory [("a".toList, .file [120]),
          ("c".toList, .file [0xFF, 0xFE, 0x00, 0x00])] } }
    (∀ schedule outcome, performBy codecs schedule o w = some outcome →
        outcome = run codecs ("-s".toList :: "--".toList :: o.files) w) ∧
      (run codecs ("-s".toList :: "--".toList :: o.files) w).stdout =
        render o "x".toList ++ render o "x".toList ∧
      (run codecs ("-s".toList :: "--".toList :: o.files) w).status = 1 := by
  intro codecs o w
  have hpage : Source.readPage codecs w.tree "a".toList = .ok "x".toList := by decide +kernel
  have hmissing : Source.readPage codecs w.tree "b".toList =
      .error (.file "b".toList (.files .notFound)) := by decide +kernel
  have hunknown : Source.readPage codecs w.tree "c".toList = .error (.charset "c".toList) := by
    decide +kernel
  obtain ⟨hschedule, -, hprinted⟩ := @run_isPrinted codecs o w
    ("-s".toList :: "--".toList :: o.files) (Options.parse_stdout (by decide)) (by decide) rfl rfl
    (Or.inl rfl)
  refine ⟨hschedule, ?_, hprinted.failed.mpr ⟨"b".toList, by decide, _, hmissing⟩⟩
  rw [hprinted.stdout, List.filterMap_cons, hpage, List.filterMap_cons, hmissing,
    List.filterMap_cons, hunknown, List.filterMap_cons, hpage]
  simp [Except.toOption]

end Manpage.Command
