import Manpage.Command.Run
import Manpage.Proofs.Files.Tree
import Mathlib.Logic.Function.Iterate

/-!
# Pages that are converted at the same time

Pages are converted independently of each other, and their steps come in any order: a page is read
and rendered, the file that it goes to is created or emptied, and the content is written to it. A
schedule names the page that takes the next step, time and again. What a run comes to is told once
every page is done, from the results in the order of the pages. Converting the pages one after the
other is what one of the schedules does.

## Main definitions

* `Command.Stage`: how far the conversion of a page has come
* `Command.Progress`: pages that are being converted, and the files
* `Command.performBy`: the command with a schedule for its conversions

## Main results

* `exists_performBy_append`: every run can be brought to its end
* `exists_performBy_eq`: converting pages one after the other is one of the runs
-/

namespace Manpage.Command

/-- What the conversion of a page comes to: a failure, or else a text for the standard output if the
page does not go to a file. -/
abbrev Result := Except PageError (Option (List Char))

/-- **How far the conversion of a page has come.** -/
inductive Stage where
  /-- The page is not read yet. -/
  | waiting
  /-- The page is rendered. -/
  | rendered (text : List Char)
  /-- The file at a location is there, and empty; its content is still to be written. -/
  | opened (there : Location) (content : Bytes)
  /-- The conversion has ended. -/
  | done (result : Result)

/-- A directory that pages go to, as it is called in errors, and its location. -/
structure Destination where
  directory : Path
  here : Location

variable {codecs : Codecs} {o : Options} {destination : Option Destination} {tree : FileTree}
  {path : Path}

/-- The location of the file that a page goes to, if a file can be there. -/
def outputLocation (d : Destination) (tree : FileTree) (path : Path) : Except PageError Location :=
  match Source.outputName? path with
  | none => .error (.file path .noFileName)
  | some name =>
    let target := Path.join d.directory name
    if target.isTooLong then .error (.file target (.files .nameTooLong))
    else if Path.isTooLongName name then .error (.file target (.files .nameTooLong))
    else if tree.shapeAt (d.here ++ [name]) = some .directory then
      .error (.file target (.files .isDirectory))
    else .ok (d.here ++ [name])

/-- The content of a file, once `content` is written to its beginning. -/
def overwritten (content : Bytes) : Option Shape → Bytes
  | some (.file old) => content ++ old.drop content.length
  | _ => content

/-- **The next step** in the conversion of a page. -/
def Stage.next (codecs : Codecs) (o : Options) (destination : Option Destination) (path : Path)
    (tree : FileTree) : Stage → FileTree × Stage
  | waiting =>
    match renderFile codecs o tree path with
    | .ok text => (tree, .rendered text)
    | .error e => (tree, .done (.error e))
  | rendered text =>
    match destination with
    | none => (tree, .done (.ok (some text)))
    | some d =>
      match outputLocation d tree path with
      | .ok there => (tree.put (.file []) there, .opened there (Utf8.encode text))
      | .error e => (tree, .done (.error e))
  | opened there content =>
    (tree.put (.file (overwritten content (tree.shapeAt there))) there, .done (.ok none))
  | done result => (tree, .done result)

/-- **Pages that are being converted**, in the order in which they are given, and the files. -/
structure Progress where
  tree : FileTree
  pages : List (Path × Stage)

namespace Progress

/-- No page is read yet. -/
def start (tree : FileTree) (paths : List Path) : Progress :=
  { tree, pages := paths.map (·, .waiting) }

/-- The page with the given number takes its next step. -/
def step (codecs : Codecs) (o : Options) (destination : Option Destination) (s : Progress)
    (number : Nat) : Progress :=
  match s.pages[number]? with
  | none => s
  | some (path, stage) =>
    let (tree, stage) := stage.next codecs o destination path s.tree
    { tree, pages := s.pages.set number (path, stage) }

/-- **A run**: pages take steps as a schedule says. -/
def run (codecs : Codecs) (o : Options) (destination : Option Destination) (s : Progress)
    (schedule : List Nat) : Progress :=
  schedule.foldl (step codecs o destination) s

end Progress

/-- The result of a conversion that has ended. -/
def Stage.result? : Stage → Option Result
  | done result => some result
  | _ => none

/-- The failures among results. -/
def failuresOf (results : List Result) : List PageError :=
  results.filterMap fun
    | .ok _ => none
    | .error e => some e

/-- What is printed of results. -/
def printed (results : List Result) : List Char :=
  results.flatMap fun
    | .ok text => text.getD []
    | .error _ => []

/-- What a run over all pages leaves, once they are done. -/
def Progress.outcome? (s : Progress) : Option Outcome := do
  let results ← s.pages.mapM fun page => page.2.result?
  return batchOutcome (printed results) s.tree (failuresOf results) results.length

/-- **The command with a schedule** for its conversions; none if some of them have not ended. -/
def performBy (codecs : Codecs) (schedule : List Nat) (o : Options) (w : World) : Option Outcome :=
  if o.completions.isSome || o.readsStdin then some (perform codecs o w)
  else
    match pagePaths o w with
    | .error e => some (stopped w.tree e)
    | .ok paths =>
      match o.outputDirectory w.dataDirectory with
      | none => ((Progress.start w.tree paths).run codecs o none schedule).outcome?
      | some directory =>
        match w.tree.createDirectories directory with
        | .error e => some (stopped w.tree (.file directory (.files e)))
        | .ok (tree, here) =>
          ((Progress.start tree paths).run codecs o (some { directory, here }) schedule).outcome?

/-! ## Runs -/

namespace Progress

variable {s : Progress} {schedule : List Nat}

theorem run_append (s : Progress) (schedule more : List Nat) :
    s.run codecs o destination (schedule ++ more) =
      (s.run codecs o destination schedule).run codecs o destination more :=
  List.foldl_append

/-- **What every step keeps** holds after every run. -/
theorem invariant {P : Progress → Prop}
    (hstep : ∀ s number, P s → P (s.step codecs o destination number)) (h : P s)
    (schedule : List Nat) : P (s.run codecs o destination schedule) := by
  induction schedule generalizing s with
  | nil => exact h
  | cons number schedule ih => exact ih (hstep s number h)

/-- The page whose turn it is, between the pages before it and after it. -/
theorem step_append_cons (tree : FileTree) (earlier later : List (Path × Stage)) (path : Path)
    (stage : Stage) :
    (Progress.mk tree (earlier ++ (path, stage) :: later)).step codecs o destination
        earlier.length =
      { tree := (stage.next codecs o destination path tree).1
        pages := earlier ++ (path, (stage.next codecs o destination path tree).2) :: later } := by
  have hpage : (earlier ++ (path, stage) :: later)[earlier.length]? = some (path, stage) := by simp
  rw [step, hpage]
  simp

/-- A step is that of a page, or there is none. -/
theorem step_cases (codecs : Codecs) (o : Options) (destination : Option Destination) (s : Progress)
    (number : Nat) :
    s.step codecs o destination number = s ∨
      ∃ earlier path stage later, s.pages = earlier ++ (path, stage) :: later ∧
        s.step codecs o destination number =
          { tree := (stage.next codecs o destination path s.tree).1
            pages :=
              earlier ++ (path, (stage.next codecs o destination path s.tree).2) :: later } := by
  by_cases hnumber : number < s.pages.length
  · right
    obtain ⟨tree, pages⟩ := s
    obtain ⟨⟨path, stage⟩, earlier, later, rfl, rfl⟩ : ∃ page earlier later,
        pages = earlier ++ page :: later ∧ earlier.length = number := by
      refine ⟨pages[number], pages.take number, pages.drop (number + 1), ?_, ?_⟩
      · rw [List.getElem_cons_drop, List.take_append_drop]
      · exact List.length_take_of_le (Nat.le_of_lt hnumber)
    exact ⟨earlier, path, stage, later, rfl, step_append_cons tree earlier later path stage⟩
  · left
    rw [step, List.getElem?_eq_none (Nat.le_of_not_lt hnumber)]

/-- **What the next step of a page keeps**, of the files and of the page, every step keeps. -/
theorem forall_pages_step {T : FileTree → Prop} {P : Path → Stage → Prop}
    (hnext : ∀ {now path stage}, T now → P path stage →
      T (Stage.next codecs o destination path now stage).1 ∧
        P path (Stage.next codecs o destination path now stage).2)
    (h : T s.tree ∧ ∀ page ∈ s.pages, P page.1 page.2) (number : Nat) :
    T (s.step codecs o destination number).tree ∧
      ∀ page ∈ (s.step codecs o destination number).pages, P page.1 page.2 := by
  rcases step_cases codecs o destination s number with
    hstep | ⟨earlier, path, stage, later, hsplit, hstep⟩
  · rw [hstep]
    exact h
  · have hpages : ∀ page ∈ earlier ++ (path, stage) :: later, P page.1 page.2 := hsplit ▸ h.2
    obtain ⟨htree, hpage⟩ := hnext h.1 (hpages (path, stage) List.mem_append_cons_self)
    rw [hstep]
    refine ⟨htree, fun page hmem => ?_⟩
    rcases List.mem_append.mp hmem with hmem | hmem
    · exact hpages page (List.mem_append_left _ hmem)
    · rcases List.mem_cons.mp hmem with rfl | hmem
      · exact hpage
      · exact hpages page (List.mem_append_right _ (List.mem_cons_of_mem _ hmem))

/-- A run keeps what the next step of every page keeps. -/
theorem forall_pages_run {T : FileTree → Prop} {P : Path → Stage → Prop}
    (hnext : ∀ {now path stage}, T now → P path stage →
      T (Stage.next codecs o destination path now stage).1 ∧
        P path (Stage.next codecs o destination path now stage).2)
    (htree : T tree) {paths : List Path} (hpages : ∀ path ∈ paths, P path .waiting)
    (schedule : List Nat) :
    T ((start tree paths).run codecs o destination schedule).tree ∧
      ∀ page ∈ ((start tree paths).run codecs o destination schedule).pages, P page.1 page.2 := by
  have hstart : T (start tree paths).tree ∧
      ∀ page ∈ (start tree paths).pages, P page.1 page.2 := by
    refine ⟨htree, fun page hpage => ?_⟩
    obtain ⟨path, hpath, rfl⟩ := List.mem_map.mp hpage
    exact hpages path hpath
  exact @invariant codecs o destination _ (fun s => T s.tree ∧ ∀ page ∈ s.pages, P page.1 page.2)
    (fun s number h => forall_pages_step hnext h number) hstart schedule

/-- The pages stay the same. -/
theorem map_fst_pages_step (s : Progress) (number : Nat) :
    (s.step codecs o destination number).pages.map Prod.fst = s.pages.map Prod.fst := by
  rcases step_cases codecs o destination s number with h | ⟨earlier, path, stage, later, hpages, h⟩
  · rw [h]
  · rw [h, hpages, List.map_append, List.map_append]
    rfl

/-- A run is over the pages that it starts with. -/
theorem map_fst_pages_run (tree : FileTree) (paths : List Path) (schedule : List Nat) :
    ((start tree paths).run codecs o destination schedule).pages.map Prod.fst = paths := by
  have hstart : (start tree paths).pages.map Prod.fst = paths := by
    rw [start, List.map_map]
    exact List.map_id paths
  have hstep : ∀ (s : Progress) (number : Nat), s.pages.map Prod.fst = paths →
      (s.step codecs o destination number).pages.map Prod.fst = paths :=
    fun s number h => (map_fst_pages_step s number).trans h
  exact invariant hstep hstart schedule

end Progress

/-! ## One page after the other -/

/-- **The conversion of a page by itself** puts its rendered text where its output goes. -/
theorem convertInto_eq (codecs : Codecs) (o : Options) (d : Destination) (tree : FileTree)
    (path : Path) :
    convertInto codecs o d.directory d.here tree path =
      match renderFile codecs o tree path with
      | .error e => .error e
      | .ok text =>
        (outputLocation d tree path).map fun there =>
          tree.put (.file (Utf8.encode text)) there := by
  unfold convertInto outputLocation FileTree.addFile
  cases renderFile codecs o tree path with
  | error e => rfl
  | ok text =>
    cases Source.outputName? path with
    | none => rfl
    | some name =>
      simp only [FileTree.any_isDirectory_eq, decide_eq_true_eq, bind, Except.bind]
      by_cases hlong : (Path.join d.directory name).isTooLong
      · simp only [hlong]
        rfl
      · simp only [hlong]
        by_cases hname : Path.isTooLongName name
        · simp only [hname]
          rfl
        · simp only [hname]
          by_cases hdir : tree.shapeAt (d.here ++ [name]) = some .directory
          · simp only [hdir]
            rfl
          · simp only [hdir]
            rfl

/-- What the conversion of a page comes to by itself: the files, and the result. -/
def convertAlone (codecs : Codecs) (o : Options) (destination : Option Destination)
    (tree : FileTree) (path : Path) : FileTree × Result :=
  match destination with
  | none => (tree, (renderFile codecs o tree path).map some)
  | some d =>
    match convertInto codecs o d.directory d.here tree path with
    | .ok later => (later, .ok none)
    | .error e => (tree, .error e)

/-- What the conversions of pages come to one after the other: the files, and the results. -/
def convertInTurn (codecs : Codecs) (o : Options) (destination : Option Destination) :
    FileTree → List Path → FileTree × List Result
  | tree, [] => (tree, [])
  | tree, path :: paths =>
    let (tree, result) := convertAlone codecs o destination tree path
    let (tree, results) := convertInTurn codecs o destination tree paths
    (tree, result :: results)

/-- The next step in the conversion of a page, which changes the files too. -/
def advance (codecs : Codecs) (o : Options) (destination : Option Destination) (path : Path)
    (s : FileTree × Stage) : FileTree × Stage :=
  s.2.next codecs o destination path s.1

/-- **Three steps** convert a page if no others come in between. -/
theorem advance_three_waiting (tree : FileTree) (path : Path) :
    (advance codecs o destination path)^[3] (tree, .waiting) =
      ((convertAlone codecs o destination tree path).1,
        .done (convertAlone codecs o destination tree path).2) := by
  change advance codecs o destination path (advance codecs o destination path
    (advance codecs o destination path (tree, .waiting))) = _
  have hfirst : advance codecs o destination path (tree, .waiting) =
      match renderFile codecs o tree path with
      | .ok text => (tree, .rendered text)
      | .error e => (tree, .done (.error e)) := rfl
  rw [hfirst]
  cases destination with
  | none =>
    rw [convertAlone]
    cases renderFile codecs o tree path <;> rfl
  | some d =>
    simp only [convertAlone, convertInto_eq]
    cases renderFile codecs o tree path with
    | error e => rfl
    | ok text =>
      have hsecond : advance codecs o (some d) path (tree, .rendered text) =
          match outputLocation d tree path with
          | .ok there => (tree.put (.file []) there, .opened there (Utf8.encode text))
          | .error e => (tree, .done (.error e)) := rfl
      simp only [hsecond]
      cases outputLocation d tree path with
      | error e => rfl
      | ok there =>
        have hcontent : overwritten (Utf8.encode text)
            ((tree.put (.file []) there).shapeAt there) = Utf8.encode text := by
          rw [FileTree.shapeAt_put_self]
          exact (congrArg _ List.drop_nil).trans (List.append_nil _)
        simp only [advance, Stage.next, hcontent, FileTree.put_put, Except.map]

/-- After three steps the conversion of a page has ended. -/
theorem advance_three (tree : FileTree) (stage : Stage) :
    ∃ later result,
      (advance codecs o destination path)^[3] (tree, stage) = (later, .done result) := by
  cases stage with
  | waiting => exact ⟨_, _, advance_three_waiting tree path⟩
  | rendered text =>
    change ∃ later result, advance codecs o destination path (advance codecs o destination path
      (advance codecs o destination path (tree, .rendered text))) = _
    cases destination with
    | none => exact ⟨_, _, rfl⟩
    | some d =>
      simp only [advance, Stage.next]
      cases outputLocation d tree path <;> exact ⟨_, _, rfl⟩
  | opened there content => exact ⟨_, _, rfl⟩
  | done result => exact ⟨_, _, rfl⟩

namespace Progress

/-- Three steps for each of `n` pages, one page after the other, from the page with the number
`first`. -/
def inTurn (first n : Nat) : List Nat :=
  (List.range' first n).flatMap (List.replicate 3)

/-- Several steps of the same page. -/
theorem run_replicate (tree : FileTree) (earlier later : List (Path × Stage)) (path : Path)
    (stage : Stage) (n : Nat) :
    (Progress.mk tree (earlier ++ (path, stage) :: later)).run codecs o destination
        (List.replicate n earlier.length) =
      { tree := ((advance codecs o destination path)^[n] (tree, stage)).1
        pages := earlier ++
          (path, ((advance codecs o destination path)^[n] (tree, stage)).2) :: later } := by
  induction n generalizing tree stage with
  | zero => rfl
  | succ n ih =>
    rw [List.replicate_succ, run, List.foldl_cons, step_append_cons, ← run, ih]
    rfl

/-- **Pages that are converted one after the other.** -/
theorem run_inTurn (tree : FileTree) (earlier : List (Path × Stage)) (paths : List Path) :
    ∃ pages, (Progress.mk tree (earlier ++ paths.map (·, .waiting))).run codecs o destination
          (inTurn earlier.length paths.length) =
        { tree := (convertInTurn codecs o destination tree paths).1, pages := earlier ++ pages } ∧
      pages.map Prod.snd = (convertInTurn codecs o destination tree paths).2.map .done := by
  induction paths generalizing tree earlier with
  | nil => exact ⟨[], rfl, rfl⟩
  | cons path paths ih =>
    obtain ⟨pages, hrun, hpages⟩ := ih (convertAlone codecs o destination tree path).1
      (earlier ++ [(path, .done (convertAlone codecs o destination tree path).2)])
    refine ⟨(path, .done (convertAlone codecs o destination tree path).2) :: pages, ?_, ?_⟩
    · have hschedule : inTurn earlier.length (path :: paths).length =
          List.replicate 3 earlier.length ++
            inTurn (earlier ++ [(path, Stage.waiting)]).length paths.length := by
        rw [List.length_append]
        rfl
      rw [hschedule, run_append, List.map_cons, run_replicate, advance_three_waiting]
      rw [List.append_assoc, List.length_append] at hrun
      rw [List.length_append]
      simpa [convertInTurn] using hrun
    · rw [List.map_cons, hpages]
      rfl

/-- More steps get all pages done. -/
theorem exists_run_isDone (s : Progress) :
    ∃ schedule, ∀ page ∈ (s.run codecs o destination schedule).pages, page.2.result?.isSome := by
  obtain ⟨tree, pages⟩ := s
  suffices ∀ earlier : List (Path × Stage), (∀ page ∈ earlier, page.2.result?.isSome) →
      ∃ schedule,
        ∀ page ∈ ((Progress.mk tree (earlier ++ pages)).run codecs o destination schedule).pages,
          page.2.result?.isSome from this [] (fun page h => absurd h List.not_mem_nil)
  induction pages generalizing tree with
  | nil =>
    intro earlier hearlier
    rw [List.append_nil]
    exact ⟨[], hearlier⟩
  | cons page pages ih =>
    intro earlier hearlier
    obtain ⟨path, stage⟩ := page
    obtain ⟨later, result, hdone⟩ := @advance_three codecs o destination path tree stage
    have hearlier' : ∀ page ∈ earlier ++ [(path, .done result)], page.2.result?.isSome := by
      intro page hpage
      rcases List.mem_append.mp hpage with hpage | hpage
      · exact hearlier page hpage
      · rw [List.mem_singleton.mp hpage]
        rfl
    obtain ⟨schedule, hschedule⟩ := ih later (earlier ++ [(path, .done result)]) hearlier'
    refine ⟨List.replicate 3 earlier.length ++ schedule, ?_⟩
    rw [run_append, run_replicate, hdone]
    simpa using hschedule

/-! ### Outcomes -/

theorem result?_eq_some_iff {stage : Stage} {result : Result} :
    stage.result? = some result ↔ stage = .done result := by
  cases stage <;> simp [Stage.result?]

/-- There are results once all pages are done. -/
theorem mapM_result?_eq_some_iff {pages : List (Path × Stage)}
    {results : List Result} :
    pages.mapM (fun page => page.2.result?) = some results ↔
      pages.map Prod.snd = results.map .done := by
  induction pages generalizing results with
  | nil => cases results <;> simp
  | cons page pages ih =>
    obtain ⟨path, stage⟩ := page
    rw [List.mapM_cons]
    cases results with
    | nil => simp [Option.bind_eq_some_iff]
    | cons result results => simp [Option.bind_eq_some_iff, result?_eq_some_iff, ih]

/-- **An outcome** is told from the results of pages that are all done. -/
theorem outcome?_eq_some_iff {s : Progress} {outcome : Outcome} :
    s.outcome? = some outcome ↔
      ∃ results, s.pages.map Prod.snd = results.map .done ∧
        batchOutcome (printed results) s.tree (failuresOf results) results.length = outcome := by
  rw [outcome?, Option.bind_eq_bind, Option.bind_eq_some_iff]
  simp only [mapM_result?_eq_some_iff, Option.pure_def, Option.some.injEq]

/-- Pages that are all done have results. -/
theorem exists_results {pages : List (Path × Stage)}
    (hdone : ∀ page ∈ pages, page.2.result?.isSome) :
    ∃ results : List Result, pages.map Prod.snd = results.map .done := by
  induction pages with
  | nil => exact ⟨[], rfl⟩
  | cons page pages ih =>
    obtain ⟨result, hresult⟩ := Option.isSome_iff_exists.mp (hdone page List.mem_cons_self)
    obtain ⟨results, hresults⟩ := ih fun page hpage => hdone page (List.mem_cons_of_mem _ hpage)
    refine ⟨result :: results, ?_⟩
    rw [List.map_cons, List.map_cons, hresults, result?_eq_some_iff.mp hresult]

/-- **Every run can be brought to its end.** -/
theorem exists_outcome?_run (s : Progress) :
    ∃ schedule outcome, (s.run codecs o destination schedule).outcome? = some outcome := by
  obtain ⟨schedule, hdone⟩ := @exists_run_isDone codecs o destination s
  obtain ⟨results, hresults⟩ := exists_results hdone
  exact ⟨schedule, _, outcome?_eq_some_iff.mpr ⟨results, hresults, rfl⟩⟩

end Progress

/-! ### The command -/

/-- The exit status tells whether something has failed. -/
theorem status_batchOutcome (stdout : List Char) (tree : FileTree) (failures : List PageError)
    (total : Nat) :
    (batchOutcome stdout tree failures total).status = if failures = [] then 0 else 1 := by
  rw [batchOutcome, batchError]
  by_cases h : failures = []
  · simp [h]
  · simp [h]

theorem convertInTurn_stdout (codecs : Codecs) (o : Options) (tree : FileTree) (paths : List Path) :
    convertInTurn codecs o none tree paths =
      (tree, paths.map fun path => (renderFile codecs o tree path).map some) := by
  induction paths with
  | nil => rfl
  | cons path paths ih =>
    simp only [convertInTurn, convertAlone, ih]
    rfl

/-- Pages that go to a directory give no text, and the failures in order. -/
theorem convertAllInto_eq (codecs : Codecs) (o : Options) (d : Destination) (tree : FileTree)
    (paths : List Path) :
    convertAllInto codecs o d.directory d.here tree paths =
        ((convertInTurn codecs o (some d) tree paths).1,
          failuresOf (convertInTurn codecs o (some d) tree paths).2) ∧
      printed (convertInTurn codecs o (some d) tree paths).2 = [] ∧
      (convertInTurn codecs o (some d) tree paths).2.length = paths.length := by
  induction paths generalizing tree with
  | nil => exact ⟨rfl, rfl, rfl⟩
  | cons path paths ih =>
    rw [convertAllInto, convertInTurn, convertAlone]
    cases convertInto codecs o d.directory d.here tree path with
    | ok later =>
      obtain ⟨hall, hprinted, hlength⟩ := ih later
      exact ⟨hall, hprinted, congrArg (· + 1) hlength⟩
    | error e =>
      obtain ⟨hall, hprinted, hlength⟩ := ih tree
      simp only [hall]
      exact ⟨rfl, hprinted, congrArg (· + 1) hlength⟩

/-- Pages that go to the standard output give their texts and their failures, in order. -/
theorem convertToStdout_eq (codecs : Codecs) (o : Options) (tree : FileTree) (paths : List Path) :
    convertToStdout codecs o tree paths =
      batchOutcome (printed (paths.map fun path => (renderFile codecs o tree path).map some)) tree
        (failuresOf (paths.map fun path => (renderFile codecs o tree path).map some))
        paths.length := by
  rw [convertToStdout]
  congr 1
  · induction paths with
    | nil => rfl
    | cons path paths ih =>
      simp only [List.map_cons, List.flatMap_cons, printed] at ih ⊢
      rw [ih]
      cases renderFile codecs o tree path <;> rfl
  · induction paths with
    | nil => rfl
    | cons path paths ih =>
      simp only [List.map_cons, List.filterMap_cons, failuresOf] at ih ⊢
      rw [ih]
      cases renderFile codecs o tree path <;> rfl

/-- What pages that are converted one after the other come to. -/
theorem outcome?_run_inTurn (codecs : Codecs) (o : Options) (destination : Option Destination)
    (tree : FileTree) (paths : List Path) :
    ((Progress.start tree paths).run codecs o destination
        (Progress.inTurn 0 paths.length)).outcome? =
      some (batchOutcome (printed (convertInTurn codecs o destination tree paths).2)
        (convertInTurn codecs o destination tree paths).1
        (failuresOf (convertInTurn codecs o destination tree paths).2)
        (convertInTurn codecs o destination tree paths).2.length) := by
  obtain ⟨pages, hrun, hpages⟩ := @Progress.run_inTurn codecs o destination tree [] paths
  have hstart : Progress.start tree paths = { tree, pages := [] ++ paths.map (·, .waiting) } := rfl
  have hlength : Progress.inTurn 0 paths.length =
      Progress.inTurn ([] : List (Path × Stage)).length paths.length := rfl
  rw [hstart, hlength, hrun, Progress.outcome?_eq_some_iff]
  exact ⟨_, hpages, rfl⟩

/-- **Converting pages one after the other** is one of the runs that there can be. -/
theorem exists_performBy_eq (codecs : Codecs) (o : Options) (w : World) :
    ∃ schedule, performBy codecs schedule o w = some (perform codecs o w) := by
  unfold performBy perform convertFiles
  by_cases hcompletions : o.completions.isSome
  · exact ⟨[], by simp [hcompletions]⟩
  · by_cases hstdin : o.readsStdin
    · exact ⟨[], by simp [hstdin, hcompletions]⟩
    · simp only [hcompletions, hstdin, Bool.or_self, Bool.false_eq_true, if_false]
      cases pagePaths o w with
      | error e => exact ⟨[], rfl⟩
      | ok paths =>
        refine ⟨Progress.inTurn 0 paths.length, ?_⟩
        dsimp only
        cases o.outputDirectory w.dataDirectory with
        | none =>
          dsimp only
          rw [outcome?_run_inTurn, convertInTurn_stdout, convertToStdout_eq, List.length_map]
        | some directory =>
          dsimp only
          cases w.tree.createDirectories directory with
          | error e => rfl
          | ok created =>
            obtain ⟨tree, here⟩ := created
            obtain ⟨hall, hprinted, hlength⟩ :=
              convertAllInto_eq codecs o { directory, here } tree paths
            dsimp only at hall ⊢
            rw [outcome?_run_inTurn, hall, hprinted, hlength]

/-- **Each run of the command can be brought to its end.** -/
theorem exists_performBy_append (codecs : Codecs) (schedule : List Nat) (o : Options)
    (w : World) :
    ∃ more outcome, performBy codecs (schedule ++ more) o w = some outcome := by
  unfold performBy
  by_cases hpages : o.completions.isSome || o.readsStdin
  · exact ⟨[], _, if_pos hpages⟩
  · simp only [hpages, Bool.false_eq_true, if_false, Progress.run_append]
    cases pagePaths o w with
    | error e => exact ⟨[], _, rfl⟩
    | ok paths =>
      dsimp only
      cases o.outputDirectory w.dataDirectory with
      | none => exact Progress.exists_outcome?_run _
      | some directory =>
        dsimp only
        cases w.tree.createDirectories directory with
        | error e => exact ⟨[], _, rfl⟩
        | ok created => exact Progress.exists_outcome?_run _

end Manpage.Command
