import Manpage.Proofs.Charset.Utf8
import Manpage.Proofs.Command.Schedule
import Manpage.Proofs.Files.Path

/-!
# Pages in a directory

A page goes to a file that is called like the page itself, whatever directory the page is in and
whether or not it is an archive. Several pages can go to the same file. The file is then left with
what was written to it last, no page fails, and nothing tells that the others are lost. Pages that
go to different files do not get in each other's way, in whatever order they take their steps.

## Main definitions

* `Command.GoesTo`: a page and the location of the file that it goes to
* `Command.Moves`: the steps in the conversion of a page to a file
* `Command.OnlyWrites`: nothing but the files that pages go to is written
* `Command.Settles`: what a file holds while pages that say the same go to it
* `Command.HoldsPages`: the directory holds every page
* `Command.AgreeByName`: pages of the same name are rendered the same

## Main results

* `Progress.writes_run`, `Progress.settles_run`: what every step keeps
* `holdsPages_of_agreeByName`: the directory holds every page if pages of the same name are the
  same, and only then
-/

namespace Manpage.Command

variable {codecs : Codecs} {o : Options} {w : World} {d : Destination} {tree now later : FileTree}
  {path other directory : Path} {paths : List Path} {there target : Location}
  {stage next : Stage} {s : Progress} {content : Bytes} {schedule : List Nat} {outcome : Outcome}

/-! ## Where pages go -/

/-- **A page goes to** the file at a location, if a file can be called that. -/
def GoesTo (d : Destination) (path : Path) (there : Location) : Prop :=
  ∃ name, Source.outputName? path = some name ∧ (Path.join d.directory name).isTooLong = false ∧
    Path.isTooLongName name = false ∧ there = d.here ++ [name]

/-- A page goes to one file only. -/
theorem GoesTo.unique (h : GoesTo d path there) (h' : GoesTo d path target) : there = target := by
  obtain ⟨name, hname, -, -, rfl⟩ := h
  obtain ⟨name', hname', -, -, rfl⟩ := h'
  rw [Option.some.inj (hname.symm.trans hname')]

/-- Pages that go to the same file have the same name. -/
theorem GoesTo.outputName?_eq (h : GoesTo d path there) (h' : GoesTo d other there) :
    Source.outputName? path = Source.outputName? other := by
  obtain ⟨name, hname, -, -, rfl⟩ := h
  obtain ⟨name', hname', -, -, hthere⟩ := h'
  rw [hname, hname', List.singleton_inj.mp (List.append_cancel_left hthere)]

/-- A file is written if a page goes to it and no directory is in its place. -/
theorem outputLocation_eq_ok_iff :
    outputLocation d tree path = .ok there ↔
      GoesTo d path there ∧ tree.shapeAt there ≠ some .directory := by
  unfold outputLocation GoesTo
  cases Source.outputName? path with
  | none => simp
  | some name =>
    dsimp only
    split_ifs with hlong hname hdir
    · simp [hlong]
    · simp [hname]
    · constructor
      · intro h
        cases h
      · rintro ⟨⟨_, ⟨⟩, -, -, rfl⟩, hfree⟩
        exact absurd hdir hfree
    · constructor
      · intro h
        cases h
        exact ⟨⟨name, rfl, by simpa using hlong, by simpa using hname, rfl⟩, hdir⟩
      · rintro ⟨⟨_, ⟨⟩, -, -, rfl⟩, -⟩
        rfl

/-! ## Steps -/

/-- **The steps there are** in the conversion of a page to a file. -/
inductive Moves (codecs : Codecs) (o : Options) (d : Destination) (path : Path) (tree : FileTree) :
    Stage → FileTree → Stage → Prop where
  | read {text : List Char} (h : renderFile codecs o tree path = .ok text) :
      Moves codecs o d path tree .waiting tree (.rendered text)
  | unread {e : PageError} : Moves codecs o d path tree .waiting tree (.done (.error e))
  | create {text : List Char} {there : Location} (h : outputLocation d tree path = .ok there) :
      Moves codecs o d path tree (.rendered text) (tree.put (.file []) there)
        (.opened there (Utf8.encode text))
  | refuse {text : List Char} {e : PageError} :
      Moves codecs o d path tree (.rendered text) tree (.done (.error e))
  | write {there : Location} {content : Bytes} :
      Moves codecs o d path tree (.opened there content)
        (tree.put (.file (overwritten content (tree.shapeAt there))) there) (.done (.ok none))
  | rest {result : Result} : Moves codecs o d path tree (.done result) tree (.done result)

theorem moves_next (codecs : Codecs) (o : Options) (d : Destination) (path : Path) (tree : FileTree)
    (stage : Stage) :
    Moves codecs o d path tree stage (stage.next codecs o (some d) path tree).1
      (stage.next codecs o (some d) path tree).2 := by
  cases stage with
  | waiting =>
    simp only [Stage.next]
    cases h : renderFile codecs o tree path with
    | ok text => exact .read h
    | error e => exact .unread
  | rendered text =>
    simp only [Stage.next]
    cases h : outputLocation d tree path with
    | ok there => exact .create h
    | error e => exact .refuse
  | opened there content => exact .write
  | done result => exact .rest

/-! ## Files -/

/-- The locations of the files that pages go to. -/
def Outputs (d : Destination) (paths : List Path) (there : Location) : Prop :=
  ∃ path ∈ paths, GoesTo d path there

/-- **Nothing but the files that pages go to is written**, and no directory is new. -/
structure OnlyWrites (d : Destination) (paths : List Path) (tree later : FileTree) : Prop where
  grows : FileTree.Grows (Outputs d paths) tree later
  directory : ∀ {there}, later.shapeAt there = some .directory →
    tree.shapeAt there = some .directory

theorem OnlyWrites.refl (d : Destination) (paths : List Path) (tree : FileTree) :
    OnlyWrites d paths tree tree :=
  ⟨.refl _ _, id⟩

section Put

variable (hdir : tree.shapeAt d.here = some .directory) (h : OnlyWrites d paths tree now)
  (hgoes : GoesTo d path there) (hold : tree.shapeAt there ≠ some .directory)
include hdir h hgoes hold

/-- What stands where after the file of a page is written. -/
theorem OnlyWrites.shapeAt_put (content : Bytes) (target : Location) :
    (now.put (.file content) there).shapeAt target =
      if target = there then some (.file content) else now.shapeAt target := by
  obtain ⟨name, -, -, -, rfl⟩ := hgoes
  exact FileTree.shapeAt_put rfl (h.grows.directory hdir) (fun hnow => hold (h.directory hnow))
    target

/-- The file of a page is written. -/
theorem OnlyWrites.put (hpath : path ∈ paths) (content : Bytes) :
    OnlyWrites d paths tree (now.put (.file content) there) where
  grows := by
    have hwritten : Outputs d paths there := ⟨path, hpath, hgoes⟩
    obtain ⟨name, -, -, -, rfl⟩ := hgoes
    exact h.grows.trans (.put rfl (h.grows.directory hdir) (fun hnow => hold (h.directory hnow))
      (Or.inl hwritten))
  directory {target} htarget := by
    rw [h.shapeAt_put hdir hgoes hold] at htarget
    split_ifs at htarget with heq
    · cases htarget
    · exact h.directory htarget

end Put

/-- Pages are rendered the same while files are written. -/
def RendersStably (codecs : Codecs) (o : Options) (d : Destination) (paths : List Path)
    (tree : FileTree) : Prop :=
  ∀ {path}, path ∈ paths → ∀ {now}, OnlyWrites d paths tree now →
    renderFile codecs o now path = renderFile codecs o tree path

/-- **A page that is being converted** to a file, from the files that are there at first. -/
def Writes (codecs : Codecs) (o : Options) (d : Destination) (tree : FileTree) (path : Path) :
    Stage → Prop
  | .waiting => True
  | .rendered text => renderFile codecs o tree path = .ok text
  | .opened there content =>
    GoesTo d path there ∧ tree.shapeAt there ≠ some .directory ∧
      (renderFile codecs o tree path).map Utf8.encode = .ok content
  | .done (.ok none) => ∃ there, GoesTo d path there
  | .done (.ok (some _)) => False
  | .done (.error _) => True

/-- A step writes no file but the one that the page goes to. -/
theorem Writes.moves (hdir : tree.shapeAt d.here = some .directory)
    (hstable : RendersStably codecs o d paths tree) (hpath : path ∈ paths)
    (hnow : OnlyWrites d paths tree now) (h : Writes codecs o d tree path stage)
    (hmoves : Moves codecs o d path now stage later next) :
    OnlyWrites d paths tree later ∧ Writes codecs o d tree path next := by
  cases hmoves with
  | read hrender => exact ⟨hnow, (hstable hpath hnow).symm.trans hrender⟩
  | unread => exact ⟨hnow, trivial⟩
  | create hthere =>
    obtain ⟨hgoes, hfree⟩ := outputLocation_eq_ok_iff.mp hthere
    have hold : tree.shapeAt _ ≠ some .directory := fun hold => hfree (hnow.grows.directory hold)
    refine ⟨hnow.put hdir hgoes hold hpath _, hgoes, hold, ?_⟩
    exact congrArg (Except.map Utf8.encode) h
  | refuse => exact ⟨hnow, trivial⟩
  | write =>
    obtain ⟨hgoes, hold, -⟩ := h
    exact ⟨hnow.put hdir hgoes hold hpath _, _, hgoes⟩
  | rest => exact ⟨hnow, h⟩

/-! ## What a file holds -/

/-- The file at a location is there, and a page is still to be written to it. -/
def IsOpenAt (target : Location) (page : Path × Stage) : Prop :=
  ∃ content, page.2 = .opened target content

/-- A page has been written to the file at a location. -/
def IsWrittenAt (d : Destination) (target : Location) (page : Path × Stage) : Prop :=
  page.2 = .done (.ok none) ∧ GoesTo d page.1 target

/-- **What a file holds** while pages with the same content go to it: that content, or nothing as
long as a page is still to be written to it. -/
def Settles (d : Destination) (target : Location) (content : Bytes) (s : Progress) : Prop :=
  (∃ page ∈ s.pages, IsOpenAt target page ∨ IsWrittenAt d target page) →
    s.tree.shapeAt target = some (.file content) ∨
      s.tree.shapeAt target = some (.file []) ∧ ∃ page ∈ s.pages, IsOpenAt target page

theorem exists_mem_append_cons {α : Type} {P : α → Prop} {before after : List α} {a : α} :
    (∃ x ∈ before ++ a :: after, P x) ↔ P a ∨ ∃ x ∈ before ++ after, P x := by
  have hsplit : (before ++ a :: after).Perm (a :: (before ++ after)) := List.perm_middle
  simp only [hsplit.mem_iff, List.exists_mem_cons_iff]

/-- Steps of pages that do not concern a file. -/
theorem Settles.congr {earlier rest : List (Path × Stage)}
    (hshape : later.shapeAt target = now.shapeAt target)
    (hopen : IsOpenAt target (path, next) ↔ IsOpenAt target (path, stage))
    (hwritten : IsWrittenAt d target (path, next) ↔ IsWrittenAt d target (path, stage))
    (h : Settles d target content { tree := now, pages := earlier ++ (path, stage) :: rest }) :
    Settles d target content { tree := later, pages := earlier ++ (path, next) :: rest } := by
  unfold Settles at h ⊢
  simp only [exists_mem_append_cons, hshape, hopen, hwritten] at h ⊢
  exact h

theorem overwritten_of_settled {shape : Option Shape}
    (h : shape = some (.file content) ∨ shape = some (.file [])) :
    overwritten content shape = content := by
  rcases h with rfl | rfl
  · rw [overwritten, List.drop_length, List.append_nil]
  · rw [overwritten, List.drop_nil, List.append_nil]

/-- A step in the conversion of a page keeps what a file holds. -/
theorem Settles.moves {earlier rest : List (Path × Stage)}
    (hdir : tree.shapeAt d.here = some .directory) (hnow : OnlyWrites d paths tree now)
    (hcontent : GoesTo d path target → ∀ written,
      (renderFile codecs o tree path).map Utf8.encode = .ok written → written = content)
    (hpage : Writes codecs o d tree path stage)
    (h : Settles d target content { tree := now, pages := earlier ++ (path, stage) :: rest })
    (hmoves : Moves codecs o d path now stage later next) :
    Settles d target content { tree := later, pages := earlier ++ (path, next) :: rest } := by
  cases hmoves with
  | read hrender => exact h.congr rfl (by simp [IsOpenAt]) (by simp [IsWrittenAt])
  | unread => exact h.congr rfl (by simp [IsOpenAt]) (by simp [IsWrittenAt])
  | @create text there hthere =>
    obtain ⟨hgoes, hfree⟩ := outputLocation_eq_ok_iff.mp hthere
    have hold : tree.shapeAt there ≠ some .directory := fun hold =>
      hfree (hnow.grows.directory hold)
    have hshape := hnow.shapeAt_put hdir hgoes hold [] target
    by_cases heq : target = there
    · rw [if_pos heq] at hshape
      intro _
      refine Or.inr ⟨hshape, exists_mem_append_cons.mpr (Or.inl ⟨Utf8.encode text, ?_⟩)⟩
      rw [heq]
    · rw [if_neg heq] at hshape
      exact h.congr hshape (by simp [IsOpenAt, Ne.symm heq]) (by simp [IsWrittenAt])
  | refuse => exact h.congr rfl (by simp [IsOpenAt]) (by simp [IsWrittenAt])
  | @write there written =>
    obtain ⟨hgoes, hold, hwritten⟩ := hpage
    have hshape := hnow.shapeAt_put hdir hgoes hold
      (overwritten written (now.shapeAt there)) target
    by_cases heq : target = there
    · rw [if_pos heq] at hshape
      subst heq
      obtain rfl := hcontent hgoes written hwritten
      intro _
      refine Or.inl (hshape.trans ?_)
      have hopen : IsOpenAt target (path, .opened target written) := ⟨written, rfl⟩
      rw [overwritten_of_settled]
      exact (h (exists_mem_append_cons.mpr (Or.inl (Or.inl hopen)))).imp_right And.left
    · rw [if_neg heq] at hshape
      have hother : ¬ GoesTo d path target := fun hgoes' => heq (hgoes'.unique hgoes)
      exact h.congr hshape (by simp [IsOpenAt, Ne.symm heq]) (by simp [IsWrittenAt, hother])
  | rest => exact h

/-! ## Runs -/

namespace Progress

section Runs

variable (hdir : tree.shapeAt d.here = some .directory)
  (hstable : RendersStably codecs o d paths tree)
include hdir hstable

/-- **What every step keeps**: only the files that pages go to are written, and each page is
converted from the files that are there at first. -/
theorem writes_run (schedule : List Nat) :
    OnlyWrites d paths tree ((start tree paths).run codecs o (some d) schedule).tree ∧
      ∀ page ∈ ((start tree paths).run codecs o (some d) schedule).pages,
        page.1 ∈ paths ∧ Writes codecs o d tree page.1 page.2 := by
  refine @forall_pages_run codecs o (some d) tree (OnlyWrites d paths tree)
    (fun path stage => path ∈ paths ∧ Writes codecs o d tree path stage) ?_ (.refl _ _ _) paths
    (fun path hpath => ⟨hpath, trivial⟩) schedule
  rintro now path stage hnow ⟨hpath, hpage⟩
  obtain ⟨hlater, hnext⟩ :=
    hpage.moves hdir hstable hpath hnow (moves_next codecs o d path now stage)
  exact ⟨hlater, hpath, hnext⟩

/-- **What a file holds** in every run in which the pages that go to it have the same content. -/
theorem settles_run
    (hcontent : ∀ path ∈ paths, GoesTo d path target → ∀ written,
      (renderFile codecs o tree path).map Utf8.encode = .ok written → written = content)
    (schedule : List Nat) :
    Settles d target content ((start tree paths).run codecs o (some d) schedule) := by
  -- a step is one of a run, and what is kept of the pages holds before it
  induction schedule using List.reverseRecOn with
  | nil =>
    rintro ⟨page, hpage, hreaches⟩
    obtain ⟨path, -, rfl⟩ := List.mem_map.mp hpage
    rcases hreaches with ⟨content, h⟩ | ⟨h, -⟩
    · cases h
    · cases h
  | append_singleton schedule number ih =>
    obtain ⟨hnow, hpages⟩ := writes_run hdir hstable schedule
    rw [run_append]
    generalize (start tree paths).run codecs o (some d) schedule = s at hnow hpages ih
    change Settles d target content (s.step codecs o (some d) number)
    rcases step_cases codecs o (some d) s number with h | ⟨earlier, path, stage, rest, hsplit, h⟩
    · rw [h]
      exact ih
    · obtain ⟨hpath, hpage⟩ := hpages (path, stage) (hsplit ▸ List.mem_append_cons_self)
      have hbefore : Settles d target content
          { tree := s.tree, pages := earlier ++ (path, stage) :: rest } := hsplit ▸ ih
      rw [h]
      exact hbefore.moves hdir hnow (hcontent path hpath) hpage
        (moves_next codecs o d path s.tree stage)

end Runs

end Progress

/-! ## The directory -/

theorem exists_eq_ok_of_mem {results : List Result} (h : failuresOf results = []) {result : Result}
    (hresult : result ∈ results) : ∃ text, result = .ok text := by
  cases result with
  | ok text => exact ⟨text, rfl⟩
  | error e =>
    have hfailure : e ∈ failuresOf results := List.mem_filterMap.mpr ⟨_, hresult, rfl⟩
    rw [h] at hfailure
    cases hfailure

namespace Progress

section Ended

variable (hdir : tree.shapeAt d.here = some .directory)
  (hstable : RendersStably codecs o d paths tree)
  (h : ((start tree paths).run codecs o (some d) schedule).outcome? = some outcome)
  (hstatus : outcome.status = 0)
include hdir hstable h hstatus

/-- After a run without failures every page has been written. -/
theorem eq_done_of_outcome? {page : Path × Stage}
    (hpage : page ∈ ((start tree paths).run codecs o (some d) schedule).pages) :
    page.2 = .done (.ok none) := by
  obtain ⟨results, hdone, rfl⟩ := outcome?_eq_some_iff.mp h
  have hfailures : failuresOf results = [] := by
    rw [status_batchOutcome] at hstatus
    by_contra hne
    rw [if_neg hne] at hstatus
    cases hstatus
  have hmem : page.2 ∈ results.map Stage.done := hdone ▸ List.mem_map_of_mem hpage
  obtain ⟨result, hresult, hstage⟩ := List.mem_map.mp hmem
  obtain ⟨text, rfl⟩ := exists_eq_ok_of_mem hfailures hresult
  have hwrites := ((writes_run hdir hstable schedule).2 page hpage).2
  rw [← hstage] at hwrites ⊢
  cases text with
  | none => rfl
  | some text => exact hwrites.elim

/-- **After a run without failures** each page has a file, which holds the content that the pages
have that go to it, if all of them have the same. -/
theorem exists_shapeAt_of_outcome? (hpath : path ∈ paths) :
    OnlyWrites d paths tree outcome.tree ∧ ∃ there, GoesTo d path there ∧ ∀ content,
      (∀ other ∈ paths, GoesTo d other there → ∀ written,
        (renderFile codecs o tree other).map Utf8.encode = .ok written → written = content) →
      outcome.tree.shapeAt there = some (.file content) := by
  obtain ⟨hwrites, hpages⟩ := writes_run hdir hstable schedule
  have htree : outcome.tree = ((start tree paths).run codecs o (some d) schedule).tree := by
    obtain ⟨results, -, rfl⟩ := outcome?_eq_some_iff.mp h
    rfl
  obtain ⟨page, hpage, rfl⟩ : ∃ page ∈ ((start tree paths).run codecs o (some d) schedule).pages,
      page.1 = path := by
    refine List.mem_map.mp ?_
    rw [map_fst_pages_run]
    exact hpath
  have hended := eq_done_of_outcome? hdir hstable h hstatus hpage
  obtain ⟨there, hgoes⟩ : ∃ there, GoesTo d page.1 there := by
    have hwritten := (hpages page hpage).2
    rw [hended] at hwritten
    exact hwritten
  rw [htree]
  refine ⟨hwrites, there, hgoes, fun content hcontent => ?_⟩
  have hsettles := settles_run hdir hstable hcontent schedule
  rcases hsettles ⟨page, hpage, Or.inr ⟨hended, hgoes⟩⟩ with
    hshape | ⟨-, unwritten, hopen, written, hstage⟩
  · exact hshape
  · rw [eq_done_of_outcome? hdir hstable h hstatus hopen] at hstage
    cases hstage

end Ended

end Progress

/-- **The directory holds every page** of those that are given, rendered. -/
def HoldsPages (codecs : Codecs) (o : Options) (before after : FileTree) (directory : Path)
    (paths : List Path) : Prop :=
  ∀ path ∈ paths, ∃ name text, Source.outputName? path = some name ∧
    renderFile codecs o before path = .ok text ∧
    after.contentOf (Path.join directory name) = .ok (Utf8.encode text)

/-- No page is read from a file that a page goes to. -/
def ReadsNoOutput (tree : FileTree) (directory : Path) (paths : List Path) : Prop :=
  ∀ later here, tree.createDirectories directory = .ok (later, here) →
    ∀ path ∈ paths, ∀ there, tree.locate path = .ok there →
      ¬ Outputs { directory, here } paths there

theorem renderFile_congr (h : now.contentOf path = tree.contentOf path) :
    renderFile codecs o now path = renderFile codecs o tree path := by
  rw [renderFile, renderFile, Source.readPage, Source.readPage, h]

theorem exists_contentOf {text : List Char} (h : Source.readPage codecs tree path = .ok text) :
    ∃ bytes, tree.contentOf path = .ok bytes := by
  rw [Source.readPage] at h
  cases hcontent : tree.contentOf path with
  | ok bytes => exact ⟨bytes, rfl⟩
  | error e =>
    rw [hcontent] at h
    cases h

/-- The path of the file that a page goes to leads to it. -/
theorem exists_contentOf_join {before : FileTree} {here : Location}
    (hstart : before.StartsInDirectory)
    (hcreate : before.createDirectories directory = .ok (tree, here))
    (hread : ∃ text, Source.readPage codecs before path = .ok text)
    (hlater : OnlyWrites { directory, here } paths tree later)
    (hgoes : GoesTo { directory, here } path there)
    (hshape : later.shapeAt there = some (.file content)) :
    ∃ name, Source.outputName? path = some name ∧
      later.contentOf (Path.join directory name) = .ok content := by
  obtain ⟨name, hname, hlong, hshort, rfl⟩ := hgoes
  obtain ⟨hcheck, -, hdir, hwalk⟩ := FileTree.createDirectories_spec hstart hcreate
  obtain ⟨hisName, hchars⟩ := Source.isName_outputName hname
  refine ⟨name, hname, FileTree.contentOf_eq_ok_iff.mpr ⟨here ++ [name], ?_, hshape⟩⟩
  have hnul : '\x00' ∉ name := by
    intro hmem
    obtain ⟨text, htext⟩ := hread
    obtain ⟨bytes, hbytes⟩ := exists_contentOf htext
    obtain ⟨place, hlocate, -⟩ := FileTree.contentOf_eq_ok_iff.mp hbytes
    rcases hchars _ hmem with hmem | hmem
    · exact (FileTree.checkPath_eq_ok_iff.mp (FileTree.locate_eq_ok_iff.mp hlocate).1).1 hmem
    · exact absurd hmem (by decide)
  refine FileTree.locate_join hisName hnul hshort hlong hcheck ?_ (hlater.grows.directory hdir) ?_
  · rw [FileTree.start_eq hlater.grows.workingDirectory]
    exact hlater.grows.foldlM_enter hwalk
  · rw [hshape]
    rfl

/-- Pages are read from files that are not written. -/
theorem renderFile_eq_of_onlyWrites {here : Location} (hstart : w.tree.StartsInDirectory)
    (hcreate : w.tree.createDirectories directory = .ok (tree, here))
    (hread : ∀ path ∈ paths, ∃ text, Source.readPage codecs w.tree path = .ok text)
    (hkept : ReadsNoOutput w.tree directory paths) (hpath : path ∈ paths)
    (hnow : OnlyWrites { directory, here } paths tree now) :
    renderFile codecs o now path = renderFile codecs o w.tree path := by
  obtain ⟨text, htext⟩ := hread path hpath
  obtain ⟨bytes, hbytes⟩ := exists_contentOf htext
  obtain ⟨-, hgrows, -, -⟩ := FileTree.createDirectories_spec hstart hcreate
  have hall : FileTree.Grows (Outputs { directory, here } paths) w.tree now :=
    (hgrows.mono fun _ hnowhere => hnowhere.elim).trans hnow.grows
  have hagain : now.contentOf path = .ok bytes :=
    hall.contentOf (hkept tree here hcreate path hpath) hbytes
  exact renderFile_congr (hagain.trans hbytes.symm)

/-- If a run over pages that go to a directory ends without a failure, then the directory is there
and its pages have been converted. -/
theorem exists_outcome?_of_performBy (hcompletions : o.completions = none)
    (hstdin : o.readsStdin = false) (hpaths : pagePaths o w = .ok paths)
    (hdirectory : o.outputDirectory w.dataDirectory = some directory)
    (hrun : performBy codecs schedule o w = some outcome) (hstatus : outcome.status = 0) :
    ∃ tree here, w.tree.createDirectories directory = .ok (tree, here) ∧
      ((Progress.start tree paths).run codecs o (some { directory, here }) schedule).outcome? =
        some outcome := by
  unfold performBy at hrun
  simp only [hcompletions, hstdin, hpaths, hdirectory, Option.isSome_none, Bool.or_self,
    Bool.false_eq_true, if_false] at hrun
  cases hcreate : w.tree.createDirectories directory with
  | error e =>
    rw [hcreate] at hrun
    obtain rfl := Option.some.inj hrun
    cases hstatus
  | ok created =>
    rw [hcreate] at hrun
    exact ⟨_, _, rfl, hrun⟩

/-- Pages of the same name are rendered the same. -/
def AgreeByName (codecs : Codecs) (o : Options) (tree : FileTree) (paths : List Path) : Prop :=
  ∀ path ∈ paths, ∀ other ∈ paths, Source.outputName? path = Source.outputName? other →
    renderFile codecs o tree path = renderFile codecs o tree other

/-- One file holds one page: a text is settled by its bytes. -/
theorem HoldsPages.agreeByName (h : HoldsPages codecs o tree later directory paths) :
    AgreeByName codecs o tree paths := by
  intro path hpath other hother hsame
  obtain ⟨name, text, hname, htext, hcontent⟩ := h path hpath
  obtain ⟨name', text', hname', htext', hcontent'⟩ := h other hother
  obtain rfl : name = name' := Option.some.inj (hname.symm.trans (hsame.trans hname'))
  have hbytes : Utf8.encode text = Utf8.encode text' :=
    Except.ok.inj (hcontent.symm.trans hcontent')
  have htexts : some text = some text' := by
    rw [← Utf8.decode?_encode, hbytes, Utf8.decode?_encode]
  rw [htext, htext', Option.some.inj htexts]

/-- **The directory holds every page** after a run that ends without a failure, whatever the
schedule of the run, if pages of the same name are rendered the same and no page is read from a file
that a page goes to. If pages of the same name are not rendered the same, it does not. -/
theorem holdsPages_of_agreeByName (hcompletions : o.completions = none)
    (hstdin : o.readsStdin = false) (hpaths : pagePaths o w = .ok paths)
    (hdirectory : o.outputDirectory w.dataDirectory = some directory)
    (hstart : w.tree.StartsInDirectory)
    (hread : ∀ path ∈ paths, ∃ text, Source.readPage codecs w.tree path = .ok text)
    (hrun : performBy codecs schedule o w = some outcome) (hstatus : outcome.status = 0) :
    (ReadsNoOutput w.tree directory paths → AgreeByName codecs o w.tree paths →
        HoldsPages codecs o w.tree outcome.tree directory paths) ∧
      (¬ AgreeByName codecs o w.tree paths →
        ¬ HoldsPages codecs o w.tree outcome.tree directory paths) := by
  refine ⟨fun hkept hagree path hpath => ?_, mt HoldsPages.agreeByName⟩
  obtain ⟨tree, here, hcreate, houtcome⟩ :=
    exists_outcome?_of_performBy hcompletions hstdin hpaths hdirectory hrun hstatus
  obtain ⟨-, -, hdir, -⟩ := FileTree.createDirectories_spec hstart hcreate
  have hrender : ∀ {path}, path ∈ paths → ∀ {now},
      OnlyWrites { directory, here } paths tree now →
        renderFile codecs o now path = renderFile codecs o w.tree path := fun hpath _ hnow =>
    renderFile_eq_of_onlyWrites hstart hcreate hread hkept hpath hnow
  have hstable : RendersStably codecs o { directory, here } paths tree := fun hpath _ hnow =>
    (hrender hpath hnow).trans (hrender hpath (.refl _ _ _)).symm
  obtain ⟨hwrites, there, hgoes, hshape⟩ :=
    Progress.exists_shapeAt_of_outcome? hdir hstable houtcome hstatus hpath
  obtain ⟨text, htext⟩ : ∃ text, renderFile codecs o w.tree path = .ok text := by
    obtain ⟨text, htext⟩ := hread path hpath
    rw [renderFile, htext]
    exact ⟨_, rfl⟩
  have hfile : outcome.tree.shapeAt there = some (.file (Utf8.encode text)) := by
    refine hshape _ fun other hother hgoes' written hwritten => ?_
    have hsame := hagree other hother path hpath (hgoes'.outputName?_eq hgoes)
    rw [hrender hother (.refl _ _ _), hsame, htext] at hwritten
    exact (Except.ok.inj hwritten).symm
  obtain ⟨name, hname, hcontent⟩ :=
    exists_contentOf_join hstart hcreate (hread path hpath) hwrites hgoes hfile
  exact ⟨name, text, hname, htext, hcontent⟩

/-- Two pages of the same name, in two directories. -/
def twins : FileTree where
  root := .directory [("a".toList, .directory [("p".toList, .file [120])]),
    ("b".toList, .directory [("p".toList, .file [121])])]

theorem readPage_twins :
    ∀ path ∈ ["a/p".toList, "b/p".toList], ∃ text, Source.readPage .bare twins path = .ok text := by
  have hfirst : Source.readPage .bare twins "a/p".toList = .ok "x".toList := by decide +kernel
  have hsecond : Source.readPage .bare twins "b/p".toList = .ok "y".toList := by decide +kernel
  exact List.forall_mem_cons.mpr ⟨⟨_, hfirst⟩, List.forall_mem_singleton.mpr ⟨_, hsecond⟩⟩

/-- Each of two pages of the same name is there if it is converted by itself. If both are converted,
one of them is lost, whichever is written last, and no failure tells so. -/
theorem holdsPages_of_agreeByName_twins :
    let codecs : Codecs := .bare
    let o : Options := { directory := some "out".toList, raw := true }
    let one : Options := { o with files := ["a/p".toList] }
    let both : Options := { o with files := ["a/p".toList, "b/p".toList] }
    (∀ schedule outcome, performBy codecs schedule one { tree := twins } = some outcome →
        outcome.status = 0 → HoldsPages codecs one twins outcome.tree "out".toList one.files) ∧
      (∃ outcome, performBy codecs [0, 1, 0, 1, 1, 0] both { tree := twins } = some outcome ∧
        outcome.status = 0) ∧
      ∀ schedule outcome, performBy codecs schedule both { tree := twins } = some outcome →
        outcome.status = 0 →
          ¬ HoldsPages codecs both twins outcome.tree "out".toList both.files := by
  intro codecs o one both
  refine ⟨fun schedule outcome hrun hstatus => ?_, ?_, fun schedule outcome hrun hstatus => ?_⟩
  · have hread : ∀ path ∈ one.files, ∃ text, Source.readPage codecs twins path = .ok text :=
      List.forall_mem_singleton.mpr (readPage_twins _ List.mem_cons_self)
    have hkept : ReadsNoOutput twins "out".toList one.files := by
      rintro later here hcreate path hpath there hlocate ⟨-, -, name, -, -, -, rfl⟩
      have hhere : (twins.createDirectories "out".toList).map Prod.snd = .ok ["out".toList] := by
        decide +kernel
      have hthere : twins.locate "a/p".toList = .ok ["a".toList, "p".toList] := by decide +kernel
      obtain rfl := List.mem_singleton.mp hpath
      rw [hcreate] at hhere
      obtain rfl : here = ["out".toList] := Except.ok.inj hhere
      have hother := (List.cons.inj (Except.ok.inj (hthere.symm.trans hlocate))).1
      exact absurd hother (by decide)
    have hagree : AgreeByName codecs one twins one.files := by
      intro path hpath other hother _
      rw [List.mem_singleton.mp hpath, List.mem_singleton.mp hother]
    exact (@holdsPages_of_agreeByName codecs one { tree := twins } "out".toList one.files schedule
      outcome rfl rfl rfl rfl (by decide) hread hrun hstatus).1 hkept hagree
  · have hrun : (performBy codecs [0, 1, 0, 1, 1, 0] both { tree := twins }).map Outcome.status =
        some 0 := by decide +kernel
    exact Option.map_eq_some_iff.mp hrun
  · have hdiffer : renderFile codecs both twins "a/p".toList ≠
        renderFile codecs both twins "b/p".toList := by decide +kernel
    have hagree : ¬ AgreeByName codecs both twins both.files := fun hagree =>
      hdiffer (hagree _ (by decide) _ (by decide) (by decide))
    exact (@holdsPages_of_agreeByName codecs both { tree := twins } "out".toList both.files schedule
      outcome rfl rfl rfl rfl (by decide) readPage_twins hrun hstatus).2 hagree

/-- **Pages are lost** although the command ends without a failure: the file is left with the second
page. -/
theorem not_holdsPages_twins :
    let paths := ["a/p".toList, "b/p".toList]
    let o : Options := { files := paths, directory := some "out".toList, raw := true }
    let codecs : Codecs := .bare
    let outcome :=
      run codecs (["-r", "-d", "out", "a/p", "b/p"].map String.toList) { tree := twins }
    Options.parse (["-r", "-d", "out", "a/p", "b/p"].map String.toList) = .ok o ∧
      paths.Nodup ∧ (∀ path ∈ paths, ∃ text, Source.readPage codecs twins path = .ok text) ∧
      outcome.status = 0 ∧ ¬ HoldsPages codecs o twins outcome.tree "out".toList paths := by
  intro paths o codecs outcome
  refine ⟨by decide +kernel, by decide, readPage_twins, by decide +kernel, fun hholds => ?_⟩
  obtain ⟨name, text, hname, htext, hcontent⟩ := hholds "a/p".toList (by decide)
  have hname' : Source.outputName? "a/p".toList = some "p.html".toList := by decide
  have hlast : (outcome.tree.contentOf (Path.join "out".toList "p.html".toList)).toOption =
      (renderFile codecs o twins "b/p".toList).toOption.map Utf8.encode := by decide +kernel
  have hdiffer : (renderFile codecs o twins "a/p".toList).toOption.map Utf8.encode ≠
      (renderFile codecs o twins "b/p".toList).toOption.map Utf8.encode := by decide +kernel
  obtain rfl : name = "p.html".toList := Option.some.inj (hname.symm.trans hname')
  rw [← hlast, hcontent, htext] at hdiffer
  exact hdiffer rfl

end Manpage.Command
