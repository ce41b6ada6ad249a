import Manpage.Proofs.Roff.Written
import Manpage.Roff.Line

/-!
# What lines write

A line performs the requests on it, the ones that items make included, and writes content. Whether
text is preformatted afterwards depends on these requests alone, so a line break is written only
once a request has started a preformatted block.

## Main definitions

* `requestsOn`: the requests that a line performs
* `Request.setsPreformatted`: what a request does to preformatted text
* `State.FollowsRequests`, `State.WritesCalls`: what carries from the requests that items make to
  the lines that hold them

## Main results

* `State.feed_request`, `State.feed_text`: a line that makes a request, and a line of text
* `State.feedAll_append`: lines are set one part after the other
* `State.inPreformatted_feed`: whether text is preformatted after a line
* `State.layout_feed`: one line writes the sections and the links that its calls name
* `State.layout_feedAll`: a run of lines writes those of all its calls, one after the other
-/

namespace Manpage

open Markup

/-! ## The requests on a line -/

/-- The requests that `r` performs with the argument `args`: itself and, for an item, those that
its argument makes. -/
def Request.andNested (nested : List Char → List Request) (args : List Char) :
    Request → List Request
  | .it => .it :: nested args
  | r => [r]

/-- The requests of a control line without its first character. -/
def requestsBy (nested : List Char → List Request) (body : List Char) : List Request :=
  match Request.ofName? (splitRequest body).1 with
  | some r => r.andNested nested (splitRequest body).2
  | none => []

/-- The requests of a control line without its first character, where items make requests at most
`depth` deep. -/
def requestsWithin : (depth : Nat) → (body : List Char) → List Request
  | 0 => requestsBy fun _ => []
  | depth + 1 => requestsBy (requestsWithin depth)

/-- **The requests that a line performs**, directly or through items. -/
def requestsOn (line : List Char) : List Request :=
  if isComment line then []
  else if Inline.isControl line then requestsWithin maxNesting (line.drop 1)
  else []

/-- Whether text is preformatted after a request, when it was `before`. -/
def Request.setsPreformatted (before : Bool) : Request → Bool
  | .nf => true
  | .fi => false
  | _ => before

/-- Text is preformatted after some requests only if it was before or one of them starts a
preformatted block. -/
theorem Request.foldl_setsPreformatted {before : Bool} {rs : List Request}
    (h : rs.foldl Request.setsPreformatted before = true) : before = true ∨ .nf ∈ rs := by
  induction rs generalizing before with
  | nil => exact Or.inl h
  | cons r rs ih =>
    rcases ih h with hr | hmem
    · cases r with
      | nf => exact Or.inr List.mem_cons_self
      | fi => exact absurd hr Bool.false_ne_true
      | _ => exact Or.inl hr
    · exact Or.inr (List.mem_cons_of_mem _ hmem)

/-! ## Indents -/

namespace Block

variable (s : State)

@[simp] theorem font_leaveIndent : (leaveIndent s).1.font = s.font := by
  unfold leaveIndent
  split_ifs <;> rfl

@[simp] theorem inPreformatted_leaveIndent :
    (leaveIndent s).1.inPreformatted = s.inPreformatted := by
  unfold leaveIndent
  split_ifs <;> rfl

/-- What is written before a request that ends an indent. -/
theorem snd_leaveIndent : (leaveIndent s).2 = if s.indent = .body then listEnd else [] := by
  unfold leaveIndent
  split_ifs <;> rfl

@[simp] theorem font_countdown : (countdown s).1.font = s.font := by
  unfold countdown
  split <;> rfl

@[simp] theorem inPreformatted_countdown :
    (countdown s).1.inPreformatted = s.inPreformatted := by
  unfold countdown
  split <;> rfl

/-- The countdown of indents does not look at the last request. -/
theorem countdown_withRequest (r : Option Request) :
    countdown { s with lastRequest := r } =
      ({ (countdown s).1 with lastRequest := r }, (countdown s).2) := by
  obtain ⟨font, lastRequest, lastLine, commandName, inParagraph, inSection, inPreformatted,
    indent⟩ := s
  cases indent <;> rfl

/-- An indent that ends leaves nothing to count. -/
theorem snd_countdown_leaveIndent : (countdown (leaveIndent s).1).2 = (countdown s).2 := by
  unfold leaveIndent
  split_ifs with h
  · simp [countdown, h]
  · rfl

variable {s}

/-- The countdown of indents writes what the indent asks for. -/
theorem snd_countdown_congr {t : State} (h : s.indent = t.indent) :
    (countdown s).2 = (countdown t).2 := by
  unfold countdown
  rw [h]
  split <;> rfl

/-- A line in a term ends it. -/
theorem countdown_of_term (h : s.indent = .term) :
    countdown s = ({ s with indent := .body }, [.closing .dt, .opening .dd]) := by
  unfold countdown
  rw [h]

/-- Outside of a term that is open or to be opened there is nothing to count. -/
theorem countdown_of_ne (hrequested : s.indent ≠ .requested) (hterm : s.indent ≠ .term) :
    countdown s = (s, []) := by
  unfold countdown
  split
  · contradiction
  · contradiction
  · rfl

end Block

/-! ## One line -/

section OneLine

variable {body line : List Char} {r : Request}

/-- A request has its own name, in lower case. -/
theorem Request.name_of_ofName? {name : List Char} (h : Request.ofName? name = some r) :
    r.name.toList = name.map Char.toLower := by
  have hname := List.find?_some h
  exact beq_iff_eq.mp hname

/-- A line that makes a request is no comment. -/
theorem isComment_of_ofName? (h : Request.ofName? (splitRequest body).1 = some r) :
    isComment ('.' :: body) = false := by
  unfold isComment
  split
  · next heq => exact absurd (List.cons.inj heq).1 (by decide)
  · next rest heq =>
    obtain ⟨-, rfl⟩ := List.cons.inj heq
    have hhead : (splitRequest ('\\' :: rest)).1.head? = some '\\' := by
      unfold splitRequest
      rw [Text.cut?, if_neg (by decide)]
      cases Text.cut? _ rest <;> rfl
    have hname := congrArg List.head? (Request.name_of_ofName? h)
    rw [List.head?_map, hhead] at hname
    cases r <;> exact absurd hname (by decide)
  · next heq => exact absurd (List.cons.inj heq).1 (by decide)
  · rfl

namespace State

theorem requestLine_of_ofName? (h : Request.ofName? (splitRequest body).1 = some r)
    (nested : List Char → State → State × List Fragment) (s : State) :
    requestLine nested body s = s.request nested r (splitRequest body).2 := by
  unfold requestLine
  simp only [h]

/-- A control line performs its request, and the countdown of indents follows. -/
theorem feed_request (h : Request.ofName? (splitRequest body).1 = some r) (s : State) :
    s.feed ('.' :: body) =
      ({ (Block.countdown (control maxNesting body s).1).1 with lastLine := some ('.' :: body) },
        (control maxNesting body s).2 ++ (Block.countdown (control maxNesting body s).1).2) := by
  rw [feed, isComment_of_ofName? h]
  rfl

/-- A control line ends the indent that its request ends, performs the request, and the countdown of
indents follows. -/
theorem feed_perform {s t u : State} {before fs : List Fragment}
    (h : Request.ofName? (splitRequest body).1 = some r)
    (hbefore : (if r.endsIndent then Block.leaveIndent s else (s, [])) = (t, before))
    (hperform : t.perform (control 7) r (splitRequest body).2 = (u, fs)) :
    s.feed ('.' :: body) =
      ({ (Block.countdown u).1 with lastRequest := some r, lastLine := some ('.' :: body) },
        before ++ fs ++ (Block.countdown u).2) := by
  have hcontrol : control maxNesting body s = ({ u with lastRequest := some r }, before ++ fs) := by
    refine (requestLine_of_ofName? h _ s).trans ?_
    rw [request, hbefore]
    dsimp only
    rw [hperform]
  rw [feed_request h, hcontrol, Block.countdown_withRequest]

/-- A request that ends no indent is performed in the state that its line comes in. -/
theorem feed_perform_of_not_ends {s u : State} {fs : List Fragment}
    (h : Request.ofName? (splitRequest body).1 = some r) (hends : r.endsIndent = false)
    (hperform : s.perform (control 7) r (splitRequest body).2 = (u, fs)) :
    s.feed ('.' :: body) =
      ({ (Block.countdown u).1 with lastRequest := some r, lastLine := some ('.' :: body) },
        fs ++ (Block.countdown u).2) := by
  have hbefore : (if r.endsIndent then Block.leaveIndent s else (s, [])) = (s, []) := by
    rw [hends]
    rfl
  rw [feed_perform h hbefore hperform, List.nil_append]

/-- A request for a hanging paragraph closes the one before it, and starts a list. -/
theorem feed_hangingRequest (h : Request.ofName? (splitRequest body).1 = some .tp) (s : State) :
    s.feed ('.' :: body) =
      ({ (Block.leaveIndent s).1 with
          indent := .term, lastRequest := some .tp, lastLine := some ('.' :: body) },
        (Block.leaveIndent s).2 ++ [.opening .dl, .opening .dt]) := by
  rw [feed_perform h (Prod.eta (Block.leaveIndent s)).symm rfl, List.append_nil]
  rfl

/-- A line of text is set with a space before it, and the countdown of indents follows. -/
theorem feed_text {s : State} (hcomment : isComment line = false)
    (hcontrol : Inline.isControl line = false) :
    s.feed line =
      ({ (Block.countdown (s.text line).1).1 with lastLine := some line },
        .char ' ' :: (s.text line).2 ++ (Block.countdown (s.text line).1).2) := by
  simp [feed, setLine, hcomment, hcontrol]

end State

end OneLine

/-! ## Runs of lines -/

namespace State

theorem feedAll_cons {s t : State} {line : List Char} {fs : List Fragment}
    (h : s.feed line = (t, fs)) (lines : List (List Char)) :
    s.feedAll (line :: lines) = ((t.feedAll lines).1, fs ++ (t.feedAll lines).2) := by
  rw [feedAll, h]

theorem feedAll_append (s : State) (lines more : List (List Char)) :
    s.feedAll (lines ++ more) =
      (((s.feedAll lines).1.feedAll more).1,
        (s.feedAll lines).2 ++ ((s.feedAll lines).1.feedAll more).2) := by
  induction lines generalizing s with
  | nil => rfl
  | cons line lines ih => simp only [List.cons_append, feedAll, ih, List.append_assoc]

theorem performed_append (s : State) (lines more : List (List Char)) :
    s.performed (lines ++ more) = s.performed lines ++ (s.feedAll lines).1.performed more := by
  induction lines generalizing s with
  | nil => rfl
  | cons line lines ih => simp only [List.cons_append, performed, feedAll, ih, List.append_assoc]

end State

/-! ## Preformatted text -/

section Preformatted

variable (s : State) (args : List Char)

@[simp] theorem Block.inPreformatted_title :
    (Block.title s args).1.inPreformatted = s.inPreformatted := by
  unfold Block.title
  split <;> rfl

@[simp] theorem Block.inPreformatted_sectionHead :
    (Block.sectionHead s args).1.inPreformatted = s.inPreformatted := by
  unfold Block.sectionHead
  cases quotedArguments args <;> rfl

@[simp] theorem Block.inPreformatted_hanging :
    (Block.hanging s args).1.inPreformatted = s.inPreformatted := by
  unfold Block.hanging
  split <;> rfl

@[simp] theorem Inline.inPreformatted_boldItalic :
    (Inline.boldItalic s args).1.inPreformatted = s.inPreformatted := by
  unfold Inline.boldItalic
  split_ifs <;> rfl

@[simp] theorem Inline.inPreformatted_reference :
    (Inline.reference s args).1.inPreformatted = s.inPreformatted := by
  unfold Inline.reference
  split_ifs <;> rfl

namespace State

variable {s args} {nested : List Char → State → State × List Fragment}
  {requests : List Char → List Request}

/-- Whether text is preformatted after `nested` as the `requests` in its argument say. -/
def FollowsRequests (nested : List Char → State → State × List Fragment)
    (requests : List Char → List Request) : Prop :=
  ∀ args s, (nested args s).1.inPreformatted =
    (requests args).foldl Request.setsPreformatted s.inPreformatted

/-- A request starts or ends a preformatted block as it says, and an item as the request it
makes. -/
theorem inPreformatted_perform (hn : FollowsRequests nested requests) (r : Request) :
    (s.perform nested r args).1.inPreformatted =
      (r.andNested requests args).foldl Request.setsPreformatted s.inPreformatted := by
  cases r with
  | it => exact hn args s
  | th | dt => exact Block.inPreformatted_title s args
  | sh => exact Block.inPreformatted_sectionHead s args
  | ip => exact Block.inPreformatted_hanging s args
  | bi => exact Inline.inPreformatted_boldItalic s args
  | br => exact Inline.inPreformatted_reference s args
  | _ => rfl

theorem inPreformatted_request (hn : FollowsRequests nested requests) (r : Request) :
    (s.request nested r args).1.inPreformatted =
      (r.andNested requests args).foldl Request.setsPreformatted s.inPreformatted := by
  unfold request
  split_ifs
  · exact (inPreformatted_perform hn r).trans
      (congrArg (List.foldl _ · _) (Block.inPreformatted_leaveIndent s))
  · exact inPreformatted_perform hn r

theorem followsRequests_requestLine (hn : FollowsRequests nested requests) :
    FollowsRequests (requestLine nested) (requestsBy requests) := by
  intro body s
  unfold requestLine requestsBy
  cases hr : Request.ofName? (splitRequest body).1 with
  | none => simp only [hr, List.foldl_nil]
  | some r => simpa only [hr] using inPreformatted_request hn r

theorem followsRequests_control (depth : Nat) :
    FollowsRequests (control depth) (requestsWithin depth) := by
  induction depth with
  -- at the greatest depth an item makes no request
  | zero => exact followsRequests_requestLine fun _ _ => rfl
  | succ depth ih => exact followsRequests_requestLine ih

/-- **Preformatted text after a line** is what the requests on the line make of it. -/
theorem inPreformatted_feed (s : State) (line : List Char) :
    (s.feed line).1.inPreformatted =
      (requestsOn line).foldl Request.setsPreformatted s.inPreformatted := by
  unfold feed requestsOn
  split_ifs with hcomment hcontrol
  · rfl
  · have hset : s.setLine line = control maxNesting (line.drop 1) s := if_pos hcontrol
    simpa [hset] using followsRequests_control maxNesting (line.drop 1) s
  · have hset : s.setLine line = ((s.text line).1, .char ' ' :: (s.text line).2) :=
      if_neg hcontrol
    simp [hset]

end State

end Preformatted

/-! ## Content -/

namespace State

variable {s : State} {nested : List Char → State → State × List Fragment}
  {calls : List Char → List Call}

/-- The names of the sections that calls start in one state. -/
def namesOf (s : State) (cs : List Call) : List (List Fragment) :=
  cs.flatMap (Call.sections s)

/-- The targets of the links that calls write in one state. -/
def targetsOf (s : State) (cs : List Call) : List (List Fragment) :=
  cs.flatMap (Call.targets s)

/-- Whether `nested` writes content in every state: the sections and the links of the `calls` in its
argument. -/
def WritesCalls (nested : List Char → State → State × List Fragment)
    (calls : List Char → List Call) : Prop :=
  ∀ args s, Layout s.inPreformatted (s.namesOf (calls args)) (s.targetsOf (calls args))
    (nested args s).2

/-- A request writes its own section or link, unless it makes another one. -/
theorem layout_perform {r : Request} (hr : r ≠ .it) (args : List Char) :
    Layout s.inPreformatted (Call.sections s ⟨r, args⟩) (Call.targets s ⟨r, args⟩)
      (s.perform nested r args).2 := by
  cases r with
  | it => exact absurd rfl hr
  | th | dt => exact Block.layout_title s args
  | sh => exact Block.layout_sectionHead s args
  | pp | lp | p | sp => exact Block.layout_paragraph s
  | so => exact Block.layout_pointer args
  | tp | ie | nh | ad => exact .nil
  | ip => exact Block.layout_hanging s args
  | bl | rs => exact Block.layout_listStart
  | el | re => exact Block.layout_listEnd
  | nf => exact Block.layout_startPreformatted s
  | fi => exact (Block.layout_endPreformatted s args).mono (absurd · Bool.false_ne_true)
  | nd => exact Block.layout_description s args
  | nm => exact Inline.layout_commandName s args
  | b | i | ar | ri | rb | ir | ib => exact Inline.layout_styled s args _ (by simp)
  | bi => exact Inline.layout_boldItalic s args
  | br => exact Inline.layout_reference s args
  | fl => exact Inline.layout_flags s args
  | op => exact Inline.layout_optional s args

/-- An item writes the list around it, and in it what its argument makes. -/
theorem layout_perform_it (hn : WritesCalls nested calls) (args : List Char) :
    Layout s.inPreformatted (s.namesOf (Request.it.calls calls args))
      (s.targetsOf (Request.it.calls calls args)) (s.perform nested .it args).2 := by
  have hitem := (Block.layout_listStart.append (hn args s)).append Block.layout_listEnd
  rw [List.append_nil, List.append_nil] at hitem
  exact hitem

theorem layout_request (hn : WritesCalls nested calls) (r : Request) (args : List Char) :
    Layout s.inPreformatted (s.namesOf (r.calls calls args)) (s.targetsOf (r.calls calls args))
      (s.request nested r args).2 := by
  by_cases hr : r = .it
  · rw [hr]
    exact layout_perform_it hn args
  · have hcalls : r.calls calls args = [⟨r, args⟩] := by
      cases r with
      | it => exact absurd rfl hr
      | _ => rfl
    rw [hcalls, namesOf, targetsOf, List.flatMap_singleton, List.flatMap_singleton]
    unfold request
    split_ifs
    · have hperform := @layout_perform (Block.leaveIndent s).1 nested r hr args
      rw [Block.inPreformatted_leaveIndent,
        Call.sections_congr (Block.font_leaveIndent s) (Block.inPreformatted_leaveIndent s),
        Call.targets_congr (Block.font_leaveIndent s) (Block.inPreformatted_leaveIndent s)]
        at hperform
      exact (Block.layout_leaveIndent s).append hperform
    · exact layout_perform hr args

theorem writesCalls_requestLine (hn : WritesCalls nested calls) :
    WritesCalls (requestLine nested) (callsBy calls) := by
  intro body s
  unfold requestLine callsBy
  cases hr : Request.ofName? (splitRequest body).1 with
  | none =>
    simp only [hr]
    exact .nil
  | some r =>
    simp only [hr]
    exact layout_request hn r _

theorem writesCalls_control (depth : Nat) :
    WritesCalls (control depth) (callsWithin depth) := by
  induction depth with
  | zero => exact writesCalls_requestLine fun _ _ => .nil
  | succ depth ih => exact writesCalls_requestLine ih

/-- **One line writes the sections and the links that its calls name**, with a line break only if
text was preformatted before it. -/
theorem layout_feed (s : State) (line : List Char) :
    Layout s.inPreformatted (s.namesOf (callsOn line)) (s.targetsOf (callsOn line))
      (s.feed line).2 := by
  unfold feed setLine callsOn
  split_ifs
  · exact .nil
  · have hcountdown : Layout s.inPreformatted [] []
        (Block.countdown (control maxNesting (line.drop 1) s).1).2 := Block.layout_countdown _
    have hline := (writesCalls_control maxNesting (line.drop 1) s).append hcountdown
    rw [List.append_nil, List.append_nil] at hline
    exact hline
  · have htext : Layout s.inPreformatted [] [] (.char ' ' :: (s.text line).2) :=
      .flow rfl (.of_inline (s.isInline_text line))
    exact htext.append (Block.layout_countdown _)

/-- **A run of lines writes the sections and the links of all its calls**, one after the other, with
a line break only if text was preformatted before it or one of the lines starts a preformatted
block. -/
theorem layout_feedAll (s : State) (lines : List (List Char)) :
    Layout (s.inPreformatted || lines.any (requestsOn · |>.contains .nf))
      ((s.performed lines).flatMap fun x => x.2.sections x.1)
      ((s.performed lines).flatMap fun x => x.2.targets x.1) (s.feedAll lines).2 := by
  induction lines generalizing s with
  | nil => exact .nil
  | cons line lines ih =>
    have hline : Layout (s.inPreformatted || (line :: lines).any (requestsOn · |>.contains .nf))
        (s.namesOf (callsOn line)) (s.targetsOf (callsOn line)) (s.feed line).2 :=
      (layout_feed s line).mono fun h => by simp [h]
    rw [performed, List.flatMap_append, List.flatMap_append, List.flatMap_map, List.flatMap_map]
    refine hline.append ((ih (s.feed line).1).mono fun h => ?_)
    rcases Bool.or_eq_true_iff.mp h with h | h
    · rw [inPreformatted_feed] at h
      rcases Request.foldl_setsPreformatted h with h | h
      · simp [h]
      · simp [h]
    · simp only [List.any_cons, h, Bool.or_true]

end State

end Manpage
