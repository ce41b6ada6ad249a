import Manpage.Roff.Line

/-!
# The calls of a page

The requests that the lines of a page perform, directly or through items, with their arguments and
the state in which they are performed. A page names its sections and its links to other pages in
these calls.

## Main definitions

* `Call`, `callsOn`: the requests of a line with their arguments
* `State.performed`: the requests of a run, each with the state before its line
* `Call.sections`: the names of the sections that a call starts
* `Call.targets`: the targets of the links that a call writes
-/

namespace Manpage

open Markup

/-! ## Calls -/

/-- A request with its argument. -/
structure Call where
  request : Request
  args : List Char

/-- The calls that a request makes with the argument `args`: itself and, for an item, those that its
argument makes. -/
def Request.calls (nested : List Char → List Call) (args : List Char) : Request → List Call
  | .it => ⟨.it, args⟩ :: nested args
  | r => [⟨r, args⟩]

/-- The calls of a control line without its first character. -/
def callsBy (nested : List Char → List Call) (body : List Char) : List Call :=
  match Request.ofName? (splitRequest body).1 with
  | some r => r.calls nested (splitRequest body).2
  | none => []

/-- The calls of a control line without its first character, where items make requests at most
`depth` deep. -/
def callsWithin : (depth : Nat) → (body : List Char) → List Call
  | 0 => callsBy fun _ => []
  | depth + 1 => callsBy (callsWithin depth)

/-- **The calls of a line**: the requests that it performs, directly or through items, with their
arguments. -/
def callsOn (line : List Char) : List Call :=
  if isComment line then []
  else if Inline.isControl line then callsWithin maxNesting (line.drop 1)
  else []

/-- The calls of a run of lines, each with the state before its line. -/
def State.performed (s : State) : List (List Char) → List (State × Call)
  | [] => []
  | line :: lines => (callsOn line).map (s, ·) ++ (s.feed line).1.performed lines

/-! ## Sections and links -/

namespace Block

/-- The name that a section request writes, if it has one. -/
def sectionNames (s : State) (args : List Char) : List (List Fragment) :=
  (quotedArguments args).head?.toList.map fun name => (s.argument name).2

/-- The name of the section that the note on another page stands in. -/
def noteNames (args : List Char) : List (List Fragment) :=
  (quotedArguments args).head?.toList.map fun _ => wording "NOTE"

/-- The target of the link that the note on another page holds. -/
def noteTargets (args : List Char) : List (List Fragment) :=
  (quotedArguments args).head?.toList.map fun first => .char '/' :: escape (Text.trim first)

end Block

namespace Inline

/-- The target of the link to the page `page` of the section `sect`. -/
def pageTarget (page sect : List Fragment) : List Fragment :=
  wording "/man" ++ sect ++ [.char '/'] ++ page ++ [.char '.'] ++ sect

/-- The target of the link that the words of a reference are, if they are one. -/
def wordTargets : List (List Fragment) → List (List Fragment)
  | [page, sect] => (section? sect).toList.map fun found => pageTarget page found.1
  | _ => []

/-- The target of the link that a reference is, if it is one. -/
def referenceTargets (s : State) (args : List Char) : List (List Fragment) :=
  if args = [] then [] else wordTargets (splitWords (s.argument args).2)

end Inline

namespace Call

/-- **The names of the sections that a call starts**, as they are written. -/
def sections (s : State) (c : Call) : List (List Fragment) :=
  match c.request with
  | .sh => Block.sectionNames s c.args
  | .so => Block.noteNames c.args
  | _ => []

/-- **The targets of the links to other pages** that a call writes. -/
def targets (s : State) (c : Call) : List (List Fragment) :=
  match c.request with
  | .so => Block.noteTargets c.args
  | .br => Inline.referenceTargets s c.args
  | _ => []

end Call

/-! ### What sections and links depend on -/

section Congruence

variable {s s' : State}

/-- A text is set as the font says, and as preformatted text if it is. -/
theorem State.setText_congr (hfont : s.font = s'.font)
    (hpre : s.inPreformatted = s'.inPreformatted) (collapse : Bool) (cs : List Char) :
    (s.setText collapse cs).2 = (s'.setText collapse cs).2 := by
  simp only [State.setText, hfont, hpre]

theorem Call.sections_congr (hfont : s.font = s'.font)
    (hpre : s.inPreformatted = s'.inPreformatted) (c : Call) : c.sections s = c.sections s' := by
  simp only [sections, Block.sectionNames, State.argument, State.setText_congr hfont hpre]

theorem Call.targets_congr (hfont : s.font = s'.font)
    (hpre : s.inPreformatted = s'.inPreformatted) (c : Call) : c.targets s = c.targets s' := by
  simp only [targets, Inline.referenceTargets, State.argument, State.setText_congr hfont hpre]

end Congruence

end Manpage
