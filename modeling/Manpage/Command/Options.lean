import Manpage.Files.Path

/-!
# Options

The options of the command.  Short options can be grouped; the value of an option follows it, in
the same argument or in the next one; everything after two dashes is a file.

## Main definitions

* `Options`: what the command is asked to do.
* `Options.parse`: the options that arguments give.
-/

namespace Manpage.Command

/-- What the command is asked to do. -/
structure Options where
  /-- The pages to convert. -/
  files : List Path := []
  /-- How much to tell about the work. -/
  verbose : Nat := 0
  /-- Whether pages go to the standard output. -/
  stdout : Bool := false
  /-- The directory that pages go to. -/
  directory : Option Path := none
  /-- Whether all pages of the manual path are converted. -/
  manualPath : Bool := false
  /-- Whether progress is shown. -/
  progress : Bool := false
  /-- Whether the links of each page are listed. -/
  links : Bool := false
  /-- Whether option links are left out. -/
  raw : Bool := false
  /-- The shell to print completions for. -/
  completions : Option (List Char) := none
  deriving DecidableEq, Repr

/-- The options there are. -/
inductive Flag where
  | verbose | stdout | directory | manualPath | progress | links | raw | completions
  | help | version
  deriving DecidableEq, Repr

/-- The long names of options. -/
def Flag.ofName? (name : List Char) : Option Flag :=
  [("verbose", verbose), ("stdout", stdout), ("directory", directory), ("manpath", manualPath),
    ("progress", progress), ("links", links), ("raw", raw), ("completions", completions),
    ("help", help), ("version", version)].lookup (String.ofList name)

/-- The letters of options. -/
def Flag.ofLetter? (letter : Char) : Option Flag :=
  [('v', verbose), ('s', stdout), ('d', directory), ('m', manualPath), ('p', progress),
    ('l', links), ('r', raw), ('h', help), ('V', version)].lookup letter

/-- Whether an option has a value. -/
def Flag.hasValue : Flag → Bool
  | directory | completions => true
  | _ => false

/-- Why arguments give no options. -/
inductive UsageError where
  /-- There is no such option. -/
  | unknown (argument : List Char)
  /-- An option needs a value and has none. -/
  | valueMissing (flag : Flag)
  /-- An option has a value and takes none. -/
  | valueUnexpected (flag : Flag)
  /-- An option is given more often than once. -/
  | repeated (flag : Flag)
  /-- A path is empty. -/
  | emptyPath
  /-- There are no completions for a shell. -/
  | unknownShell (name : List Char)
  deriving DecidableEq, Repr

/-- What reading arguments can come to before all are read. -/
inductive Stop where
  | error (e : UsageError)
  | help
  | version
  deriving DecidableEq, Repr

/-- The shells that completions can be printed for. -/
def shells : List (List Char) :=
  ["bash".toList, "elvish".toList, "fish".toList, "powershell".toList, "zsh".toList]

namespace Options

/-- Sets an option that may be given once. -/
def setOnce (flag : Flag) (isSet : Bool) (set : Options) : Except Stop Options :=
  if isSet then .error (.error (.repeated flag)) else .ok set

/-- The options with one without a value. -/
def setFlag (o : Options) (flag : Flag) : Except Stop Options :=
  match flag with
  | .verbose => .ok { o with verbose := o.verbose + 1 }
  | .stdout => setOnce flag o.stdout { o with stdout := true }
  | .manualPath => setOnce flag o.manualPath { o with manualPath := true }
  | .progress => setOnce flag o.progress { o with progress := true }
  | .links => setOnce flag o.links { o with links := true }
  | .raw => setOnce flag o.raw { o with raw := true }
  | .help => .error .help
  | .version => .error .version
  | .directory | .completions => .error (.error (.valueMissing flag))

/-- The options with one and its value. -/
def setValue (o : Options) (flag : Flag) (value : List Char) : Except Stop Options :=
  match flag with
  | .directory =>
    if value = [] then .error (.error .emptyPath)
    else setOnce flag o.directory.isSome { o with directory := some value }
  | .completions =>
    if shells.contains value then
      setOnce flag o.completions.isSome { o with completions := some value }
    else .error (.error (.unknownShell value))
  | _ => .error (.error (.valueUnexpected flag))

/-- The options with a file. -/
def addFile (o : Options) (path : Path) : Except Stop Options :=
  if path = [] then .error (.error .emptyPath) else .ok { o with files := o.files ++ [path] }

/-- The options after a group of short ones, and the option at its end that still needs a value. -/
def readLetters (o : Options) : List Char → Except Stop (Options × Option Flag)
  | [] => .ok (o, none)
  | letter :: rest =>
    match Flag.ofLetter? letter with
    | none => .error (.error (.unknown ['-', letter]))
    | some flag =>
      if flag.hasValue then
        match rest with
        | [] => .ok (o, some flag)
        | '=' :: value => (o.setValue flag value).map (·, none)
        | value => (o.setValue flag value).map (·, none)
      else
        match o.setFlag flag with
        | .ok o => readLetters o rest
        | .error stop => .error stop

/-- The options after a long one, and the option itself if it still needs a value. -/
def readLong (o : Options) (argument : List Char) : Except Stop (Options × Option Flag) :=
  let (name, value?) :=
    match Text.cut? (· == '=') argument with
    | some (name, value) => (name, some value)
    | none => (argument, none)
  match Flag.ofName? name, value? with
  | none, _ => .error (.error (.unknown ('-' :: '-' :: argument)))
  | some flag, some value => (o.setValue flag value).map (·, none)
  | some flag, none =>
    if flag.hasValue then .ok (o, some flag) else (o.setFlag flag).map (·, none)

/-- Whether an argument has the form of an option: a dash with something after it. -/
def isOptionLike : List Char → Bool
  | '-' :: _ :: _ => true
  | _ => false

/-- The options after further arguments; `waiting` is an option that still needs its value. -/
def read (o : Options) (waiting : Option Flag) : List (List Char) → Except Stop Options
  | [] =>
    match waiting with
    | some flag => .error (.error (.valueMissing flag))
    | none => .ok o
  | argument :: rest =>
    match waiting with
    | some flag =>
      if isOptionLike argument then .error (.error (.valueMissing flag))
      else do (← o.setValue flag argument).read none rest
    | none =>
      match argument with
      | ['-', '-'] => rest.foldlM addFile o
      | '-' :: '-' :: name => do
        let (o, waiting) ← o.readLong name
        o.read waiting rest
      | '-' :: letter :: letters => do
        let (o, waiting) ← o.readLetters (letter :: letters)
        o.read waiting rest
      | path => do (← o.addFile path).read none rest

/-- The options that arguments give. -/
def parse (arguments : List (List Char)) : Except Stop Options :=
  read {} none arguments

end Options

end Manpage.Command
