import StyleSlots.Text.Basic

/-! # Command lines

    - **Commands**: `compile FILE` and `merge CLASSES...`.
    - **Options**: an argument that starts with a hyphen and has more to it.
      Those in front of the command are its group's; those behind it may
      stand between the arguments. Both end at `--`.
    - **Requests**: the version or the help, asked for by an option in front
      of the command.
    - **Usage errors**: whatever is not understood. There is no command
      then, and nothing is run. -/

namespace StyleSlots

/-- What a command line asks for. -/
inductive Command where
  | version
  | help
  /-- Compile a file. Shorthands are moved first unless that is declined;
      with `classNames` only the names of the classes are printed. -/
  | compile (file : Text) (shorthandFirst classNames verbose : Bool)
  | merge (classes : List Text)
  deriving DecidableEq, Repr

namespace Command

/-! ## Arguments of a command -/

/-- Whether an argument is an option. -/
def isOption (arg : Text) : Bool := arg.head? = some '-' && 1 < arg.length

/-- Separates the options from the other arguments; both keep their order. -/
def separate : List Text → List Text × List Text
  | [] => ([], [])
  | arg :: rest =>
    -- behind `--` nothing is an option
    if arg = "--".toList then ([], rest)
    else
      let more := separate rest
      if isOption arg then (arg :: more.1, more.2) else (more.1, arg :: more.2)

/-- The value that the last of two opposite options sets. -/
def lastOf (on off : Text) (initial : Bool) (options : List Text) : Bool :=
  options.foldl
    (fun value option => if option = on then true else if option = off then false else value)
    initial

/-- The option that asks for help. -/
def helpOption : Text := "--help".toList

/-- The options of `compile`. -/
def compileOptions : List Text :=
  [helpOption, "--sort-shorthand".toList, "--no-sort-shorthand".toList, "--class-names".toList]

/-- Whether a file can have this name. No name holds a NUL character. -/
def isFileName (name : Text) : Bool := ! name.contains '\x00'

/-- Reads the arguments of `compile`. -/
def ofCompile (verbose : Bool) (args : List Text) : Option Command :=
  let (options, files) := separate args
  if ! options.all compileOptions.contains then none
  else if options.contains helpOption then some help
  else
    match files with
    | [] => none
    | file :: surplus =>
      -- a name that no file can have is met before the surplus is counted
      if surplus.isEmpty || ! isFileName file then
        some (compile file
          (lastOf "--sort-shorthand".toList "--no-sort-shorthand".toList true options)
          (options.contains "--class-names".toList) verbose)
      else none

/-- Reads the arguments of `merge`. -/
def ofMerge (args : List Text) : Option Command :=
  let (options, classes) := separate args
  if ! options.all (· = helpOption) then none
  else if options.contains helpOption then some help
  else some (merge classes)

/-! ## Options of the group -/

/-- What an option in front of the command sets. -/
inductive GroupOption where
  | verbose
  /-- A request that is answered without looking at the command. -/
  | request (command : Command)
  deriving DecidableEq, Repr

/-- The option that an argument in front of the command spells. Short
    options may share one hyphen. -/
def groupOption? (arg : Text) : Option GroupOption :=
  if arg = "--verbose".toList then some .verbose
  else if arg = "--version".toList then some (.request version)
  else if arg = helpOption then some (.request help)
  else if (arg.drop 1).all (· = 'v') then some .verbose
  else none

/-- What stands in front of the command. -/
structure Heading where
  verbose : Bool
  /-- The first request. -/
  request : Option Command
  /-- The name of the command and its arguments. -/
  rest    : List Text
  deriving DecidableEq, Repr

namespace Heading

/-- A heading with one more option in front. -/
def add (heading : Heading) : GroupOption → Heading
  | .verbose => { heading with verbose := true }
  | .request command => { heading with request := some command }

/-- Reads the options in front of the command, if all are understood. -/
def ofLine : List Text → Option Heading
  | [] => some ⟨false, none, []⟩
  | arg :: rest =>
    -- `--` ends the options, and so does whatever is not one
    if arg = "--".toList then some ⟨false, none, rest⟩
    else if isOption arg then do
      let option ← groupOption? arg
      let heading ← ofLine rest
      return heading.add option
    else some ⟨false, none, arg :: rest⟩

end Heading

/-- Reads the name of a command and its arguments. What names no command
    may still hold a request in the place of one. -/
def ofNamed (verbose : Bool) : List Text → Option Command
  | [] => none
  | name :: args =>
    if name = "compile".toList then ofCompile verbose args
    else if name = "merge".toList then ofMerge args
    else (Heading.ofLine (name :: args)).bind Heading.request

/-- The command of a command line. A request in front of the command is
    answered without a look at the command. -/
def ofArguments? (args : List Text) : Option Command := do
  let heading ← Heading.ofLine args
  heading.request.or (ofNamed heading.verbose heading.rest)

end Command

end StyleSlots
