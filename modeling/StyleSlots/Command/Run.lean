import StyleSlots.Command.Line
import StyleSlots.Compiler
import StyleSlots.ClassList.Merge
import StyleSlots.Node.Reader
import StyleSlots.StyleSheet
import StyleSlots.Text.ControlSequence

/-! # Running commands

    - **Outcome**: an exit status with what is printed, a usage error, a
      name that no file can have, or a file that is not text.
    - **Compile**: prints the style sheet, one text per rule, or the class
      names, one per line.
    - **Merge**: prints the merged classes on one line.
    - **Plain output**: what a command prints goes out without control
      sequences. The log keeps them.

    Running a command reads at most one file, whose contents are an
    argument here. What it prints is a value. -/

namespace StyleSlots

/-! ## Outcomes -/

/-- How a command ends. -/
inductive Outcome where
  /-- The command line or its file is not usable. -/
  | usageError
  /-- No file can have the name that is given. -/
  | notName
  /-- The file is not valid UTF-8. -/
  | notText
  | finished (status : Nat) (out err : Text)
  deriving DecidableEq, Repr

namespace Outcome

/-- The status with which a usage error ends. -/
def usageStatus : Nat := 2

/-- The status with which any other failure ends. -/
def failureStatus : Nat := 1

/-- The exit status. -/
def status : Outcome → Nat
  | usageError => usageStatus
  | notName => failureStatus
  | notText => failureStatus
  | finished status _ _ => status

end Outcome

namespace Command

/-! ## Printing -/

/-- A text as a line of its own. One that ends in a line feed is a whole
    line already. -/
def line (t : Text) : Text := if t.getLast? = some '\n' then t else t ++ ['\n']

/-- A text with a line feed behind it, as a command prints it. -/
def printed (t : Text) : Text := Text.plain (t ++ ['\n'])

/-- The printed log. Only warnings are shown unless more is asked for. -/
def printedLog (verbose : Bool) (log : List LogEntry) : Text :=
  let shown := log.filter fun entry => verbose || entry.level = .warning
  shown.flatMap fun entry =>
    entry.level.name ++ " atomicss.compiler.atomicify: ".toList ++ entry.message ++ ['\n']

/-- The printed form of an error. -/
def printedError (message : Text) : Text := Text.plain (line ("Error: ".toList ++ message))

/-! ## Sources -/

/-- A text with every line end written as a line feed. -/
def unixLines : Text → Text
  | [] => []
  | '\r' :: '\n' :: rest => '\n' :: unixLines rest
  | '\r' :: rest => '\n' :: unixLines rest
  | c :: rest => c :: unixLines rest

/-- The name of a file without the directories it is in. -/
def baseName (file : Text) : Text := (file.reverse.takeWhile (· ≠ '/')).reverse

/-! ## Commands -/

/-- Compiles the text of a named source. -/
def compileText (source t : Text) (shorthandFirst classNames verbose : Bool) : Outcome :=
  match Node.ofText source t with
  | .error e => .finished Outcome.failureStatus [] (printedError e.message)
  | .ok nodes =>
    let (compiler, result) := Compiler.compile { scheme := .default, shorthandFirst } nodes
    let log := printedLog verbose result.log
    match result.rules with
    | .error e => .finished Outcome.failureStatus [] (log ++ printedError e.message)
    | .ok rules =>
      let out :=
        if classNames then compiler.distinctNames.flatMap printed
        else
          let sheet := styleSheet ['\n'] compiler.carried rules
          if sheet.isEmpty then [] else printed sheet
      .finished 0 out log

/-- Compiles the bytes of a file. -/
def compileBytes (file : Text) (bytes : ByteArray) (shorthandFirst classNames verbose : Bool) :
    Outcome :=
  match String.fromUTF8? bytes with
  | none => .notText
  | some s =>
    compileText (baseName file) (unixLines s.toList) shorthandFirst classNames verbose

/-- Merges the classes of a command line. -/
def mergeArguments (classes : List Text) : Outcome :=
  match mergeClasses (.list (classes.map Candidate.text)) none none with
  | .ok (merged, _) => .finished 0 (printed (merged.getD [])) []
  | .error e => .finished Outcome.failureStatus [] (printedError e.message)

/-- What is printed for a request for the version. -/
def versionText : Text := "atomicss, version 0.1.0".toList

/-- What is printed for a request for help. -/
def helpText : Text :=
  ("Usage: atomicss [-v] compile [--[no-]sort-shorthand] [--class-names] CSSFILE\n" ++
    "       atomicss [-v] merge [CLASSES]...").toList

/-- The file that a command reads. -/
def file? : Command → Option Text
  | compile file _ _ _ => some file
  | _ => none

/-- Runs a command on the contents of its file, if that can be read. -/
def run (command : Command) (contents : Option ByteArray) : Outcome :=
  match command, contents with
  | version, _ => .finished 0 (printed versionText) []
  | help, _ => .finished 0 (printed helpText) []
  | merge classes, _ => mergeArguments classes
  | compile file shorthandFirst classNames verbose, contents =>
    if ! isFileName file then .notName
    else
      match contents with
      | none => .usageError
      | some bytes => compileBytes file bytes shorthandFirst classNames verbose

end Command

end StyleSlots
